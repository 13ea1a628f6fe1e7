/-
Items in sections, each of which begins at an item that opens one. What stands before the
first of these items belongs to none.
-/

import Mathlib.Data.List.Basic

namespace SuperBootimg.HeadedSections

variable {α β : Type}

structure Block (α : Type) where
  header : α
  body : List α
  deriving DecidableEq

structure Outline (α : Type) where
  lead : List α
  blocks : List (Block α)
  deriving DecidableEq

def outline (opens : α → Bool) : List α → Outline α
  | [] => { lead := [], blocks := [] }
  | item :: rest =>
      let later := outline opens rest
      if opens item then
        { lead := [], blocks := { header := item, body := later.lead } :: later.blocks }
      else { later with lead := item :: later.lead }

variable {opens : α → Bool}

theorem outline_opens {item : α} (header : opens item = true) (rest : List α) :
    outline opens (item :: rest) =
      { lead := []
        blocks := { header := item, body := (outline opens rest).lead } ::
          (outline opens rest).blocks } := by
  rw [outline]
  exact if_pos header

theorem outline_other {item : α} (other : opens item = false) (rest : List α) :
    outline opens (item :: rest) =
      { lead := item :: (outline opens rest).lead, blocks := (outline opens rest).blocks } := by
  rw [outline]
  exact if_neg (by rw [other]; exact Bool.false_ne_true)

theorem lead_plain {items : List α} {item : α} (member : item ∈ (outline opens items).lead) :
    opens item = false := by
  induction items with
  | nil => cases member
  | cons first rest ih =>
      cases header : opens first with
      | true =>
          rw [outline_opens header] at member
          cases member
      | false =>
          rw [outline_other header] at member
          rcases List.mem_cons.mp member with rfl | later
          · exact header
          · exact ih later

/-- Only a header opens a section. -/
theorem block_spec {items : List α} {block : Block α}
    (member : block ∈ (outline opens items).blocks) :
    opens block.header = true ∧ ∀ item, item ∈ block.body → opens item = false := by
  induction items with
  | nil => cases member
  | cons first rest ih =>
      cases header : opens first with
      | true =>
          rw [outline_opens header] at member
          rcases List.mem_cons.mp member with rfl | later
          · exact ⟨header, fun item inside => lead_plain inside⟩
          · exact ih later
      | false =>
          rw [outline_other header] at member
          exact ih member

theorem outline_plain {items : List α} (plain : ∀ item, item ∈ items → opens item = false) :
    outline opens items = { lead := items, blocks := [] } := by
  induction items with
  | nil => rfl
  | cons first rest ih =>
      rw [outline_other (plain first List.mem_cons_self),
        ih fun item member => plain item (List.mem_cons_of_mem _ member)]

/-- A section more. -/
theorem outline_append {header : α} (head : opens header = true) {body : List α}
    (plain : ∀ item, item ∈ body → opens item = false) (items : List α) :
    outline opens (items ++ header :: body) =
      { lead := (outline opens items).lead
        blocks := (outline opens items).blocks ++ [{ header := header, body := body }] } := by
  induction items with
  | nil =>
      rw [List.nil_append, outline_opens head, outline_plain plain]
      rfl
  | cons first rest ih =>
      rw [List.cons_append]
      cases kind : opens first with
      | true => rw [outline_opens kind, outline_opens kind, ih, List.cons_append]
      | false => rw [outline_other kind, outline_other kind, ih]

theorem length_blocks (items : List α) :
    (outline opens items).blocks.length = items.countP opens := by
  induction items with
  | nil => rfl
  | cons first rest ih =>
      cases kind : opens first with
      | true => rw [outline_opens kind, List.length_cons, ih, List.countP_cons_of_pos kind]
      | false =>
          rw [outline_other kind, ih, List.countP_cons_of_neg]
          rw [kind]
          exact Bool.false_ne_true

theorem outline_plain_append {extra : List α}
    (plain : ∀ item, item ∈ extra → opens item = false) (rest : List α) :
    outline opens (extra ++ rest) =
      { lead := extra ++ (outline opens rest).lead, blocks := (outline opens rest).blocks } := by
  induction extra with
  | nil => rfl
  | cons item extra ih =>
      rw [List.cons_append, outline_other (plain item List.mem_cons_self),
        ih fun other member => plain other (List.mem_cons_of_mem _ member), List.cons_append]

/-- What is put behind an item belongs to the section of the item. -/
theorem outline_inserted {inserted : α → List α}
    (plain : ∀ item other, other ∈ inserted item → opens other = false) (items : List α) :
    outline opens (items.flatMap fun item => item :: inserted item) =
      { lead := (outline opens items).lead.flatMap fun item => item :: inserted item
        blocks := (outline opens items).blocks.map fun block =>
          { header := block.header
            body := inserted block.header ++
              block.body.flatMap fun item => item :: inserted item } } := by
  induction items with
  | nil => rfl
  | cons first rest ih =>
      rw [List.flatMap_cons, List.cons_append]
      cases kind : opens first with
      | true =>
          rw [outline_opens kind, outline_opens kind, outline_plain_append (plain first), ih]
          rfl
      | false =>
          rw [outline_other kind, outline_other kind, outline_plain_append (plain first), ih]
          rfl

/-- Reading each item does not change the sections if it tells what opens one. -/
theorem outline_filterMap {opensRead : β → Bool} {read : α → Option β}
    (same : ∀ item, opens item = (read item).any opensRead) (items : List α) :
    outline opensRead (items.filterMap read) =
      { lead := (outline opens items).lead.filterMap read
        blocks := (outline opens items).blocks.filterMap fun block =>
          (read block.header).map fun header =>
            { header := header, body := block.body.filterMap read } } := by
  induction items with
  | nil => rfl
  | cons first rest ih =>
      have given := same first
      cases found : read first with
      | none =>
          rw [found, Option.any_none] at given
          rw [List.filterMap_cons_none found, outline_other given, List.filterMap_cons_none found]
          exact ih
      | some item =>
          rw [found, Option.any_some] at given
          rw [List.filterMap_cons_some found]
          cases kind : opensRead item with
          | true =>
              rw [kind] at given
              rw [outline_opens kind, outline_opens given, ih, List.filterMap_nil,
                List.filterMap_cons_some (by rw [found]; rfl)]
          | false =>
              rw [kind] at given
              rw [outline_other kind, outline_other given, ih, List.filterMap_cons_some found]

end SuperBootimg.HeadedSections
