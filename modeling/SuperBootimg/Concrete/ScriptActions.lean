/-
The simple commands of bootimg.sh and changes.sh, and the shell functions of bootimg.sh
that edit the policy, under their names there. Parameters of the shell are expanded;
SEPOLICY and ANDROID are what bootimg.sh has found out about the policy.
-/

import SuperBootimg.ExitOnError
import SuperBootimg.Concrete.PolicyVocabulary
import SuperBootimg.Concrete.WorkDirectory

namespace SuperBootimg.Concrete.Scripts

open ExitOnError
open ExitOnError.Command (steps forEach)
open Sepolicy (Text)

scoped instance : Coe String Text := ⟨String.toList⟩

/-- The formats of a compressed ramdisk. -/
inductive Compression
  | gz
  | lzma
  deriving DecidableEq

/-- The scripts of `sed -i`. -/
inductive Edit
  /-- `s;\(/data.*\),key=.*;\1;g` -/
  | dropDataFlag (key : Text)
  /-- `s;,key=.*;;g` -/
  | dropFlag (key : Text)
  /-- `s;,\{0,1\}verify\(=[^,]*\)\{0,1\};;g` -/
  | dropVerify
  /-- `s;\bro\b;rw;g` -/
  | mountWritable
  /-- `s;old;new;g` on two texts without special symbols -/
  | replace (old new : Text)
  /-- `/^service flash_recovery/a \    disabled` -/
  | disableRecovery
  /-- `/on init/a \    chmod mode /sbin` -/
  | chmodSbin (hidesu : Bool)
  deriving DecidableEq

/-- A simple command, or a pipeline of them. Files are those of the ramdisk's directory
unless something else is said. -/
inductive Action
  /-- `"$scriptdir"/bin/sepolicy-inject$suffix` -/
  | inject (suffix : Text) (injection : Injection)
  /-- a call of `addFile`, which is carried out without a command that could fail -/
  | addFile (name : Text)
  /-- `[ -f name ]` -/
  | isFile (name : Text)
  /-- `cp "$scriptdir"/bin/program name` -/
  | install (program name : Text)
  | copy (source target : Text)
  | chmod (mode name : Text)
  | sed (edit : Edit) (name : Text)
  /-- `echo -e text >> name` -/
  | append (text name : Text)
  /-- `echo text > name` -/
  | overwrite (text name : Text)
  /-- `chmod 0755 $scriptdir/bin/program` -/
  | chmodTool (program : Text)
  /-- `f="$(readlink -f "$1")"` -/
  | locateImage
  /-- `mktemp -d` for `$bootimg_extract`, and `cd` there -/
  | enterExtracted
  /-- `mktemp -d` for `$d2`, and `cd` there -/
  | enterRamdisk
  /-- `"$scriptdir/bin/bootimg-extract" "$f"` -/
  | extract
  /-- `[ -f ... ]` in `$bootimg_extract` -/
  | isExtracted (name : FileName)
  /-- `gunzip -c` or `lzcat`, piped into `cpio -i` -/
  | unpack (compression : Compression)
  /-- `gunzip -c` or `lzcat` into `ramdisk1` -/
  | decompress (compression : Compression)
  /-- `file init |grep -q Intel` -/
  | isIntel
  /-- `find . -type f -exec touch -t 197001011200 {} \;` -/
  | touchAll
  /-- `echo $INITRAMFS_FILES |tr ' ' '\n' | cpio -o -H newc > ramdisk2` -/
  | archive
  /-- `rm -f cpio-*` -/
  | removeStripped
  /-- `"$scriptdir/bin/strip-cpio" ramdisk1 $INITRAMFS_FILES` -/
  | strip
  /-- `cat cpio-* ramdisk2 > ramdisk.tmp` -/
  | concatenate
  /-- `touch -t 197001011200 ramdisk.tmp` -/
  | touchArchive
  /-- `gzip -9 -c -n` or `lzma -7 -c` of `ramdisk.tmp`, into `ramdisk.gz` of
  `$bootimg_extract` -/
  | compress (compression : Compression)
  /-- `cd "$bootimg_extract"` and `rm -Rf "$d2"` -/
  | leaveRamdisk
  /-- `"$scriptdir/bin/bootimg-repack" "$f"` -/
  | repack
  /-- `cp new-boot.img "$homedir"` -/
  | copyHome
  /-- `cd "$homedir"` and `rm -Rf "$bootimg_extract"` -/
  | leaveExtracted
  /-- `[ -f $scriptdir/gitversion ]` -/
  | hasRevision
  /-- a command that finds out the revision -/
  | readRevision (command : Text)
  /-- `java -jar ... new-boot.img.signed` -/
  | sign
  /-- a command for Chrome OS, none of which writes new-boot.img -/
  | futility (command : Text)
  /-- `[ -f /data/custom_boot_image_patch.sh ]` -/
  | hasCustomPatch
  /-- `sh -x /data/custom_boot_image_patch.sh new-boot.img` -/
  | customPatch
  /-- `getprop ro.product.manufacturer | grep -iq '^samsung$'` -/
  | isSamsung
  /-- `echo "SEANDROIDENFORCE" >> "new-boot.img"` -/
  | appendTrailer
  /-- `rm -Rf /tmp/superuser`, where new-boot.img is -/
  | removeInstaller
  /-- a command of update-binary.sh that prepares the installation -/
  | prepare (command : Text)
  /-- `ui_print text` -/
  | uiPrint (text : Text)
  /-- `dd if=new-boot.img of=$bootimg bs=8192`, with the words of `$bootimg` -/
  | flash (devices : List Text)
  deriving DecidableEq

/-- SEPOLICY and ANDROID. -/
structure Version where
  sepolicy : Text
  android : Nat
  deriving DecidableEq

section

variable (version : Version)

def atLeast (level : Nat) : Command Action :=
  .status (decide (level ≤ version.android))

def inject (injection : Injection) : Command Action :=
  .simple (.inject version.sepolicy injection)

/-! ### Functions of bootimg.sh -/

/-- Lists of words stand for the arguments in which the words are separated by blanks. -/
def allow (sources targets : List PolicyType) (objectClass : ObjectClass)
    (permissions : List Permission) : Command Action :=
  .call (steps [
    .simple (.addFile "sepolicy"),
    .andAlso (.status (sources.isEmpty || targets.isEmpty || permissions.isEmpty))
      (.status false),
    forEach sources fun source =>
      forEach targets fun target =>
        inject version (.grant source target objectClass permissions)])

def noaudit (sources targets : List PolicyType) (objectClass : ObjectClass)
    (permissions : List Permission) : Command Action :=
  .call (steps [
    .simple (.addFile "sepolicy"),
    forEach sources fun source =>
      forEach targets fun target =>
        forEach permissions fun permission =>
          inject version (.grant source target objectClass [permission])])

def rFilePerms : List Permission := [.getattr, .openFile, .read, .ioctl, .lock]
def xFilePerms : List Permission := [.getattr, .execute, .executeNoTrans]
def rxFilePerms : List Permission := rFilePerms ++ xFilePerms
def wFilePerms : List Permission := [.openFile, .append, .write]
def rwFilePerms : List Permission := rFilePerms ++ wFilePerms

/-- `w_dir_perms` is set only after it has been expanded here. -/
def rwxFilePerms : List Permission := rxFilePerms

def rwSocketPerms : List Permission :=
  [.ioctl, .read, .getattr, .write, .setattr, .lock, .append, .bind, .connect, .getopt, .setopt,
    .shutdown]

def createSocketPerms : List Permission := [.create] ++ rwSocketPerms
def rwStreamSocketPerms : List Permission := rwSocketPerms ++ [.listen, .accept]
def createStreamSocketPerms : List Permission := [.create] ++ rwStreamSocketPerms
def rDirPerms : List Permission := [.openFile, .getattr, .read, .search, .ioctl]
def wDirPerms : List Permission := [.openFile, .search, .write, .addName, .removeName]
def rwDirPerms : List Permission := rDirPerms ++ wDirPerms

def allowFSR (sources targets : List PolicyType) : Command Action :=
  .call (steps [
    allow version sources targets .dir rDirPerms,
    allow version sources targets .file rFilePerms,
    allow version sources targets .lnkFile [.read, .getattr]])

def allowFSRW (sources targets : List PolicyType) : Command Action :=
  .call (steps [
    allow version sources targets .dir (rwDirPerms ++ [.create]),
    allow version sources targets .file (rwFilePerms ++ [.create, .setattr, .unlink, .rename]),
    allow version sources targets .lnkFile [.read, .getattr]])

def allowFSRWX (sources targets : List PolicyType) : Command Action :=
  .call (steps [
    allowFSRW version sources targets,
    allow version sources targets .file xFilePerms])

end

end SuperBootimg.Concrete.Scripts
