/-
bootimg.sh and update-binary.sh. A variable that depends on what a command finds is a
parameter of the commands that follow, so a test of it comes where it is set.
-/

import SuperBootimg.Concrete.BootPartition
import SuperBootimg.Concrete.ChangesScript

namespace SuperBootimg.Concrete.Scripts

open ExitOnError
open ExitOnError.Command (steps forEach onlyIf)
open Sepolicy (Text)

/-! ### bootimg.sh -/

def chmodTools : Command Action :=
  forEach ["sepolicy-inject", "sepolicy-inject-v2", "bootimg-repack", "bootimg-extract",
    "strip-cpio"] fun program =>
      .orElse (.simple (.chmodTool program)) (.status true)

def unpackRamdisk (compression : Compression) : Command Action :=
  steps [.simple (.unpack compression), .simple (.decompress compression)]

/-- What follows gets CHROMEOS and DST_ARCH. -/
def startBootImgEdit (following : Bool → Text → Command Action) : Command Action :=
  steps [
    .simple .locateImage,
    .simple .enterExtracted,
    .simple .extract,
    .conditional (.simple (.isExtracted .chromeos)) (ramdisk (following true))
      (ramdisk (following false))]
where
  ramdisk (following : Text → Command Action) : Command Action :=
    steps [
      .simple .enterRamdisk,
      .conditional (.simple (.isExtracted .ramdiskGz)) (unpackRamdisk .gz)
        (.conditional (.simple (.isExtracted .ramdiskLzma)) (unpackRamdisk .lzma)
          (steps [.simple .leaveExtracted, .exit])),
      .conditional (.simple .isIntel) (following "x86") (following "arm")]

def doneBootImgEdit : Command Action :=
  .call (steps [
    .simple .touchAll,
    .simple .archive,
    .simple .removeStripped,
    .simple .strip,
    .simple .concatenate,
    .simple .touchArchive,
    .conditional (.simple (.isExtracted .ramdiskGz)) (.simple (.compress .gz))
      (.conditional (.simple (.isExtracted .ramdiskLzma)) (.simple (.compress .lzma)) .exit),
    .simple .leaveRamdisk,
    .simple .repack,
    .simple .copyHome,
    .simple .leaveExtracted])

/-- What follows gets SEPOLICY and ANDROID. -/
def detectVersion (following : Version → Command Action) : Command Action :=
  .conditional
    (.andAlso
      (.andAlso (.simple (.isFile "sepolicy"))
        (.negate (.simple (.inject [] (.findClass .filesystem)))))
      (.simple (.inject "-v2" (.findClass .filesystem))))
    (following { sepolicy := "-v2", android := 24 })
    (.conditional (.simple (.inject [] (.findType .gatekeeperService)))
      (following { sepolicy := [], android := 23 })
      (.conditional (.simple (.inject [] (.findClass .serviceManager)))
        (following { sepolicy := [], android := 21 })
        (following { sepolicy := [], android := 19 })))

def writeRevision (revision : Text) : Command Action :=
  steps [
    .conditional (.simple .hasRevision) (.simple (.readRevision "cat $scriptdir/gitversion"))
      (steps [
        .simple (.readRevision "pushd $scriptdir"),
        .simple (.readRevision "git rev-parse --short HEAD"),
        .simple (.readRevision "popd")]),
    .simple (.overwrite revision "super-bootimg"),
    .simple (.addFile "super-bootimg")]

def signChromeos : Command Action :=
  steps [
    .simple (.futility "echo > toto1"),
    .simple (.futility "echo > toto2"),
    .conditional (.simple (.futility "futility-arm version")) (.status true) (.status true),
    .simple (.futility "vbutil_keyblock --pack output.keyblock"),
    .simple (.futility "vbutil_kernel --pack new-boot.img.signed"),
    .simple (.futility "rm -f toto1 toto2 output.keyblock")]

/-- What bootimg.sh finds besides what its commands tell: whether there is a keystore and
NO_SIGN is empty, the text of the revision, UNSUPPORTED_SELINUX and `fstab*`. -/
structure Surroundings where
  keystore : Bool
  revision : Text
  unsupportedSelinux : Bool
  fstabs : List Text

def bootimg (surroundings : Surroundings) (options : List Text) : Command Action :=
  steps [
    chmodTools,
    startBootImgEdit fun chromeos architecture => detectVersion fun version => steps [
      changes
        { version := version
          architecture := architecture
          unsupportedSelinux := surroundings.unsupportedSelinux
          fstabs := surroundings.fstabs }
        options,
      writeRevision surroundings.revision,
      doneBootImgEdit,
      onlyIf (.status (surroundings.keystore && !chromeos)) (.simple .sign),
      onlyIf (.status chromeos) signChromeos,
      onlyIf (.simple .hasCustomPatch) (.simple .customPatch),
      onlyIf (.simple .isSamsung) (.simple .appendTrailer)]]

/-! ### update-binary.sh -/

/-- The installation on what the two greps print of the recovery's fstab, with the words of
config.txt. The first device is the image; bootimg.sh takes the others for options. -/
def updateBinary (surroundings : Surroundings) (modes : List Text) (fstab : Text) :
    Command Action :=
  steps [
    .simple (.prepare "readlink /proc/self/fd"),
    .simple (.uiPrint "Installing seSuperuser..."),
    .simple .removeInstaller,
    .simple (.prepare "mkdir -p /tmp/superuser"),
    .simple (.prepare "unzip -o $3 -d /tmp/superuser/"),
    .simple (.prepare "cat /tmp/superuser/config.txt"),
    .simple (.prepare "cd /tmp/superuser/scripts/su/"),
    match Installer.bootimg fstab with
    | none => .exit
    | some devices => steps [
        .simple (.uiPrint "seSuperuser: Found bootimg"),
        .child (bootimg surroundings
          ((FieldSplitting.fields Sepolicy.isBlank devices).drop 1 ++ modes)),
        .simple (.uiPrint "seSuperuser: Generated new-boot.img"),
        .simple (.flash (FieldSplitting.fields Sepolicy.isBlank devices)),
        .simple (.uiPrint "seSuperuser: Successfully flashed root-ed boot.img")]]

end SuperBootimg.Concrete.Scripts
