import UnixLite.Steps

namespace UnixLite

/-- The image has an executable file named `shell`. -/
def ShellPresent (fs : FsImage) : Prop := ∃ dentry, findProgram fs shell = some dentry

theorem parse_shell : parseCommand (cString shell) = (shell, []) := by
  have len : strlen (cString shell) = 5 := strlen_cString (by decide) (by decide)
  unfold parseCommand
  rw [len]
  decide

theorem ShellPresent.found {fs : FsImage} (present : ShellPresent fs) :
    ∃ dentry, findProgram fs (parseCommand (cString shell)).1 = some dentry := by
  rw [parse_shell]
  exact present

/-- With a slot free, a call for the shell that does not fault starts it. -/
theorem ShellPresent.started {fs : FsImage} (present : ShellPresent fs) {k k' : Kernel} {regs : Regs}
    {r : Reply} {pid : Int} (slot : freePid k.pidArray = some pid)
    (run : (k.sysExecute fs shell regs).outcome = some (k', r)) :
    k.Started fs shell regs pid k' ∧ ∃ eip, r = .entered eip := by
  obtain ⟨dentry, found⟩ := present.found
  cases call : k.sysExecute fs shell regs with
  | returned k1 v => exact absurd call (Kernel.sysExecute_not_returned found slot)
  | faulted k1 =>
    rw [call] at run
    cases run
  | started k1 eip =>
    rw [call] at run
    cases run
    obtain ⟨pid', started⟩ := Kernel.sysExecute_started call
    cases Option.some.inj (started.slot.symm.trans slot)
    exact ⟨started, eip, rfl⟩

/-- A shell that was started is there. -/
theorem Kernel.Started.present {fs : FsImage} {k k' : Kernel} {regs : Regs} {pid : Int}
    (run : k.Started fs shell regs pid k') : ShellPresent fs := by
  obtain ⟨dentry, found, _⟩ := run.program
  rw [parse_shell] at found
  exact ⟨dentry, found⟩

namespace Kernel

/-- With the program found, a slot free and an image that fits the program
page the program is entered. -/
theorem sysExecute_starts {fs : FsImage} (k : Kernel) {command : List UInt8} (regs : Regs) {pid : Int}
    {dentry : Dentry} (found : findProgram fs (parseCommand (cString command)).1 = some dentry)
    (slot : freePid k.pidArray = some pid)
    (fits : (readData fs dentry.inodeNum 0 (fs.fileLength dentry.inodeNum)).2.length ≤ 0x3B8000) :
    ∃ k' eip, k.sysExecute fs command regs = .started k' eip := by
  have small : ¬ (readData fs dentry.inodeNum 0 (fs.fileLength dentry.inodeNum)).2.length > 0x3B8000 := by
    omega
  unfold sysExecute executeParsed
  simp only [found, claimPid_some slot, small, if_false]
  exact ⟨_, _, rfl⟩

end Kernel

/-- The bytes of an entry of the boot block: name, type and inode number. -/
def entryBytes (name : List UInt8) (fileType inode : UInt8) (i : Nat) : UInt8 :=
  if i < 32 then cString name i else if i = 32 then fileType else if i = 36 then inode else 0

/-- An image with a directory, a shell and an rtc; the shell is the four
bytes that make a file executable, and 24 more. -/
def sampleImage : FsImage where
  byte a :=
    if a < 64 then cString [3, 0, 0, 0, 1, 0, 0, 0, 1] a
    else if a < 128 then entryBytes [46] 1 0 (a - 64)
    else if a < 192 then entryBytes shell 2 0 (a - 128)
    else if a < 256 then entryBytes [114, 116, 99] 0 0 (a - 192)
    else if a < 8192 then cString [28] (a - 4096)
    else cString [0x7F, 0x45, 0x4C, 0x46] (a - 8192)

/-- The stored name of an entry of the sample, by its length. -/
theorem sampleImage_strlen {i n : Nat} (small : n ≤ 32)
    (chars : ∀ j, j < n → sampleImage.byte (FsImage.dirEntry i + j) ≠ 0)
    (ends : sampleImage.byte (FsImage.dirEntry i + n) = 0) :
    strlen (fun j => sampleImage.byte (FsImage.dirEntry i + j)) = n :=
  strlen_eq (by omega) chars ends

theorem sampleImage_shell : readDentryByName sampleImage (cString shell) = some (sampleImage.dentryAt 1) := by
  have len : strlen (cString shell) = 5 := strlen_cString (by decide) (by decide)
  have dot : strlen (fun j => sampleImage.byte (FsImage.dirEntry 0 + j)) = 1 :=
    sampleImage_strlen (by decide) (by decide) (by decide)
  have name : strlen (fun j => sampleImage.byte (FsImage.dirEntry 1 + j)) = 5 :=
    sampleImage_strlen (by decide) (by decide) (by decide)
  have entries : sampleImage.numDirEntries.toNat = 3 := by decide
  have first : nameMatches sampleImage (cString shell) 0 = false := by
    simp only [nameMatches, len, dot]
    decide
  have second : nameMatches sampleImage (cString shell) 1 = true := by
    simp only [nameMatches, len, name]
    decide
  simp only [readDentryByName, len, entries, searchEntries, first, second]
  decide

theorem sampleImage_program : findProgram sampleImage shell = some (sampleImage.dentryAt 1) := by
  simp only [findProgram, sampleImage_shell]
  decide

theorem sampleImage_length :
    (readData sampleImage (sampleImage.dentryAt 1).inodeNum 0
      (sampleImage.fileLength (sampleImage.dentryAt 1).inodeNum)).2.length = 28 := by
  decide

end UnixLite
