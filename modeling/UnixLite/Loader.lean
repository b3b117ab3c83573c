import UnixLite.Overruns
import UnixLite.Slices
import UnixLite.NameLookup
import UnixLite.Arguments

namespace UnixLite

open Store

/-- The words at two places are equal only where their last bytes are. -/
theorem FsImage.word_last {fs fs' : FsImage} {off off' : Nat} (same : fs.word off = fs'.word off') :
    fs.byte (off + 3) = fs'.byte (off' + 3) := by
  have values := congrArg (fun w : Word => w.toNat / 16777216) same
  have bounds (m : FsImage) (a : Nat) : (m.byte a).toNat < 256 := (m.byte a).toNat_lt
  have top (m : FsImage) (a : Nat) : (m.word a).toNat / 16777216 = (m.byte (a + 3)).toNat := by
    have first := bounds m a
    have second := bounds m (a + 1)
    have third := bounds m (a + 2)
    have last := bounds m (a + 3)
    rw [word, BitVec.toNat_ofNat]
    omega
  simp only [top] at values
  exact UInt8.toNat_inj.mp values

theorem FsImage.word_congr {fs fs' : FsImage} {off off' : Nat}
    (bytes : ∀ j, j < 4 → fs.byte (off + j) = fs'.byte (off' + j)) : fs.word off = fs'.word off' := by
  have first := bytes 0 (by omega)
  simp only [Nat.add_zero] at first
  rw [word, word, first, bytes 1 (by omega), bytes 2 (by omega), bytes 3 (by omega)]

/-- The bytes of the file that a command names. -/
def programFile (fs : FsImage) (command : List UInt8) : List UInt8 :=
  match readDentryByName fs (cString (parseCommand (cString command)).1) with
  | none => []
  | some dentry => fs.contents dentry.inodeNum

/-- The little-endian word at bytes 24 to 27 of a file, if it has them. -/
def entryWord (file : List UInt8) : Option Word :=
  if 28 ≤ file.length then some (FsImage.word ⟨fun i => file.getD i 0⟩ 24) else none

/-- The bytes that `sys_execute` copies are those of the file. -/
theorem readData_program {fs : FsImage} {command : List UInt8} {dentry : Dentry}
    (found : findProgram fs (parseCommand (cString command)).1 = some dentry) :
    (readData fs dentry.inodeNum 0 (fs.fileLength dentry.inodeNum)).2 = programFile fs command := by
  obtain ⟨named, known⟩ := findProgram_some found
  have start : (0 : Word).toNat ≤ (fs.fileLength dentry.inodeNum).toNat := Nat.zero_le _
  have slice : (readData fs dentry.inodeNum 0 (fs.fileLength dentry.inodeNum)).2 =
      ((fs.contents dentry.inodeNum).drop 0).take (fs.fileLength dentry.inodeNum).toNat :=
    readData_slice known start
  have whole : (fs.contents dentry.inodeNum).length ≤ (fs.fileLength dentry.inodeNum).toNat :=
    (fs.contents_length dentry.inodeNum).le
  rw [slice, List.drop_zero, List.take_of_length_le whole]
  delta programFile
  rw [named]

namespace Kernel

theorem programByte_add (k : Kernel) (off i : Nat) : k.programByte (off + i) = k.programByte off + i :=
  (Nat.add_assoc ..).symm

/-- What `sys_execute` has found and loaded when it enters a program. -/
structure Loaded (fs : FsImage) (k : Kernel) (command : List UInt8) (k' : Kernel) (eip : Word) : Prop where
  program : ∃ dentry, findProgram fs (parseCommand (cString command)).1 = some dentry
  slot : freePid k.pidArray = some k'.curPid
  fits : (programFile fs command).length ≤ 0x3B8000
  page : (k'.pd 32).addr = programFrame k'.curPid
  image : k'.mem = storeList k.mem (k'.programByte 0x48000) (programFile fs command)
  entry : eip = FsImage.word ⟨k'.mem⟩ (k'.programByte (0x48000 + 24))

theorem sysExecute_loaded {fs : FsImage} {k k' : Kernel} {command : List UInt8} {regs : Regs} {eip : Word}
    (run : k.sysExecute fs command regs = .started k' eip) : Loaded fs k command k' eip := by
  obtain ⟨dentry, pid, image, found, slot, bytes, fits, rfl, entry⟩ := sysExecute_inv run
  rw [readData_program found] at bytes
  subst bytes
  refine ⟨⟨dentry, found⟩, slot, fits, ?_, ?_, entry⟩
  · simp only [startProgram, mapProgram, setTerm, setPcb, Function.update_self]
  · simp only [startProgram, mapProgram, programByte, setTerm, setPcb, Function.update_self]

/-- Whatever else was in memory, the same command enters the program. -/
theorem Loaded.again {fs : FsImage} {k k' : Kernel} {command : List UInt8} {eip : Word}
    (loaded : Loaded fs k command k' eip) (regs : Regs) (mem : Nat → UInt8) :
    ∃ k2 eip2, ({ k with mem := mem } : Kernel).sysExecute fs command regs = .started k2 eip2 := by
  obtain ⟨dentry, found⟩ := loaded.program
  refine sysExecute_starts { k with mem := mem } regs found loaded.slot ?_
  rw [readData_program found]
  exact loaded.fits

section Loaded

variable {fs : FsImage} {k k' : Kernel} {command : List UInt8} {eip : Word}

theorem Loaded.byte (loaded : Loaded fs k command k' eip) {i : Nat}
    (inside : i < (programFile fs command).length) :
    k'.mem (k'.programByte (0x48000 + i)) = (programFile fs command)[i] := by
  rw [loaded.image, programByte_add, storeList_within inside]

theorem Loaded.stale (loaded : Loaded fs k command k' eip) {i : Nat}
    (behind : (programFile fs command).length ≤ i) :
    k'.mem (k'.programByte (0x48000 + i)) = k.mem (k'.programByte (0x48000 + i)) := by
  rw [loaded.image, programByte_add, storeList_after (by omega)]

/-- A file with a whole header is entered at the word in it. -/
theorem Loaded.entryWord (loaded : Loaded fs k command k' eip) (header : 28 ≤ (programFile fs command).length) :
    entryWord (programFile fs command) = some eip := by
  rw [UnixLite.entryWord, if_pos header, loaded.entry]
  refine congrArg some (FsImage.word_congr fun j inWord => ?_)
  have stored := loaded.byte (show 24 + j < (programFile fs command).length by omega)
  rw [← Nat.add_assoc, programByte_add] at stored
  simp only [stored, List.getD_eq_getElem?_getD]
  rw [List.getElem?_eq_getElem (by omega), Option.getD_some]

end Loaded

/-- The program page of the process holds the file, all of it inside the page. -/
structure HoldsFile (k : Kernel) (file : List UInt8) : Prop where
  page : (k.pd 32).addr = programFrame k.curPid
  bytes : ∀ i (inside : i < file.length), k.mem (k.programByte (0x48000 + i)) = file[i]
  inside : 0x48000 + file.length ≤ 0x400000

/-- Whatever was loaded before, the command starts its program at `eip`. -/
def StartsAlike (fs : FsImage) (k : Kernel) (command : List UInt8) (regs : Regs) (eip : Word) : Prop :=
  ∀ mem, ∃ k', ({ k with mem := mem } : Kernel).sysExecute fs command regs = .started k' eip

/-- A program without a whole header starts where earlier programs say. -/
theorem startsAlike_iff {fs : FsImage} {k k' : Kernel} {command : List UInt8} {regs : Regs} {eip : Word}
    (run : k.sysExecute fs command regs = .started k' eip) :
    StartsAlike fs k command regs eip ↔ 28 ≤ (programFile fs command).length := by
  have loaded := sysExecute_loaded run
  constructor
  · intro alike
    by_contra short
    obtain ⟨k2, other⟩ := alike fun a => k.mem a + 1
    have reloaded := sysExecute_loaded other
    have pid : k2.curPid = k'.curPid := Option.some.inj (reloaded.slot.symm.trans loaded.slot)
    have place (i : Nat) : k2.programByte i = k'.programByte i := by
      rw [programByte, programByte, reloaded.page, loaded.page, pid]
    have last := FsImage.word_last (loaded.entry.symm.trans reloaded.entry)
    simp only [← programByte_add, Nat.add_assoc] at last
    rw [loaded.stale (by omega), reloaded.stale (by omega), place] at last
    simp at last
  · intro header mem
    obtain ⟨k2, eip2, other⟩ := loaded.again regs mem
    have word := (sysExecute_loaded other).entryWord header
    rw [loaded.entryWord header] at word
    cases word
    exact ⟨k2, other⟩

end Kernel

/-- The loader puts the file where it belongs, and enters it where its header
says, whatever was loaded before, exactly when the file has a whole header. -/
theorem loader_exact {fs : FsImage} {k k' : Kernel} {command : List UInt8} {regs : Regs} {eip : Word}
    (run : k.sysExecute fs command regs = .started k' eip) :
    (k'.HoldsFile (programFile fs command) ∧ entryWord (programFile fs command) = some eip ∧
        k.StartsAlike fs command regs eip) ↔ 28 ≤ (programFile fs command).length := by
  have loaded := Kernel.sysExecute_loaded run
  rw [Kernel.startsAlike_iff run]
  constructor
  · exact fun all => all.2.2
  · intro header
    have fits := loaded.fits
    exact ⟨⟨loaded.page, fun i inside => loaded.byte inside, by omega⟩, loaded.entryWord header, header⟩

theorem sampleImage_programFile : (programFile sampleImage shell).length = 28 := by
  rw [← readData_program (by rw [parse_shell]; exact sampleImage_program)]
  exact sampleImage_length

/-- The shell of the sample, with no more than a header. -/
theorem loader_exact_sample : ∃ k eip, sampleEntry.sysExecute sampleImage shell ⟨0, 0⟩ = .started k eip ∧
    entryWord (programFile sampleImage shell) = some eip ∧ k.HoldsFile (programFile sampleImage shell) := by
  obtain ⟨k, eip, run⟩ := sampleImage_fits.starts sampleEntry ⟨0, 0⟩ (show freePid _ = some 0 from rfl)
  obtain ⟨holds, entry, _⟩ := (loader_exact run).mpr (sampleImage_programFile.ge)
  exact ⟨k, eip, run, entry, holds⟩

/-- The sample with a shell of four bytes, its magic number. -/
def stubImage : FsImage where
  byte a := if a = 4096 then 4 else sampleImage.byte a

theorem stubImage_shell : readDentryByName stubImage (cString shell) = some (stubImage.dentryAt 1) := by
  have names : [0, 1].map stubImage.entryName = [[46], shell] := by decide
  simp only [List.map_cons, List.map_nil, List.cons.injEq, and_true] at names
  have entries : stubImage.numDirEntries.toNat = 3 := by decide
  have first : FirstNamed stubImage shell 1 := by
    refine ⟨by omega, names.2, fun j below => ?_⟩
    obtain rfl : j = 0 := by omega
    rw [names.1]
    decide
  rw [readDentryByName_good (by decide) (by decide)]
  exact searchEntries_first (by decide) (by decide) first (by omega) (by omega)

theorem stubImage_program : findProgram stubImage shell = some (stubImage.dentryAt 1) := by
  simp only [findProgram, stubImage_shell]
  decide

theorem stubImage_programFile : (programFile stubImage shell).length = 4 := by
  rw [← readData_program (by rw [parse_shell]; exact stubImage_program)]
  decide

/-- The stub is executed, and what it is entered at is no part of it. -/
theorem loader_stale_entry : ¬ ∀ (fs : FsImage) (k k' : Kernel) (command : List UInt8) (regs : Regs) (eip : Word),
    k.sysExecute fs command regs = .started k' eip →
      k'.HoldsFile (programFile fs command) ∧ entryWord (programFile fs command) = some eip ∧
        k.StartsAlike fs command regs eip := by
  intro always
  have fits : ShellFits stubImage := by
    refine ⟨_, stubImage_program, ?_⟩
    rw [readData_program (by rw [parse_shell]; exact stubImage_program), stubImage_programFile]
    decide
  obtain ⟨k, eip, run⟩ := fits.starts sampleEntry ⟨0, 0⟩ (show freePid _ = some 0 from rfl)
  have header := (Kernel.startsAlike_iff run).mp (always _ _ _ _ _ _ run).2.2
  rw [stubImage_programFile] at header
  omega

end UnixLite
