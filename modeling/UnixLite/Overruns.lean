import UnixLite.Boot

namespace UnixLite

open Transition Store

/-- `exception_messages` -/
def exceptionMessages : List String :=
  ["Division Error", "Debug Exception", "Non-Maskable Interrupt", "Breakpoint Exception",
   "Overflow", "Bounds Range Exceeded", "Invalid Opcode", "Device Not Available",
   "Double Fault", "Coprocessor Segment Overrun", "Invalid TSS", "Segment Not Present",
   "Stack Fault", "General Protection Fault", "Page Fault", "Reserved",
   "x87 Floating-Point Exception", "Alignment Check", "Machine Check",
   "SIMD Floating-Point Exception"]

/-- `itoa(value, buf, 16)` -/
def itoaHex (value : Word) : List Char := (Nat.toDigits 16 value.toNat).map Char.toUpper

/-- What the `printf` of `handle_exception` puts out. -/
def exceptionText (id : Fin 20) (errCode : Word) : List Char :=
  "EXCEPTION DETECTED      Exception: ".toList ++ (exceptionMessages.get id).toList ++
    if errCode = -1 then "\n\n".toList
    else " - Error Code: 0x".toList ++ itoaHex errCode ++ "\n".toList

/-- A program that is found has an entry and an inode. -/
theorem findProgram_some {fs : FsImage} {fCmd : List UInt8} {dentry : Dentry}
    (found : findProgram fs fCmd = some dentry) :
    readDentryByName fs (cString fCmd) = some dentry ∧ dentry.inodeNum < fs.numInodes := by
  unfold findProgram at found
  split at found
  · cases found
  rename_i entry named
  extract_lets elf at found
  split at found
  · cases found
  rename_i whole
  split at found
  · cases found
    refine ⟨named, ?_⟩
    by_contra unknown
    have refused : elf = (-1, []) := readData_refused 4 (Or.inl (BitVec.not_lt.mp unknown))
    rw [refused] at whole
    exact whole (by decide)
  · cases found

/-- The bytes that `sys_execute` copies are as many as the inode says. -/
theorem readData_image {fs : FsImage} {fCmd : List UInt8} {dentry : Dentry} (found : findProgram fs fCmd = some dentry) :
    (readData fs dentry.inodeNum 0 (fs.fileLength dentry.inodeNum)).2.length = (fs.fileLength dentry.inodeNum).toNat := by
  have start : (0 : Word).toNat ≤ (fs.fileLength dentry.inodeNum).toNat := Nat.zero_le _
  rw [readData_slice (findProgram_some found).2 start]
  simp [FsImage.contents]

namespace Kernel

/-- `handle_exception`: the shown screen is cleared, the message goes to the
active terminal, and the running process is halted with `EXCEPTION_HALT`. -/
def handleException (fs : FsImage) (k : Kernel) (id : Fin 20) (errCode : Word) (regs : Regs) :
    HaltResult :=
  ((exceptionText id errCode).foldl (fun k c => k.putc c.toUInt8) k.clearScreen).haltHelper fs 256 regs

theorem putAll_ttyOnly (chars : List Char) (k : Kernel) :
    TtyOnly k (chars.foldl (fun k c => k.putc c.toUInt8) k) := by
  induction chars generalizing k with
  | nil => exact TtyOnly.refl k
  | cons c rest ih => exact (k.putc_ttyOnly c.toUInt8).trans (ih _)

/-- An exception is a halt after some output. -/
theorem handleException_halts (fs : FsImage) (k : Kernel) (id : Fin 20) (errCode : Word) :
    ∃ k1, TtyOnly k k1 ∧ ∀ regs, k.handleException fs id errCode regs = k1.haltHelper fs 256 regs :=
  ⟨_, (k.setConsole_ttyOnly _ _).trans (putAll_ttyOnly (exceptionText id errCode) _), fun _ => rfl⟩

/-- The command names a program that is longer than the room for it in the
program page, and a slot is free: the copy of `sys_execute` leaves the page. -/
def Overruns (fs : FsImage) (k : Kernel) (command : List UInt8) : Prop :=
  (freePid k.pidArray).isSome = true ∧ ∃ dentry, findProgram fs (parseCommand (cString command)).1 = some dentry ∧
    0x3B8000 < (fs.fileLength dentry.inodeNum).toNat

/-- The state in which the copy faults behind the page: `pid` is claimed and
mapped, but its PCB is still that of the process that had the slot before. -/
def overrun (k : Kernel) (pid : Int) (image : List UInt8) : Kernel :=
  let claimed : Kernel := { k with
    curPid := pid
    pidArray := Function.update k.pidArray pid 1
    prevPid := if pid ≤ 2 then -1 else k.curPid }
  let mapped := claimed.mapProgram pid
  { mapped with
    ptUser := Function.update k.ptUser 0xB8 { k.ptUser 0xB8 with p := true }
    mem := storeList k.mem ((programFrame pid).toNat * 4096 + 0x48000) (image.take 0x3B8000) }

/-- Where the image overruns the page the call faults. -/
theorem sysExecute_faults {fs : FsImage} (k : Kernel) {command : List UInt8} (regs : Regs) {pid : Int}
    {dentry : Dentry} (found : findProgram fs (parseCommand (cString command)).1 = some dentry)
    (slot : freePid k.pidArray = some pid)
    (long : 0x3B8000 < (fs.fileLength dentry.inodeNum).toNat) : k.sysExecute fs command regs =
      .faulted (k.overrun pid (readData fs dentry.inodeNum 0 (fs.fileLength dentry.inodeNum)).2) := by
  rw [← readData_image found] at long
  unfold sysExecute executeParsed
  simp only [found, claimPid_some slot, if_pos (gt_iff_lt.mpr long)]
  simp only [overrun, mapProgram, programByte, Function.update_self]

theorem sysExecute_faulted {fs : FsImage} {k k' : Kernel} {command : List UInt8} {regs : Regs}
    (run : k.sysExecute fs command regs = .faulted k') : k.Overruns fs command := by
  unfold sysExecute executeParsed at run
  dsimp only at run
  split at run
  · cases run
  rename_i dentry found
  cases slot : freePid k.pidArray with
  | none => simp [claimPid_none slot] at run
  | some pid =>
    simp only [claimPid_some slot] at run
    split at run
    · rename_i long
      rw [gt_iff_lt, readData_image found] at long
      exact ⟨by rw [slot]; rfl, dentry, found, long⟩
    · cases run

/-- A call of `sys_execute` faults exactly where its image overruns the page. -/
theorem overruns_iff {fs : FsImage} {k : Kernel} {command : List UInt8} (regs : Regs) :
    k.Overruns fs command ↔ ∃ k', k.sysExecute fs command regs = .faulted k' := by
  constructor
  · rintro ⟨free, dentry, found, long⟩
    obtain ⟨pid, slot⟩ := Option.isSome_iff_exists.mp free
    exact ⟨_, k.sysExecute_faults regs found slot long⟩
  · rintro ⟨k', run⟩
    exact sysExecute_faulted run

/-- Whether a call faults depends on the slots and the image only. -/
theorem Overruns.slots {fs : FsImage} {k k' : Kernel} {command : List UInt8} (same : k'.pidArray = k.pidArray) :
    k'.Overruns fs command ↔ k.Overruns fs command := by
  rw [Overruns, Overruns, same]

end Kernel

/-- The state in which a call of `sys_execute` faults, if it does. -/
def ExecResult.fault : ExecResult → Option Kernel
  | faulted k => some k
  | returned _ _ | started _ _ => none

def HaltResult.fault : HaltResult → Option Kernel
  | resumed _ _ _ => none
  | restarted r => r.fault

def TickResult.fault : TickResult → Option Kernel
  | switched _ _ _ => none
  | launched r => r.fault

/-- The state in which the `sys_execute` of an act faults, if it does. -/
def faultOf (fs : FsImage) (k : Kernel) : Act → Option Kernel
  | .execute command regs => (k.sysExecute fs command regs).fault
  | .halt status regs => (k.haltHelper fs status regs).fault
  | .tick regs execRegs => (k.pitHandler fs regs execRegs).fault
  | _ => none

/-- The page fault handler, entered in a state, has come to its end: it halts
the process whose slot the call had claimed by the PCB that it finds there.
Where that is a base shell's a shell is executed, which may fault again. -/
inductive Handled (fs : FsImage) : Kernel → Kernel → Reply → Prop
  | halted {k regs k' r} : (k.handleException fs 14 0 regs).outcome = some (k', r) → Handled fs k k' r
  | again {k regs k1 k' r} : (k.handleException fs 14 0 regs).fault = some k1 → Handled fs k1 k' r → Handled fs k k' r

/-- The steps of the system, those among them that fault on the way: an act
goes through, or the page fault in it is handled. -/
inductive Turns (fs : FsImage) (k : Kernel) : Act × Reply → Kernel → Prop
  | step {l k'} : Step fs k l k' → Turns fs k l k'
  | fault {act k1 k' r} : faultOf fs k act = some k1 → Handled fs k1 k' r → Turns fs k (act, r) k'

/-- An image that is too long for its page is executed in the act. -/
def Overlong (fs : FsImage) (k : Kernel) : Act → Prop
  | .execute command _ => k.Overruns fs command
  | .halt _ _ => k.curPcb.parentPid = -1 ∧ k.freeBase.Overruns fs shell
  | .tick _ _ => k.terminalInit < 3 ∧ k.Overruns fs shell
  | _ => False

section Turns

variable {fs : FsImage} {k k' : Kernel}

theorem ExecResult.fault_eq_some {r : ExecResult} : r.fault = some k ↔ r = .faulted k := by
  cases r <;> simp [fault]

theorem Kernel.haltHelper_fault (status : Word) (regs : Regs) :
    (∃ k', (k.haltHelper fs status regs).fault = some k') ↔
      k.curPcb.parentPid = -1 ∧ k.freeBase.Overruns fs shell := by
  unfold haltHelper
  split
  · rename_i orphan
    simp only [HaltResult.fault, ExecResult.fault_eq_some, haltBase, ← overruns_iff, orphan, true_and]
  · rename_i child
    simp [HaltResult.fault, child]

theorem Kernel.pitHandler_fault (regs execRegs : Regs) :
    (∃ k', (k.pitHandler fs regs execRegs).fault = some k') ↔ k.terminalInit < 3 ∧ k.Overruns fs shell := by
  by_cases inSetup : k.terminalInit < 3
  · have slots : ((k.saveContext regs).launchTerminal ⟨k.terminalInit, inSetup⟩).pidArray = k.pidArray :=
      ((k.saveContext regs).launchTerminal_parts ⟨k.terminalInit, inSetup⟩).2.2.1
    have call : k.pitHandler fs regs execRegs = .launched
        (((k.saveContext regs).launchTerminal ⟨k.terminalInit, inSetup⟩).sysExecute fs shell execRegs) :=
      dif_pos inSetup
    rw [call, ← Overruns.slots slots, overruns_iff execRegs]
    simp only [TickResult.fault, ExecResult.fault_eq_some, inSetup, true_and]
  · obtain ⟨_, _, _, run⟩ := k.pitHandler_switched fs regs execRegs (by omega)
    simp [run, TickResult.fault, inSetup]

/-- An act faults exactly where it executes an image that is too long. -/
theorem faultOf_iff {act : Act} : (∃ k1, faultOf fs k act = some k1) ↔ Overlong fs k act := by
  cases act with
  | execute command regs =>
    simp only [faultOf, ExecResult.fault_eq_some, ← Kernel.overruns_iff, Overlong]
  | halt status regs => exact k.haltHelper_fault status regs
  | tick regs execRegs => exact k.pitHandler_fault regs execRegs
  | _ => simp [faultOf, Overlong]

theorem ExecResult.outcome_fault {r : ExecResult} {after : Kernel × Reply} (ends : r.outcome = some after) :
    r.fault = none := by
  cases r with
  | faulted => cases ends
  | returned | started => rfl

theorem HaltResult.outcome_fault {r : HaltResult} {after : Kernel × Reply} (ends : r.outcome = some after) :
    r.fault = none := by
  cases r with
  | resumed => rfl
  | restarted r => exact ExecResult.outcome_fault ends

theorem TickResult.outcome_fault {r : TickResult} {after : Kernel × Reply} (ends : r.outcome = some after) :
    r.fault = none := by
  cases r with
  | switched => rfl
  | launched r => exact ExecResult.outcome_fault ends

/-- No image is too long in an act that goes through. -/
theorem Step.fits {l : Act × Reply} (step : Step fs k l k') : ¬ Overlong fs k l.1 := by
  obtain ⟨act, r⟩ := l
  have through : faultOf fs k act = none := by
    cases act with
    | execute command regs => exact ExecResult.outcome_fault step
    | halt status regs => exact HaltResult.outcome_fault step
    | tick regs execRegs => exact TickResult.outcome_fault step
    | _ => rfl
  intro long
  obtain ⟨k1, faults⟩ := faultOf_iff.mpr long
  rw [through] at faults
  cases faults

/-- Without an image that is too long a turn is a step. -/
theorem Turns.fits {l : Act × Reply} (turn : Turns fs k l k') (fits : ¬ Overlong fs k l.1) : Step fs k l k' := by
  cases turn with
  | step step => exact step
  | fault faults => exact absurd (faultOf_iff.mp ⟨_, faults⟩) fits

/-- A run in which no image is too long is one without faults. -/
theorem runs_fit {first : Kernel} {history : List Happening} (run : Run (Turns fs) first history k)
    (fits : ∀ e ∈ history, ¬ Overlong fs e.pre e.act.1) : Runs fs first history k :=
  run.change fun e member turn => turn.fits (fits e member)

/-- A page fault in a call of `sys_execute`, where the slot that it claims was
last that of a process with a parent: the handler makes that parent the
running process. -/
theorem Kernel.Overruns.turn {command : List UInt8} (long : k.Overruns fs command) {pid : Int}
    (slot : freePid k.pidArray = some pid) (child : (k.pcb pid).parentPid ≠ -1) (regs : Regs) :
    ∃ image k1, TtyOnly (k.overrun pid image) k1 ∧
      Turns fs k (.execute command regs, .resumed (k.pcb pid).ebp 256) k1.haltBody := by
  obtain ⟨_, dentry, found, more⟩ := long
  have faults := k.sysExecute_faults regs found slot more
  generalize (readData fs dentry.inodeNum 0 (fs.fileLength dentry.inodeNum)).2 = image at faults
  obtain ⟨k1, output, halts⟩ := (k.overrun pid image).handleException_halts fs 14 0
  have running : k1.curPid = pid := output.curPid
  have own : k1.pcb pid = k.pcb pid := congrFun output.pcb pid
  have linked : k1.curPcb.parentPid ≠ -1 := by
    rw [curPcb, running, own]
    exact child
  have ebp : (k1.haltBody.pcb k1.curPid).ebp = (k.pcb pid).ebp := by
    rw [k1.haltBody_halted.ebp, running, own]
  have resumed : ((k.overrun pid image).handleException fs 14 0 regs).outcome =
      some (k1.haltBody, .resumed (k.pcb pid).ebp 256) := by
    rw [halts, haltHelper, if_neg linked, HaltResult.outcome, ebp]
  exact ⟨image, k1, output, .fault (by rw [faultOf, faults]; rfl) (.halted resumed)⟩

end Turns

/-- Where all files are short no image is too long. -/
theorem no_overlong {fs : FsImage} (short : ∀ inode, inode < fs.numInodes → (fs.fileLength inode).toNat ≤ 0x3B8000)
    (k : Kernel) (act : Act) : ¬ Overlong fs k act := by
  have never (k : Kernel) (command : List UInt8) : ¬ k.Overruns fs command := by
    rintro ⟨_, dentry, found, long⟩
    have fits := short dentry.inodeNum (findProgram_some found).2
    omega
  cases act with
  | execute command regs => exact never k command
  | halt status regs => exact fun long => never _ _ long.2
  | tick regs execRegs => exact fun long => never _ _ long.2
  | _ => exact not_false

theorem sampleImage_lengths (inode : Word) (known : inode < sampleImage.numInodes) :
    (sampleImage.fileLength inode).toNat ≤ 0x3B8000 := by
  have inodes : sampleImage.numInodes.toNat = 1 := by decide
  rw [BitVec.lt_def, inodes] at known
  have only : inode = 0 := BitVec.eq_of_toNat_eq (by simp; omega)
  rw [only]
  decide

/-- `big` -/
def big : List UInt8 := [98, 105, 103]

/-- The sample with one more program in 953 blocks of its own, a byte longer
than there is room for. -/
def bigImage : FsImage where
  byte a :=
    if a < 64 then cString [4, 0, 0, 0, 2, 0, 0, 0, 0xBA, 3] a
    else if a < 256 then sampleImage.byte a
    else if a < 4096 then entryBytes big 2 1 (a - 256)
    else if a < 8192 then cString [28] (a - 4096)
    else if a < 8196 then cString [0x01, 0x80, 0x3B] (a - 8192)
    else if a < 8196 + 4 * 953 then
      let block := (a - 8196) / 4 + 1
      if a % 4 = 0 then UInt8.ofNat (block % 256) else if a % 4 = 1 then UInt8.ofNat (block / 256) else 0
    else if a < 16384 then cString [0x7F, 0x45, 0x4C, 0x46] (a - 12288)
    else cString [0x7F, 0x45, 0x4C, 0x46] (a - 16384)

theorem bigImage_shell : (findProgram bigImage shell).map (·.inodeNum) = some 0 ∧
    (findProgram bigImage big).map (·.inodeNum) = some 1 ∧ (parseCommand (cString big)).1 = big ∧
    bigImage.fileLength 0 = 28 ∧ bigImage.fileLength 1 = 0x3B8001 := by
  decide +kernel

theorem bigImage_present : ShellPresent bigImage := by
  obtain ⟨dentry, found, _⟩ := Option.map_eq_some_iff.mp bigImage_shell.1
  exact ⟨dentry, found⟩

/-- With a slot free the big program overruns its page. -/
theorem bigImage_overruns {k : Kernel} {pid : Int} (slot : freePid k.pidArray = some pid) :
    k.Overruns bigImage big := by
  obtain ⟨_, program, parsed, _, length⟩ := bigImage_shell
  obtain ⟨dentry, found, inode⟩ := Option.map_eq_some_iff.mp program
  refine ⟨by rw [slot]; rfl, dentry, by rw [parsed]; exact found, ?_⟩
  rw [inode, length]
  decide

end UnixLite
