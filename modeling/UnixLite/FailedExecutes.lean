import UnixLite.Overruns

namespace UnixLite

open Transition

/-- The state that a call of `sys_execute` which starts no program is to leave
as it was. -/
structure Untouched (k k' : Kernel) : Prop where
  curPid : k'.curPid = k.curPid
  prevPid : k'.prevPid = k.prevPid
  pidArray : k'.pidArray = k.pidArray
  pcb : k'.pcb = k.pcb
  activePid : ∀ t, (k'.terminals t).activePid = (k.terminals t).activePid
  pd : k'.pd = k.pd
  ptUser : k'.ptUser = k.ptUser

theorem Untouched.refl (k : Kernel) : Untouched k k :=
  ⟨rfl, rfl, rfl, rfl, fun _ => rfl, rfl, rfl⟩

/-- The name that `sys_execute` looks up. With 128 characters of arguments
their NUL is written behind `cmd_args`, and `behind` tells what that leaves of
the string in `f_cmd`, wherever the compiler has put the two arrays. -/
def searchedName (behind : List UInt8 → List UInt8) (command : List UInt8) : List UInt8 :=
  let parsed := parseCommand (cString command)
  if parsed.2.length < 128 then parsed.1 else behind parsed.1

/-- `sys_execute` with what the parser may do to its own arrays. -/
def Kernel.callExecute (fs : FsImage) (k : Kernel) (behind : List UInt8 → List UInt8) (command : List UInt8)
    (regs : Regs) : ExecResult :=
  k.executeParsed fs (searchedName behind command) (parseCommand (cString command)).2 regs

/-- Where the parser stays inside its arrays this is the call as it is modelled. -/
theorem Kernel.callExecute_eq {fs : FsImage} {k : Kernel} {behind : List UInt8 → List UInt8} {command : List UInt8}
    {regs : Regs} (inside : (parseCommand (cString command)).2.length < 128) :
    k.callExecute fs behind command regs = k.sysExecute fs command regs := by
  rw [callExecute, searchedName, if_pos inside]
  rfl

/-- The call starts a program, or returns -1 with nothing changed. -/
def ExecResult.FailsCleanly (k : Kernel) : ExecResult → Prop
  | started _ _ => True
  | returned k' v => v = -1 ∧ Untouched k k'
  | faulted _ => False

/-- A name is refused that is not in the directory, or whose file does not
begin with the four bytes of an executable. -/
theorem findProgram_none_iff {fs : FsImage} {fCmd : List UInt8} : findProgram fs fCmd = none ↔
    ∀ d, readDentryByName fs (cString fCmd) = some d →
      readData fs d.inodeNum 0 4 ≠ (4, [0x7F, 0x45, 0x4C, 0x46]) := by
  unfold findProgram
  cases readDentryByName fs (cString fCmd) with
  | none => simp
  | some dentry =>
    simp only [Option.some.injEq, forall_eq']
    generalize readData fs dentry.inodeNum 0 4 = elf
    obtain ⟨count, bytes⟩ := elf
    by_cases whole : count = 4 <;> by_cases magic : bytes = [0x7F, 0x45, 0x4C, 0x46] <;>
      simp [whole, magic]

namespace Kernel

theorem executeParsed_refused {fs : FsImage} (k : Kernel) {fCmd : List UInt8} (cmdArgs : List UInt8) (regs : Regs)
    (refused : findProgram fs fCmd = none) : k.executeParsed fs fCmd cmdArgs regs = .returned k (-1) := by
  unfold executeParsed
  simp only [refused]

/-- With all slots taken the call returns 69, and `prev_pid` has been set. -/
theorem executeParsed_full {fs : FsImage} (k : Kernel) {fCmd : List UInt8} (cmdArgs : List UInt8) (regs : Regs)
    {dentry : Dentry} (found : findProgram fs fCmd = some dentry) (full : freePid k.pidArray = none) :
    k.executeParsed fs fCmd cmdArgs regs = .returned { k with prevPid := if k.curPid ≤ 2 then -1 else k.curPid } 69 := by
  unfold executeParsed
  simp only [found, claimPid_none full]

/-- With a slot free it starts the program that it finds, or faults. -/
theorem executeParsed_claims {fs : FsImage} (k : Kernel) {fCmd : List UInt8} (cmdArgs : List UInt8) (regs : Regs)
    {dentry : Dentry} {pid : Int} (found : findProgram fs fCmd = some dentry) (slot : freePid k.pidArray = some pid) :
    (k.executeParsed fs fCmd cmdArgs regs).FailsCleanly k ↔ (fs.fileLength dentry.inodeNum).toNat ≤ 0x3B8000 := by
  unfold executeParsed
  simp only [found, claimPid_some slot]
  rw [readData_image found]
  split
  · rename_i long
    exact ⟨False.elim, fun short => absurd long (by omega)⟩
  · rename_i short
    exact ⟨fun _ => by omega, fun _ => trivial⟩

end Kernel

/-- A `sys_execute` that starts no program returns -1 without effect, except
when the name is that of an executable file and all six slots are taken or the
file is longer than the room in its page. -/
theorem failed_execute (fs : FsImage) (k : Kernel) (behind : List UInt8 → List UInt8) (command : List UInt8)
    (regs : Regs) : (k.callExecute fs behind command regs).FailsCleanly k ↔
      ¬ ∃ d, readDentryByName fs (cString (searchedName behind command)) = some d ∧
        readData fs d.inodeNum 0 4 = (4, [0x7F, 0x45, 0x4C, 0x46]) ∧
          ((∀ p, 0 ≤ p → p ≤ 5 → k.pidArray p ≠ 0) ∨ 0x3B8000 < (fs.fileLength d.inodeNum).toNat) := by
  unfold Kernel.callExecute
  cases found : findProgram fs (searchedName behind command) with
  | none =>
    have refused := findProgram_none_iff.mp found
    rw [k.executeParsed_refused _ regs found]
    refine iff_of_true ⟨rfl, .refl k⟩ ?_
    rintro ⟨d, named, executable, _⟩
    exact refused d named executable
  | some dentry =>
    have program : ∀ d, (readDentryByName fs (cString (searchedName behind command)) = some d ∧
        readData fs d.inodeNum 0 4 = (4, [0x7F, 0x45, 0x4C, 0x46])) ↔ d = dentry := by
      have named := (findProgram_some found).1
      have executable : readData fs dentry.inodeNum 0 4 = (4, [0x7F, 0x45, 0x4C, 0x46]) := by
        by_contra other
        have refused := findProgram_none_iff.mpr fun d again => by
          rw [named] at again
          cases again
          exact other
        rw [found] at refused
        cases refused
      intro d
      constructor
      · exact fun both => (Option.some.inj (named.symm.trans both.1)).symm
      · rintro rfl
        exact ⟨named, executable⟩
    simp only [← and_assoc, program, exists_eq_left]
    cases slot : freePid k.pidArray with
    | none =>
      rw [k.executeParsed_full _ regs found slot]
      refine iff_of_false (fun clean => absurd clean.1 (by decide)) ?_
      exact not_not_intro (Or.inl fun p => freePid_none slot)
    | some pid =>
      obtain ⟨lower, upper, free, _⟩ := freePid_some slot
      rw [k.executeParsed_claims _ regs found slot, not_or, Nat.not_lt]
      exact ⟨fun short => ⟨fun full => full pid lower upper free, short⟩, fun room => room.2⟩

/-- The slots below `n` are taken and the others free. -/
def SlotsBelow (n : Nat) (k : Kernel) : Prop :=
  ∀ p : Int, 0 ≤ p → p ≤ 5 → k.pidArray p = if p < n then 1 else 0

/-- While a slot is free a shell can be executed. -/
theorem SlotsBelow.next {fs : FsImage} {n : Nat} {k : Kernel} (taken : SlotsBelow n k)
    (fits : ShellFits fs) (more : n ≤ 5) :
    ∃ l k', Step fs k l k' ∧ SlotsBelow (n + 1) k' := by
  obtain ⟨k', eip, run⟩ := fits.starts k ⟨0, 0⟩ (freePid_below taken more)
  obtain ⟨pid, started⟩ := Kernel.sysExecute_started run
  cases Option.some.inj (started.slot.symm.trans (freePid_below taken more))
  refine ⟨(.execute shell ⟨0, 0⟩, .entered eip), k', ?_, ?_⟩
  · simp only [Step, perform, run, ExecResult.outcome]
  · intro p lower upper
    rw [started.pidArray]
    by_cases new : p = n
    · simp [new]
    · rw [Function.update_of_ne new, taken p lower upper]
      have same : p < n ↔ p < (n + 1 : Nat) := by omega
      simp only [same]

/-- Three more shells after the boot of the sample fill the table. -/
theorem failed_execute_full : ¬ ∀ (fs : FsImage) (first k : Kernel) (history : List Happening),
    Runs fs first history k → ∀ behind command regs, (k.callExecute fs behind command regs).FailsCleanly k := by
  intro clean
  obtain ⟨boot, k3, booted⟩ := boot_completes sampleImage_fits (fun _ => blankPcb) (fun _ => 0) 0 0
    ⟨0, 0⟩
  have three : SlotsBelow 3 k3 := (booted.launching sampleImage_fits.present).slots
  obtain ⟨l4, k4, fourth, four⟩ := three.next sampleImage_fits (by omega)
  obtain ⟨l5, k5, fifth, five⟩ := four.next sampleImage_fits (by omega)
  obtain ⟨l6, k6, sixth, six⟩ := five.next sampleImage_fits (by omega)
  have run := ((booted.run.next fourth).next fifth).next sixth
  have full : freePid k6.pidArray = none := by
    cases slot : freePid k6.pidArray with
    | none => rfl
    | some p =>
      obtain ⟨lower, upper, free, _⟩ := freePid_some slot
      rw [six p lower upper, if_pos (by omega)] at free
      cases free
  obtain ⟨dentry, found⟩ := sampleImage_fits.present.found
  have fails := clean _ _ _ _ run id shell ⟨0, 0⟩
  rw [Kernel.callExecute_eq (by rw [parse_shell]; decide), Kernel.sysExecute,
    k6.executeParsed_full _ _ found full] at fails
  exact absurd fails.1 (by decide)

end UnixLite
