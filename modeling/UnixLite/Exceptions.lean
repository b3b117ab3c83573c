import UnixLite.Scheduling

namespace UnixLite

open Transition

namespace Kernel

/-- `sys_halt`: the status is widened without sign. -/
def sysHalt (fs : FsImage) (k : Kernel) (status : UInt8) (regs : Regs) : HaltResult :=
  k.haltHelper fs (BitVec.ofNat 32 status.toNat) regs

end Kernel

/-- What happens to the system: an act with its reply, or an exception in the
running program, with what halting it gives. -/
inductive Occurrence
  | act (l : Act × Reply)
  | exception (id : Fin 20) (errCode : Word) (regs : Regs) (r : Reply)

/-- The steps of the system with exceptions among them. -/
inductive Moves (fs : FsImage) (k : Kernel) : Occurrence → Kernel → Prop
  | act {l k'} : Step fs k l k' → Moves fs k (.act l) k'
  | exception {id errCode regs r k'} : (k.handleException fs id errCode regs).outcome = some (k', r) →
      Moves fs k (.exception id errCode regs r) k'

/-- The same with calls that fault. An exception faults where it halts a base
shell and the shell is too long. -/
inductive Happens (fs : FsImage) (k : Kernel) : Occurrence → Kernel → Prop
  | act {l k'} : Turns fs k l k' → Happens fs k (.act l) k'
  | exception {id errCode regs r k'} : (k.handleException fs id errCode regs).outcome = some (k', r) →
      Happens fs k (.exception id errCode regs r) k'
  | fault {id errCode regs k1 r k'} : (k.handleException fs id errCode regs).fault = some k1 →
      Handled fs k1 k' r → Happens fs k (.exception id errCode regs r) k'

/-- An image that is too long for its page is executed in it. -/
def Occurrence.Overlong (fs : FsImage) (k : Kernel) : Occurrence → Prop
  | .act l => UnixLite.Overlong fs k l.1
  | .exception _ _ _ _ => k.curPcb.parentPid = -1 ∧ k.freeBase.Overruns fs shell

/-- An exception faults exactly where it halts a base shell that is too long. -/
theorem exception_fault {fs : FsImage} {k : Kernel} {id : Fin 20} {errCode : Word} {regs : Regs} :
    (∃ k1, (k.handleException fs id errCode regs).fault = some k1) ↔
      k.curPcb.parentPid = -1 ∧ k.freeBase.Overruns fs shell := by
  obtain ⟨k2, output, halts⟩ := k.handleException_halts fs id errCode
  have own : k2.curPcb = k.curPcb := by rw [Kernel.curPcb, output.curPid, output.pcb, Kernel.curPcb]
  have slots : k2.freeBase.pidArray = k.freeBase.pidArray := by
    rw [Kernel.freeBase, output.pidArray, output.curPid]
    rfl
  rw [halts, k2.haltHelper_fault, own, Kernel.Overruns.slots slots]

/-- The moves of the system are what happens in it while no image is too long. -/
theorem moves_iff {fs : FsImage} {k k' : Kernel} {o : Occurrence} :
    Moves fs k o k' ↔ Happens fs k o k' ∧ ¬ o.Overlong fs k := by
  constructor
  · intro move
    cases move with
    | act step => exact ⟨.act (.step step), step.fits⟩
    | exception run =>
      refine ⟨.exception run, fun long => ?_⟩
      obtain ⟨k1, faults⟩ := exception_fault.mpr long
      rw [HaltResult.outcome_fault run] at faults
      cases faults
  · rintro ⟨happens, fits⟩
    cases happens with
    | act turn => exact .act (turn.fits fits)
    | exception run => exact .exception run
    | fault faults => exact absurd (exception_fault.mp ⟨_, faults⟩) fits

theorem happens_fit {fs : FsImage} {first k : Kernel} {history : List (Event Kernel Occurrence)}
    (run : Run (Happens fs) first history k) (fits : ∀ e ∈ history, ¬ e.act.Overlong fs e.pre) :
    Run (Moves fs) first history k :=
  run.change fun e member happens => moves_iff.mpr ⟨happens, fits e member⟩

/-- Where all files are short nothing is too long. -/
theorem Occurrence.short {fs : FsImage}
    (short : ∀ inode, inode < fs.numInodes → (fs.fileLength inode).toNat ≤ 0x3B8000) (k : Kernel) (o : Occurrence) :
    ¬ o.Overlong fs k := by
  cases o with
  | act l => exact no_overlong short k l.1
  | exception => exact fun long => no_overlong short k (.halt 0 ⟨0, 0⟩) long

/-- An exception is a halt after some output. -/
theorem exception_halts {fs : FsImage} {k k' : Kernel} {id : Fin 20} {errCode : Word} {regs : Regs}
    {r : Reply} (run : (k.handleException fs id errCode regs).outcome = some (k', r)) :
    ∃ k1, TtyOnly k k1 ∧ Step fs k1 (.halt 256 regs, r) k' := by
  obtain ⟨k1, output, halts⟩ := k.handleException_halts fs id errCode
  rw [halts] at run
  exact ⟨k1, output, run⟩

/-- The processes stand in their chains and the running one is on duty. -/
structure Settled (base : Fin 3 → Int) (k : Kernel) : Prop where
  forest : ∃ forest, ProcessForest k base forest
  onDuty : OnDuty k

theorem Settled.same {base : Fin 3 → Int} {k k' : Kernel} (ok : Settled base k)
    (same : SameProcesses k k') : Settled base k' := by
  obtain ⟨⟨forest, tree⟩, duty⟩ := ok
  exact ⟨⟨forest, tree.same same⟩, duty.same same⟩

theorem Settled.step {fs : FsImage} {base : Fin 3 → Int} {k k' : Kernel} {l : Act × Reply}
    (ok : Settled base k) (present : ShellPresent fs) (move : Step fs k l k') : Settled base k' := by
  obtain ⟨⟨forest, tree⟩, duty⟩ := ok
  exact ⟨tree.step present move, duty.step tree present move⟩

theorem Settled.moves {fs : FsImage} {base : Fin 3 → Int} {k k' : Kernel} {o : Occurrence}
    (ok : Settled base k) (present : ShellPresent fs) (move : Moves fs k o k') : Settled base k' := by
  cases move with
  | act step => exact ok.step present step
  | exception run =>
    obtain ⟨k1, output, halt⟩ := exception_halts run
    exact (ok.same output.processes).step present halt

theorem Settled.run {fs : FsImage} {pcbs : Int → Pcb} {ram : Nat → UInt8}
    {ptFrame ptUserFrame : BitVec 20} (present : ShellPresent fs) {boot : List Happening}
    {first k : Kernel} (booted : Booting fs (entryState pcbs ram ptFrame ptUserFrame) 3 boot first)
    {history : List (Event Kernel Occurrence)} (run : Run (Moves fs) first history k) :
    Settled first.activePids k := by
  refine run.invariant (Settled first.activePids) ?_ (fun _ _ _ ok move => ok.moves present move)
  obtain ⟨forest, tree⟩ := (Scheduled.run present booted .start).forest
  exact ⟨⟨forest, tree⟩, (booted.saved present).1⟩

end UnixLite
