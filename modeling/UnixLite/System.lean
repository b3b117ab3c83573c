import UnixLite.Pit
import UnixLite.Library.Run

namespace UnixLite

open Transition

/-- What can happen to the kernel, each taken as one step: the system calls,
console output and vidmap stores of the running process, and the interrupts.
The registers are those of the kernel context the step finds. -/
inductive Act
  | execute (command : List UInt8) (regs : Regs)
  | halt (status : Word) (regs : Regs)
  | tick (regs execRegs : Regs)
  | key (keypress : UInt8)
  | switchTo (function : Nat)
  | read (fd : Int) (buf : Nat) (nbytes : Word)
  | write (fd : Int) (buf : Nat) (src : Nat → UInt8) (nbytes : Word)
  | openFile (filename : List UInt8)
  | close (fd : Int)
  | putc (c : UInt8)
  | vidStore (off : Fin 4096) (b : UInt8)

/-- What a step gives back: a result with the bytes stored for the caller, the
entry point of a started program, the parent a halt returned to, or the
context a tick loaded. -/
inductive Reply
  | value (v : Int) (out : List UInt8)
  | entered (userEip : Word)
  | resumed (ebp eax : Word)
  | loaded (ebp esp : Word)

/-- What a call of `sys_execute` gives, unless it faults: it has no outcome of
its own then, for the page fault handler does not come back to it. -/
def ExecResult.outcome : ExecResult → Option (Kernel × Reply)
  | returned k v => some (k, .value v [])
  | started k eip => some (k, .entered eip)
  | faulted _ => none

def HaltResult.outcome : HaltResult → Option (Kernel × Reply)
  | resumed k ebp eax => some (k, .resumed ebp eax)
  | restarted r => r.outcome

def TickResult.outcome : TickResult → Option (Kernel × Reply)
  | switched k ebp esp => some (k, .loaded ebp esp)
  | launched r => r.outcome

def ReadReply.outcome : Outcome ReadReply → Option (Kernel × Reply)
  | .done r => some (r.1, .value r.2.1 r.2.2)
  | .blocks | .wild => none

/-- A store of the running process through its vidmap page. -/
def Kernel.vidStore (k : Kernel) (off : Nat) (b : UInt8) : Kernel :=
  { k with mem := Function.update k.mem ((k.ptUser 0xB8).addr.toNat * 4096 + off) b }

/-- One step. There is none where a call waits for an interrupt, jumps through
a wild pointer, or faults. What a call that faults ends in is a turn of the
system (`Turns`), and an act that does not fault turns out as its step. -/
def perform (fs : FsImage) (k : Kernel) : Act → Option (Kernel × Reply)
  | .execute command regs => (k.sysExecute fs command regs).outcome
  | .halt status regs => (k.haltHelper fs status regs).outcome
  | .tick regs execRegs => (k.pitHandler fs regs execRegs).outcome
  | .key keypress => some (k.keyboardHandler keypress, .value 0 [])
  | .switchTo function => some ((k.terminalSwitch function).1, .value (k.terminalSwitch function).2 [])
  | .read fd buf nbytes => ReadReply.outcome (k.sysRead fs fd buf nbytes)
  | .write fd buf src nbytes =>
    match k.sysWrite fd buf src nbytes with
    | .done r => some (r.1, .value r.2 [])
    | .blocks | .wild => none
  | .openFile filename => some ((k.sysOpen fs filename).1, .value (k.sysOpen fs filename).2 [])
  | .close fd => some ((k.sysClose fd).1, .value (k.sysClose fd).2 [])
  | .putc c => some (k.putc c, .value 0 [])
  | .vidStore off b => some (k.vidStore off b, .value 0 [])

/-- The steps of the system, labelled with the act and its reply. -/
def Step (fs : FsImage) (k : Kernel) (l : Act × Reply) (k' : Kernel) : Prop :=
  perform fs k l.1 = some (k', l.2)

/-- A read that is a step has returned. -/
theorem step_read {fs : FsImage} {k k' : Kernel} {fd : Int} {buf : Nat} {nbytes : Word} {r : Reply}
    (step : Step fs k (.read fd buf nbytes, r) k') :
    ∃ v out, k.sysRead fs fd buf nbytes = .done (k', v, out) ∧ r = .value v out := by
  simp only [Step, perform] at step
  cases call : k.sysRead fs fd buf nbytes with
  | done reply =>
    rw [call] at step
    cases step
    exact ⟨_, _, rfl, rfl⟩
  | blocks | wild =>
    rw [call] at step
    cases step

theorem step_write {fs : FsImage} {k k' : Kernel} {fd : Int} {buf : Nat} {src : Nat → UInt8}
    {nbytes : Word} {r : Reply} (step : Step fs k (.write fd buf src nbytes, r) k') :
    ∃ v, k.sysWrite fd buf src nbytes = .done (k', v) ∧ r = .value v [] := by
  simp only [Step, perform] at step
  cases call : k.sysWrite fd buf src nbytes with
  | done reply =>
    rw [call] at step
    cases step
    exact ⟨_, rfl, rfl⟩
  | blocks | wild =>
    rw [call] at step
    cases step

/-- A step of a run with its label. -/
abbrev Happening := Event Kernel (Act × Reply)

/-- The runs of the system. What a read stores for its caller is in its reply
and nowhere in memory: these are the runs whose buffers lie over no data of the
kernel. -/
abbrev Runs (fs : FsImage) (first : Kernel) (history : List Happening) (k : Kernel) : Prop :=
  Run (Step fs) first history k

/-- The acts performed one after the other, with the steps recorded. -/
def performAll (fs : FsImage) (acts : List Act) (r : List Happening × Kernel) :
    Option (List Happening × Kernel) :=
  replay (fun k act => (perform fs k act).map fun s => ((act, s.2), s.1)) acts r

theorem performAll_run {fs : FsImage} {acts : List Act} {first : Kernel}
    {r result : List Happening × Kernel} (run : Runs fs first r.1 r.2)
    (done : performAll fs acts r = some result) : Runs fs first result.1 result.2 :=
  replay_run_answers run done

end UnixLite
