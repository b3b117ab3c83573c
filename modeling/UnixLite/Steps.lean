import UnixLite.Ticks

namespace UnixLite

open Transition

/-- What a step does to the processes and to the scheduler, by its act. Apart
from `execute`, `halt` and `tick` every act leaves them as they are. -/
inductive Effect (fs : FsImage) (k : Kernel) : Act × Reply → Kernel → Prop
  | same {l k'} : (∀ status regs, l.1 ≠ .halt status regs) →
      (∀ regs execRegs, l.1 ≠ .tick regs execRegs) → (∀ eip, l.2 ≠ .entered eip) →
      SameProcesses k k' → Effect fs k l k'
  | started {command regs eip pid k'} : k.Started fs command regs pid k' →
      Effect fs k (.execute command regs, .entered eip) k'
  | resumed {status regs} : k.curPcb.parentPid ≠ -1 →
      Effect fs k (.halt status regs, .resumed (k.haltBody.pcb k.curPid).ebp status) k.haltBody
  | base {status regs r k'} : k.curPcb.parentPid = -1 →
      (k.haltBase fs regs).outcome = some (k', r) → Effect fs k (.halt status regs, r) k'
  | switched {regs execRegs k'} : 3 ≤ k.terminalInit → k.Switched regs k' →
      k' = (k.saveContext regs).finishInit.nextTerminal →
      Effect fs k (.tick regs execRegs,
        .loaded (k'.pcb k'.curPid).curEbp (k'.pcb k'.curPid).curEsp) k'
  | setup {regs execRegs r k'} : k.terminalInit < 3 →
      (k.pitHandler fs regs execRegs).outcome = some (k', r) →
      Effect fs k (.tick regs execRegs, r) k'

/-- A call of `sys_execute` that does not fault returns, having changed
`prev_pid` at most, or enters a new program. -/
theorem Kernel.sysExecute_outcome {fs : FsImage} {k k' : Kernel} {command : List UInt8} {regs : Regs}
    {r : Reply} (run : (k.sysExecute fs command regs).outcome = some (k', r)) :
    (∃ prev v, k' = { k with prevPid := prev } ∧ r = .value v []) ∨
      ∃ eip pid, r = .entered eip ∧ k.Started fs command regs pid k' := by
  cases call : k.sysExecute fs command regs with
  | returned k1 v =>
    rw [call] at run
    cases run
    obtain ⟨prev, rfl⟩ := Kernel.sysExecute_returned call
    exact Or.inl ⟨prev, v, rfl, rfl⟩
  | started k1 eip =>
    rw [call] at run
    cases run
    obtain ⟨pid, started⟩ := Kernel.sysExecute_started call
    exact Or.inr ⟨eip, pid, rfl, started⟩
  | faulted k1 =>
    rw [call] at run
    cases run

theorem step_execute {fs : FsImage} {k k' : Kernel} {command : List UInt8} {regs : Regs} {r : Reply}
    (step : Step fs k (.execute command regs, r) k') :
    (∃ prev v, k' = { k with prevPid := prev } ∧ r = .value v []) ∨
      ∃ eip pid, r = .entered eip ∧ k.Started fs command regs pid k' :=
  Kernel.sysExecute_outcome step

theorem step_halt {fs : FsImage} {k k' : Kernel} {status : Word} {regs : Regs} {r : Reply}
    (step : Step fs k (.halt status regs, r) k') :
    (k.curPcb.parentPid ≠ -1 ∧ k' = k.haltBody ∧ r = .resumed (k.haltBody.pcb k.curPid).ebp status) ∨
      (k.curPcb.parentPid = -1 ∧ (k.haltBase fs regs).outcome = some (k', r)) := by
  simp only [Step, perform, Kernel.haltHelper] at step
  split at step
  · rename_i orphan
    exact Or.inr ⟨orphan, step⟩
  · rename_i child
    simp only [HaltResult.outcome, Option.some.injEq, Prod.mk.injEq] at step
    exact Or.inl ⟨child, step.1.symm, step.2.symm⟩

theorem step_tick {fs : FsImage} {k k' : Kernel} {regs execRegs : Regs} {r : Reply}
    (step : Step fs k (.tick regs execRegs, r) k') :
    (3 ≤ k.terminalInit ∧ k.Switched regs k' ∧ k' = (k.saveContext regs).finishInit.nextTerminal ∧
        r = .loaded (k'.pcb k'.curPid).curEbp (k'.pcb k'.curPid).curEsp) ∨
      ∃ inSetup : k.terminalInit < 3,
        (((k.saveContext regs).launchTerminal ⟨k.terminalInit, inSetup⟩).sysExecute fs shell
          execRegs).outcome = some (k', r) := by
  by_cases ready : 3 ≤ k.terminalInit
  · obtain ⟨k1, switched, shape, run⟩ := k.pitHandler_switched fs regs execRegs ready
    simp only [Step, perform, run, TickResult.outcome, Option.some.injEq, Prod.mk.injEq] at step
    obtain ⟨rfl, rfl⟩ := step
    exact Or.inl ⟨ready, switched, shape, rfl⟩
  · have inSetup : k.terminalInit < 3 := Nat.lt_of_not_le ready
    exact Or.inr ⟨inSetup, (k.pitHandler_launches fs regs execRegs inSetup).symm.trans step⟩

/-- Inversion of a step of the system. -/
theorem step_effect {fs : FsImage} {k k' : Kernel} {l : Act × Reply} (step : Step fs k l k') :
    Effect fs k l k' := by
  obtain ⟨act, r⟩ := l
  cases act with
  | execute command regs =>
    rcases step_execute step with ⟨prev, v, rfl, rfl⟩ | ⟨eip, pid, rfl, started⟩
    · refine .same (by simp) (by simp) (by simp) ?_
      constructor <;> intros <;> rfl
    · exact .started started
  | halt status regs =>
    rcases step_halt step with ⟨child, rfl, rfl⟩ | ⟨orphan, restarted⟩
    · exact .resumed child
    · exact .base orphan restarted
  | tick regs execRegs =>
    rcases step_tick step with ⟨ready, switched, shape, rfl⟩ | ⟨inSetup, _⟩
    · exact .switched ready switched shape
    · exact .setup inSetup step
  | key keypress =>
    cases step
    exact .same (by simp) (by simp) (by simp) (k.keyboardHandler_ttyOnly keypress).processes
  | switchTo function =>
    cases step
    exact .same (by simp) (by simp) (by simp) (k.terminalSwitch_ttyOnly function).processes
  | read fd buf nbytes =>
    obtain ⟨v, out, run, rfl⟩ := step_read step
    exact .same (by simp) (by simp) (by simp) (Kernel.sysRead_frame run).1
  | write fd buf src nbytes =>
    obtain ⟨v, run, rfl⟩ := step_write step
    exact .same (by simp) (by simp) (by simp) (Kernel.sysWrite_frame run).1
  | openFile filename =>
    cases step
    exact .same (by simp) (by simp) (by simp) (k.sysOpen_quiet fs filename).processes
  | close fd =>
    cases step
    exact .same (by simp) (by simp) (by simp) (k.sysClose_quiet fd).processes
  | putc c =>
    cases step
    exact .same (by simp) (by simp) (by simp) (k.putc_ttyOnly c).processes
  | vidStore off b =>
    cases step
    refine .same (by simp) (by simp) (by simp) ?_
    constructor <;> intros <;> rfl

end UnixLite
