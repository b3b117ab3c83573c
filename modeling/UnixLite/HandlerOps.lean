import UnixLite.Interrupts
import UnixLite.Nested

namespace UnixLite

open Transition Masking Nesting

/-- What an operation of a handler sets the flag to, if it sets it. -/
def opFlag : Op (Fin 16) → Option Bool
  | .cli => some false
  | .sti => some true
  | .popfl | .eoi _ | .switch => none

/-- The values that the flag gets along a way, the newest first. -/
def opFlags (path : List (Op (Fin 16))) : List Bool := (path.filterMap opFlag).reverse

/-- What `alt_helper` does: whether it gets to `terminal_switch`, and whether
that shows another terminal. -/
def Kernel.functionPath (k : Kernel) : Option Bool :=
  if k.flags.function < 1 ∨ k.flags.function > 3 then none
  else some (decide ((k.terminalSwitch k.flags.function).2 = 0))

/-- The way of a key through the handler. -/
def Kernel.altPath (k : Kernel) (keypress : UInt8) : Option (Option Bool) :=
  if k.AltKey keypress then some { k with flags := (getKey k.flags keypress).1 }.functionPath else none

theorem altPath_mem (k : Kernel) (keypress : UInt8) : keyboardOps (k.altPath keypress) ∈ handlers 1 := by
  have all : ∀ alt, keyboardOps alt ∈ handlers 1 := by
    intro alt
    rcases alt with _ | _ | shows
    · decide
    · decide
    · revert shows
      decide
  exact all _

namespace Flow

variable {c : Flow} {values : List Bool}

theorem terminalSwitch_traces (traced : c.Traces values) (function : Nat) :
    (terminalSwitch c function).1.Traces
      (opFlags (terminalSwitchOps (decide ((terminalSwitch c function).2 = 0))) ++ values) := by
  unfold terminalSwitch
  extract_lets c1 prevTs shown c2 c3 c4 c5 c6 c7
  have second : c2.Traces (false :: values) := by
    have first : c1.Traces (false :: values) := traced.cli
    simp only [c2]
    split
    · exact first.set
    · exact first
  by_cases stays : prevTs = shown
  · rw [if_pos stays]
    exact second
  · rw [if_neg stays]
    have sixth : c6.Traces (false :: values) := second.set.set.set.run
    have seventh : c7.Traces (false :: values) := by
      simp only [c7]
      split
      · exact mapVideo_traces sixth
      · exact sixth
    exact seventh.sti

theorem altHelper_traces (traced : c.Traces values) {path : Option Bool} (way : c.state.functionPath = path) :
    (altHelper c).1.Traces (opFlags ((path.map terminalSwitchOps).getD []) ++ values) := by
  subst way
  unfold altHelper Kernel.functionPath
  split
  · exact traced
  · have result : (terminalSwitch c c.state.flags.function).2 = (c.state.terminalSwitch c.state.flags.function).2 :=
      congrArg Prod.snd (terminalSwitch_state c c.state.flags.function)
    rw [← result]
    exact terminalSwitch_traces traced c.state.flags.function

/-- The keyboard handler sets the flag as the way of the key does. -/
theorem keyboardHandler_ops (k : Kernel) (flag : Bool) (keypress : UInt8) :
    (keyboardHandler (Cpu.enter k flag) keypress).Traces (opFlags (keyboardOps (k.altPath keypress))) := by
  have entered : (Cpu.enter k flag : Flow).cli.Traces [false] := (Cpu.enter_quiet k flag).traces_cli
  unfold keyboardHandler Kernel.altPath
  by_cases alt : k.AltKey keypress
  · rw [handleKey_alt alt, if_pos alt]
    have started : ((Cpu.enter k flag : Flow).cli.run fun k =>
        { k with flags := (getKey k.flags keypress).1 }).Traces [false] := entered.run
    cases way : { k with flags := (getKey k.flags keypress).1 }.functionPath with
    | none => exact (altHelper_traces started way).sti
    | some shows =>
      have handled := (altHelper_traces started way).sti
      cases shows
      · exact handled
      · exact handled
  · rw [if_neg alt]
    exact (handleKey_traces entered alt).sti

/-- The switch to a terminal by its number. -/
theorem switchTo_traces (traced : c.Traces values) (t : Fin 3) {shows : Bool}
    (due : shows = decide (c.state.ts ≠ t)) :
    (terminalSwitch c (t.val + 1)).1.Traces (opFlags (terminalSwitchOps shows) ++ values) := by
  have way := terminalSwitch_traces traced (t.val + 1)
  have same : decide ((terminalSwitch c (t.val + 1)).2 = 0) = shows := by
    rw [due, terminalSwitch_result]
    by_cases stays : c.state.ts = t
    · simp [stays]
    · simp [stays]
  rw [same] at way
  exact way

theorem claimPid_traces (traced : c.Traces values) : (claimPid c).1.Traces values := by
  unfold claimPid
  extract_lets c1 slot c2
  have chosen : c2.Traces values := by
    simp only [c2, c1]
    cases slot with
    | none => exact traced.set
    | some i => exact traced.set.set.run
  dsimp only
  split
  · exact chosen.set
  · exact chosen

theorem sysExecute_traces (traced : c.Traces values) (fs : FsImage) (command : List UInt8) (regs : Regs) :
    (sysExecute fs c command regs).1.Traces
      ((match (sysExecute fs c command regs).2 with
        | .started _ _ => [true, false]
        | _ => [false]) ++ values) := by
  unfold sysExecute
  dsimp only
  cases findProgram fs (parseCommand (cString command)).1 with
  | none => exact traced.cli
  | some dentry =>
    have claimed := claimPid_traces traced.cli
    generalize claimPid c.cli = r at claimed ⊢
    obtain ⟨c1, slot⟩ := r
    cases slot with
    | none => exact claimed
    | some pid =>
      dsimp only at claimed ⊢
      split
      · dsimp only
        exact claimed.set.set.run
      · dsimp only
        exact claimed.set.set.run.run.set.set.sti

theorem launchTerminal_traces (traced : c.Traces values) (t : Fin 3) {shows : Bool}
    (due : shows = decide (c.state.ts ≠ t)) :
    (launchTerminal c t).Traces (opFlags (terminalSwitchOps shows) ++ values) := by
  unfold launchTerminal
  exact (switchTo_traces traced t due).set.set.run

theorem finishInit_traces (traced : c.Traces values) {shows : Bool} (due : shows = decide (c.state.ts ≠ 0)) :
    (finishInit c).Traces
      (opFlags (if c.state.terminalInit = 3 then terminalSwitchOps shows else []) ++ values) := by
  unfold finishInit
  split
  · exact (switchTo_traces traced 0 due).run
  · exact traced

theorem nextTerminal_traces (traced : c.Traces values) : (nextTerminal c).Traces values := by
  unfold nextTerminal
  exact (mapVideo_traces traced.set.set.set.set).set

/-- The handler of the timer sets the flag as its way does, unless `sys_execute`
faults. Whether a shell is started does not matter: its first instruction is
then reached with the flag that `pit_handler` would set. -/
theorem pitHandler_ops (fs : FsImage) (k : Kernel) (flag : Bool) (regs execRegs : Regs)
    (returns : ∀ k', (pitHandler fs (Cpu.enter k flag) regs execRegs).2 ≠ .launched (.faulted k'))
    (starts : Bool) : (pitHandler fs (Cpu.enter k flag) regs execRegs).1.Traces
      (opFlags (pitOps k.terminalInit (!decide k.ShowsNext) starts)) := by
  revert returns
  unfold pitHandler
  extract_lets c1 c2
  have entered : c1.Traces [false] := (Cpu.enter_quiet k flag).traces_cli.run
  have shown : c1.state.ts = k.ts := rfl
  have count : c1.state.terminalInit = k.terminalInit := rfl
  by_cases inSetup : c1.state.terminalInit < 3
  · rw [dif_pos inSetup]
    intro returns
    have asked : k.ShowsNext ↔ c1.state.ts = ⟨c1.state.terminalInit, inSetup⟩ := by
      rw [Fin.ext_iff, shown]
      show (k.terminalInit ≤ 3 → _) ↔ k.ts.val = k.terminalInit
      omega
    have due : (!decide k.ShowsNext) = decide (c1.state.ts ≠ ⟨c1.state.terminalInit, inSetup⟩) :=
      (decide_not ..).symm.trans (decide_eq_decide.mpr (not_congr asked))
    have executed := sysExecute_traces (launchTerminal_traces entered _ due) fs shell execRegs
    have way : opFlags (pitOps k.terminalInit (!decide k.ShowsNext) starts) =
        true :: false :: (opFlags (terminalSwitchOps (!decide k.ShowsNext)) ++ [false]) := by
      rw [pitOps, if_pos (count ▸ inSetup)]
      cases !decide k.ShowsNext <;> cases starts <;> rfl
    rw [way]
    generalize sysExecute fs (launchTerminal c1 ⟨c1.state.terminalInit, inSetup⟩) shell execRegs = r
      at executed returns ⊢
    obtain ⟨c', result⟩ := r
    cases result with
    | returned k' v => exact executed.sti
    | started k' eip => exact executed
    | faulted k' => exact absurd rfl (returns k')
  · rw [dif_neg inSetup]
    intro _
    have asked : k.terminalInit = 3 → (k.ShowsNext ↔ c1.state.ts = 0) := by
      intro last
      rw [Fin.ext_iff, shown]
      show (k.terminalInit ≤ 3 → k.ts.val = k.terminalInit % 3) ↔ k.ts.val = 0
      omega
    have ended := (nextTerminal_traces (finishInit_traces entered rfl)).sti
    have way : opFlags (pitOps k.terminalInit (!decide k.ShowsNext) starts) = true ::
        (opFlags (if c1.state.terminalInit = 3 then terminalSwitchOps (decide (c1.state.ts ≠ 0)) else []) ++
          [false]) := by
      rw [pitOps, if_neg (count ▸ inSetup), count]
      by_cases last : k.terminalInit = 3
      · have due : (!decide k.ShowsNext) = decide (c1.state.ts ≠ 0) :=
          (decide_not ..).symm.trans (decide_eq_decide.mpr (not_congr (asked last)))
        rw [if_pos last, if_pos last, due]
        cases decide (c1.state.ts ≠ 0) <;> rfl
      · rw [if_neg last, if_neg last]
        rfl
    rw [way]
    exact ended

end Flow

/-- Every handler that a run enters sets the flag as one of its listed ways does. -/
theorem handlerFlow_ops {fs : FsImage} {flag : Bool} {k k' : Kernel} {l : Act × Reply} {c : Flow}
    (move : Step fs k l k') (flow : handlerFlow fs flag ⟨k, l, k'⟩ = some c) (launched : 1 ≤ k.terminalInit) :
    ∃ path ∈ handlers (if l.1.isTick then 0 else 1), c.Traces (opFlags path) := by
  obtain ⟨act, r⟩ := l
  cases act with
  | key keypress =>
    cases flow
    exact ⟨_, altPath_mem k keypress, Flow.keyboardHandler_ops k flag keypress⟩
  | tick regs execRegs =>
    cases flow
    refine ⟨_, pitOps_mem k.terminalInit launched (!decide k.ShowsNext) false, ?_⟩
    refine Flow.pitHandler_ops fs k flag regs execRegs (fun k1 faults => ?_) false
    rw [Flow.pitHandler_state, show (Cpu.enter k flag : Flow).state = k from rfl] at faults
    simp [Step, perform, faults, TickResult.outcome, ExecResult.outcome] at move
  | execute | halt | switchTo | read | write | openFile | close | putc | vidStore => cases flow

end UnixLite
