import UnixLite.ForestRuns

namespace UnixLite

open Transition

/-- Where the kernel is after the `sti` of `entry`: before its own call of
`sys_execute`, behind it with interrupts off, or in a program. A tick that
starts a shell leaves `entry` for good: the shell takes over its stack. -/
inductive Phase
  | entry | spinning | process
  deriving DecidableEq

def Phase.next (p : Phase) : Reply → Phase
  | .entered _ => .process
  | .value _ _ | .resumed _ _ | .loaded _ _ => p

/-- The kernel while it starts up, as it is between its calls and its handlers.
Those are taken whole here; `Boot` goes through `pit_handler` by its statements. -/
structure Startup where
  kernel : Kernel
  phase : Phase

/-- The call of `sys_execute` in `entry`, an interrupt, or a call of the
running program. -/
inductive StartupAct
  | start (regs : Regs)
  | act (a : Act)

def Act.isInterrupt : Act → Bool
  | .tick _ _ | .key _ | .switchTo _ => true
  | _ => false

def Act.isTick : Act → Bool
  | .tick _ _ => true
  | _ => false

namespace Startup

def perform (fs : FsImage) (s : Startup) : StartupAct → Option (Startup × Reply)
  | .start regs =>
    if s.phase = .entry then
      (s.kernel.sysExecute fs shell regs).outcome.map fun r => (⟨r.1, Phase.spinning.next r.2⟩, r.2)
    else none
  | .act a =>
    if s.phase = .process ∨ (s.phase = .entry ∧ a.isInterrupt = true) then
      (UnixLite.perform fs s.kernel a).map fun r => (⟨r.1, s.phase.next r.2⟩, r.2)
    else none

def Step (fs : FsImage) (s : Startup) (l : StartupAct × Reply) (s' : Startup) : Prop :=
  s.perform fs l.1 = some (s', l.2)

/-- The acts performed one after the other, with the steps recorded. -/
def performAll (fs : FsImage) (acts : List StartupAct) (first : Startup) :
    Option (List (Event Startup (StartupAct × Reply)) × Startup) :=
  replay (fun s act => (s.perform fs act).map fun r => ((act, r.2), r.1)) acts ([], first)

theorem performAll_run {fs : FsImage} {acts : List StartupAct} {first : Startup}
    {result : List (Event Startup (StartupAct × Reply)) × Startup}
    (done : performAll fs acts first = some result) : Run (Step fs) first result.1 result.2 :=
  replay_run_answers .start done

end Startup

abbrev StartupEvent := Event Startup (StartupAct × Reply)

/-- Inversion of a step of the start-up. -/
theorem Startup.step_cases {fs : FsImage} {s s' : Startup} {l : StartupAct × Reply}
    (move : Startup.Step fs s l s') :
    (∃ regs, l.1 = .start regs ∧ s.phase = .entry ∧ s'.phase = Phase.spinning.next l.2 ∧
      UnixLite.Step fs s.kernel (.execute shell regs, l.2) s'.kernel) ∨
    ∃ a, l.1 = .act a ∧ (s.phase = .process ∨ (s.phase = .entry ∧ a.isInterrupt = true)) ∧
      s'.phase = s.phase.next l.2 ∧ UnixLite.Step fs s.kernel (a, l.2) s'.kernel := by
  obtain ⟨act, r⟩ := l
  cases act with
  | start regs =>
    simp only [Startup.Step, Startup.perform] at move
    split at move
    · rename_i waiting
      obtain ⟨r1, run, same⟩ := Option.map_eq_some_iff.mp move
      cases same
      exact Or.inl ⟨regs, rfl, waiting, rfl, run⟩
    · cases move
  | act a =>
    simp only [Startup.Step, Startup.perform] at move
    split at move
    · rename_i able
      obtain ⟨r1, run, same⟩ := Option.map_eq_some_iff.mp move
      cases same
      exact Or.inr ⟨a, rfl, able, rfl, run⟩
    · cases move

/-- Two states agree on the chains of processes and on the set-up. -/
structure SameChains (k k' : Kernel) : Prop where
  curPid : k'.curPid = k.curPid
  pidArray : ∀ p, 0 ≤ p → p ≤ 5 → k'.pidArray p = k.pidArray p
  parentPid : ∀ p, (k'.pcb p).parentPid = (k.pcb p).parentPid
  activePid : ∀ t, (k'.terminals t).activePid = (k.terminals t).activePid
  ta : k'.ta = k.ta
  terminalInit : k'.terminalInit = k.terminalInit

theorem SameProcesses.chains {k k' : Kernel} (same : SameProcesses k k') : SameChains k k' :=
  ⟨same.curPid, fun p _ _ => congrFun same.pidArray p, same.parentPid, same.activePid, same.ta,
    same.terminalInit⟩

/-- The only processes are `m` orphans with the lowest pids. -/
structure Orphans (m : Nat) (k : Kernel) : Prop where
  slots : ∀ p : Int, 0 ≤ p → p ≤ 5 → k.pidArray p = if p < m then 1 else 0
  orphan : ∀ p : Int, 0 ≤ p → p < m → (k.pcb p).parentPid = -1
  running : k.curPid = (k.terminals k.ta).activePid
  current : 0 ≤ k.curPid ∧ k.curPid < m

theorem Orphans.chains {m : Nat} {k k' : Kernel} (ok : Orphans m k) (same : SameChains k k') :
    Orphans m k' where
  slots p lower upper := by rw [same.pidArray p lower upper]; exact ok.slots p lower upper
  orphan p lower upper := by rw [same.parentPid]; exact ok.orphan p lower upper
  running := by rw [same.curPid, same.activePid, same.ta, ok.running]
  current := by rw [same.curPid]; exact ok.current

theorem Orphans.slot {m : Nat} {k : Kernel} (ok : Orphans m k) (small : m ≤ 5) :
    freePid k.pidArray = some m :=
  freePid_below ok.slots small

/-- An orphan that halts is replaced by a shell in its own slot. -/
theorem Orphans.restarted {fs : FsImage} {m : Nat} {k k' : Kernel} (ok : Orphans m k) (small : m ≤ 3)
    (present : ShellPresent fs) {regs : Regs} {r : Reply}
    (run : (k.haltBase fs regs).outcome = some (k', r)) : SameChains k k' := by
  obtain ⟨lower, upper⟩ := ok.current
  have slot : freePid k.freeBase.pidArray = some k.curPid := by
    refine freePid_eq lower (by omega) ?_ ?_
    · simp [Kernel.freeBase]
    · intro q qLower below
      have other : q ≠ k.curPid := by omega
      simp only [Kernel.freeBase, Function.update_of_ne other]
      rw [ok.slots q qLower (by omega), if_pos (by omega)]
      decide
  have started := (present.started slot run).1
  have ta : k'.ta = k.ta := started.ta
  have otherTerminal : ∀ t, t ≠ k.ta → k'.terminals t = k.terminals t := started.otherTerminal
  have activePid : (k'.terminals k.ta).activePid = k.curPid := started.activePid
  have otherPcb : ∀ q, q ≠ k.curPid → k'.pcb q = k.pcb q := started.otherPcb
  constructor
  · exact started.curPid
  · intro p pLower pUpper
    rw [started.pidArray]
    by_cases same : p = k.curPid
    · rw [same, Function.update_self, ok.slots _ lower (by omega), if_pos upper]
    · rw [Function.update_of_ne same]
      simp [Kernel.freeBase, same]
  · intro p
    by_cases same : p = k.curPid
    · rw [same, started.parentPid, if_pos (by omega), ok.orphan _ lower upper]
    · rw [otherPcb p same]
  · intro t
    by_cases here : t = k.ta
    · rw [here, activePid, ok.running]
    · rw [otherTerminal t here]
  · exact ta
  · exact started.terminalInit

/-- With orphans only, a step other than a tick starts a program as the next
orphan or leaves the chains as they are. -/
theorem Orphans.step {fs : FsImage} {m : Nat} {k k' : Kernel} {l : Act × Reply} (ok : Orphans m k)
    (small : m ≤ 3) (present : ShellPresent fs) (move : UnixLite.Step fs k l k')
    (notTick : ∀ regs execRegs, l.1 ≠ .tick regs execRegs) :
    SameChains k k' ∨ ∃ command regs eip, l = (.execute command regs, .entered eip) ∧
      k.Started fs command regs m k' := by
  cases step_effect move with
  | same _ _ _ same => exact Or.inl same.chains
  | @started command regs eip pid _ run =>
    cases Option.some.inj (run.slot.symm.trans (ok.slot (by omega)))
    exact Or.inr ⟨command, regs, eip, rfl, run⟩
  | resumed child => exact absurd (ok.orphan _ ok.current.1 ok.current.2) child
  | base _ run => exact Or.inl (ok.restarted small present run)
  | switched => exact absurd rfl (notTick _ _)
  | setup => exact absurd rfl (notTick _ _)

/-- Of the first three pids none is given a parent. -/
theorem started_low {fs : FsImage} {k k' : Kernel} {command : List UInt8} {regs : Regs} {m : Nat}
    (run : k.Started fs command regs m k') (low : m ≤ 2) (current : 0 ≤ k.curPid) :
    (k'.pcb k'.curPid).parentPid ≠ k.curPid := by
  rw [run.curPid, run.parentPid, if_pos (by omega)]
  omega

theorem Launching.chains {n : Nat} {k k' : Kernel} (stage : Launching n k) (same : SameChains k k') :
    Launching n k' where
  terminalInit := same.terminalInit.trans stage.terminalInit
  ta := by rw [same.ta]; exact stage.ta
  slots p lower upper := by rw [same.pidArray p lower upper]; exact stage.slots p lower upper
  active t inside := (same.activePid t).trans (stage.active t inside)
  orphan t inside := (same.parentPid t.val).trans (stage.orphan t inside)
  curPid := by rw [same.curPid, same.ta]; exact stage.curPid

theorem Launching.orphans {n : Nat} {k : Kernel} (stage : Launching n k) : Orphans n k := by
  have last := stage.ta
  have running := stage.curPid
  have small := k.ta.isLt
  constructor
  · exact stage.slots
  · intro p lower upper
    have orphan := stage.orphan ⟨p.toNat, by omega⟩ (by change p.toNat < n; omega)
    rwa [show ((p.toNat : Nat) : Int) = p by omega] at orphan
  · rw [stage.active k.ta (by omega), running]
  · omega

theorem Unstarted.same {k k' : Kernel} (stage : Unstarted k) (same : SameProcesses k k') :
    Unstarted k' where
  terminalInit := same.terminalInit.trans stage.terminalInit
  ta := same.ta.trans stage.ta
  slots p lower upper := by rw [same.pidArray]; exact stage.slots p lower upper
  active t := (same.activePid t).trans (stage.active t)

/-- A tick came first: the shell of terminal 1 has pid 0, which is what
terminal 0 has as its active process as well. -/
structure Shifted (k : Kernel) : Prop where
  orphans : Orphans 1 k
  terminalInit : k.terminalInit = 2
  first : (k.terminals 0).activePid = 0
  second : (k.terminals 1).activePid = 0

theorem Shifted.chains {k k' : Kernel} (shifted : Shifted k) (same : SameChains k k') : Shifted k' where
  orphans := shifted.orphans.chains same
  terminalInit := same.terminalInit.trans shifted.terminalInit
  first := (same.activePid 0).trans shifted.first
  second := (same.activePid 1).trans shifted.second

/-- The tick that comes before the first shell is started. -/
theorem Unstarted.tick {k k' : Kernel} (stage : Unstarted k) {t : Fin 3} (second : t = 1)
    (tick : k.Placed t 0 k') : Shifted k' := by
  subst second
  have slots (p : Int) (lower : 0 ≤ p) (upper : p ≤ 5) : k'.pidArray p = if p < (1 : Nat) then 1 else 0 := by
    rw [tick.pidArray]
    by_cases first : p = 0
    · simp [first]
    · rw [Function.update_of_ne first, if_neg (by omega)]
      exact stage.slots p lower upper
  refine ⟨⟨slots, ?_, ?_, ?_⟩, ?_, ?_, ?_⟩
  · intro p lower upper
    obtain rfl : p = 0 := by omega
    exact tick.parentPid
  · rw [tick.curPid, tick.ta, tick.activePid]
  · rw [tick.curPid]
    omega
  · rw [tick.terminalInit, stage.terminalInit]
  · exact (tick.otherActive 0 (by decide)).trans (stage.active 0)
  · exact tick.activePid

theorem process_next (r : Reply) : Phase.process.next r = .process := by
  cases r <;> rfl

theorem next_same {p : Phase} {r : Reply} (notEntered : ∀ eip, r ≠ .entered eip) : p.next r = p := by
  cases r with
  | entered eip => exact absurd rfl (notEntered eip)
  | value | resumed | loaded => rfl

/-- With the third terminal set up the chains stand. -/
theorem Launching.forest {k : Kernel} (stage : Launching 3 k) :
    ∃ forest, ProcessForest k (fun t => (t.val : Int)) forest := by
  obtain ⟨forest, tree, _⟩ := ProcessForest.launched stage.launched
  have base : k.activePids = fun t : Fin 3 => (t.val : Int) :=
    funext fun t => stage.active t t.isLt
  rw [base] at tree
  exact ⟨forest, tree⟩

theorem isTick_iff {a : Act} : a.isTick = true ↔ ∃ regs execRegs, a = .tick regs execRegs := by
  cases a <;> simp [Act.isTick]

/-- Outside of programs only interrupts happen. -/
theorem interrupt_of_idle {p : Phase} {a : Act}
    (able : p = .process ∨ (p = .entry ∧ a.isInterrupt = true)) (idle : p ≠ .process) :
    a.isInterrupt = true := by
  rcases able with running | ⟨_, interrupt⟩
  · exact absurd running idle
  · exact interrupt

/-- A key or a terminal switch starts nothing. -/
theorem interrupt_same {fs : FsImage} {k k' : Kernel} {a : Act} {r : Reply}
    (run : UnixLite.Step fs k (a, r) k') (interrupt : a.isInterrupt = true)
    (notTick : a.isTick = false) : SameProcesses k k' ∧ ∀ eip, r ≠ .entered eip := by
  cases a with
  | tick => cases notTick
  | key keypress =>
    cases run
    exact ⟨(k.keyboardHandler_ttyOnly keypress).processes, by simp⟩
  | switchTo function =>
    cases run
    exact ⟨(k.terminalSwitch_ttyOnly function).processes, by simp⟩
  | execute | halt | read | write | openFile | close | putc | vidStore => cases interrupt

/-- A program is entered from `entry` only when there is a shell. -/
theorem Startup.entered_present {fs : FsImage} {s s' : Startup} {l : StartupAct × Reply}
    (move : Startup.Step fs s l s') (before : s.phase ≠ .process) (after : s'.phase = .process) :
    ShellPresent fs := by
  have present {k k' : Kernel} {regs : Regs} {r : Reply}
      (run : (k.sysExecute fs shell regs).outcome = some (k', r)) (entered : ∃ eip, r = .entered eip) :
      ShellPresent fs := by
    rcases Kernel.sysExecute_outcome run with ⟨_, _, _, returned⟩ | ⟨_, _, _, started⟩
    · obtain ⟨_, entered⟩ := entered
      exact absurd (returned.symm.trans entered) (by simp)
    · exact started.present
  have enters {p : Phase} {r : Reply} (not : p ≠ .process) (next : p.next r = .process) :
      ∃ eip, r = .entered eip := by
    cases r with
    | entered eip => exact ⟨eip, rfl⟩
    | value | resumed | loaded => exact absurd next not
  obtain ⟨act, r⟩ := l
  rcases Startup.step_cases move with ⟨regs, rfl, _, next, run⟩ | ⟨a, rfl, able, next, run⟩
  · exact present run (enters (by decide) (next.symm.trans after))
  · have entered := enters before (next.symm.trans after)
    have interrupt := interrupt_of_idle able before
    simp only at run
    cases tick : a.isTick with
    | true =>
      obtain ⟨regs, execRegs, rfl⟩ := isTick_iff.mp tick
      simp only [UnixLite.Step, UnixLite.perform, Kernel.pitHandler] at run
      split at run
      · exact present run entered
      · obtain ⟨eip, rfl⟩ := entered
        simp [TickResult.outcome] at run
    | false =>
      obtain ⟨eip, same⟩ := entered
      exact absurd same ((interrupt_same run interrupt tick).2 eip)

/-- The state in which the sample starts up. -/
def sampleStartup : Startup := ⟨sampleEntry, .entry⟩

end UnixLite
