import UnixLite.ForestRuns

namespace UnixLite

open Transition

/-- The running process is the active one of its terminal, its program page
is mapped and its kernel stack is the one interrupts will use. -/
structure OnDuty (k : Kernel) : Prop where
  running : k.curPid = (k.terminals k.ta).activePid
  mapped : (k.pd 32).p = true
  frame : (k.pd 32).addr = programFrame k.curPid
  stack : k.tssEsp0 = kernelStack k.curPid

/-- The pointers stored by the latest tick that switched away from `t`. -/
def lastSwitchAway (t : Fin 3) : List Happening → Option Regs
  | [] => none
  | ⟨k, (.tick regs _, _), _⟩ :: past => if k.ta = t then some regs else lastSwitchAway t past
  | _ :: past => lastSwitchAway t past

theorem lastSwitchAway_other (t : Fin 3) (k k' : Kernel) {l : Act × Reply} (past : List Happening)
    (notTick : ∀ regs execRegs, l.1 ≠ .tick regs execRegs) :
    lastSwitchAway t (⟨k, l, k'⟩ :: past) = lastSwitchAway t past := by
  obtain ⟨act, r⟩ := l
  cases act <;> first | rfl | exact absurd rfl (notTick _ _)

/-- Of the first `n` terminals, those that wait have in the PCB of their
active process the pointers that the tick leaving them stored. -/
def Saved (n : Nat) (history : List Happening) (k : Kernel) : Prop :=
  ∀ t : Fin 3, t.val < n → t ≠ k.ta → ∃ regs, lastSwitchAway t history = some regs ∧
    (k.pcb (k.terminals t).activePid).curEbp = regs.ebp ∧
    (k.pcb (k.terminals t).activePid).curEsp = regs.esp

/-- What was saved stays saved while a step keeps the PCBs of the processes
that wait. -/
theorem Saved.keep {n : Nat} {history : List Happening} {k k' : Kernel} {l : Act × Reply}
    (saved : Saved n history k) (notTick : ∀ regs execRegs, l.1 ≠ .tick regs execRegs)
    (ta : k'.ta = k.ta)
    (active : ∀ t, t ≠ k.ta → (k'.terminals t).activePid = (k.terminals t).activePid)
    (context : ∀ t, t ≠ k.ta →
      (k'.pcb (k.terminals t).activePid).curEbp = (k.pcb (k.terminals t).activePid).curEbp ∧
      (k'.pcb (k.terminals t).activePid).curEsp = (k.pcb (k.terminals t).activePid).curEsp) :
    Saved n (⟨k, l, k'⟩ :: history) k' := by
  intro t inside waits
  rw [ta] at waits
  obtain ⟨regs, stored, ebp, esp⟩ := saved t inside waits
  obtain ⟨sameEbp, sameEsp⟩ := context t waits
  refine ⟨regs, (lastSwitchAway_other t k k' history notTick).trans stored, ?_, ?_⟩
  · rw [active t waits, sameEbp, ebp]
  · rw [active t waits, sameEsp, esp]

theorem Saved.same {n : Nat} {history : List Happening} {k k' : Kernel} {l : Act × Reply}
    (saved : Saved n history k) (notTick : ∀ regs execRegs, l.1 ≠ .tick regs execRegs)
    (same : SameProcesses k k') : Saved n (⟨k, l, k'⟩ :: history) k' :=
  saved.keep notTick same.ta (fun t _ => same.activePid t)
    (fun _ _ => ⟨same.curEbp _, same.curEsp _⟩)

/-- A tick saves the pointers of the terminal it leaves. -/
theorem Saved.tick {n m : Nat} {history : List Happening} {k k' : Kernel} {regs execRegs : Regs}
    {r : Reply} (saved : Saved n history k)
    (active : ∀ t, t ≠ k'.ta → (k'.terminals t).activePid = (k.terminals t).activePid)
    (kept : ∀ t : Fin 3, t.val < n → t ≠ k.ta → t ≠ k'.ta →
      k'.pcb (k.terminals t).activePid = k.pcb (k.terminals t).activePid)
    (ebp : k.ta ≠ k'.ta → (k'.pcb (k.terminals k.ta).activePid).curEbp = regs.ebp)
    (esp : k.ta ≠ k'.ta → (k'.pcb (k.terminals k.ta).activePid).curEsp = regs.esp)
    (grows : ∀ t : Fin 3, t ≠ k'.ta → t ≠ k.ta → t.val < m → t.val < n) :
    Saved m (⟨k, (.tick regs execRegs, r), k'⟩ :: history) k' := by
  intro t inside waits
  rw [active t waits]
  by_cases left : t = k.ta
  · subst left
    exact ⟨regs, by simp [lastSwitchAway], ebp waits, esp waits⟩
  · have before := grows t waits left inside
    obtain ⟨old, stored, oldEbp, oldEsp⟩ := saved t before left
    refine ⟨old, ?_, ?_, ?_⟩
    · simpa [lastSwitchAway, Ne.symm left] using stored
    · rw [kept t before left waits, oldEbp]
    · rw [kept t before left waits, oldEsp]

theorem OnDuty.same {k k' : Kernel} (duty : OnDuty k) (same : SameProcesses k k') : OnDuty k' where
  running := by rw [same.curPid, same.activePid, same.ta, duty.running]
  mapped := by rw [same.pd]; exact duty.mapped
  frame := by rw [same.pd, same.curPid]; exact duty.frame
  stack := by rw [same.tssEsp0, same.curPid]; exact duty.stack

theorem Kernel.Started.onDuty {fs : FsImage} {k k' : Kernel} {command : List UInt8} {regs : Regs}
    {pid : Int} (run : k.Started fs command regs pid k') : OnDuty k' where
  running := by rw [run.curPid, run.ta, run.activePid]
  mapped := by rw [run.programPage]
  frame := by rw [run.programPage, run.curPid]
  stack := by rw [run.tssEsp0, run.curPid]

theorem Kernel.Halted.onDuty {k k' : Kernel} (halt : k.Halted k') : OnDuty k' where
  running := by rw [halt.curPid, halt.video.ta, halt.activePid]
  mapped := by rw [halt.programPage]
  frame := by rw [halt.programPage, halt.curPid]
  stack := by rw [halt.tssEsp0, halt.curPid]

theorem Kernel.Switched.onDuty {k k' : Kernel} {regs : Regs} (tick : k.Switched regs k') :
    OnDuty k' where
  running := by rw [tick.curPid, tick.activePid, tick.ta]
  mapped := by rw [tick.programPage]
  frame := by rw [tick.programPage, tick.curPid]
  stack := by rw [tick.tssEsp0, tick.curPid]

theorem Kernel.SetUp.onDuty {k k' : Kernel} {t : Fin 3} {regs : Regs} {pid : Int}
    (tick : k.SetUp t regs pid k') : OnDuty k' where
  running := by rw [tick.curPid, tick.ta, tick.activePid]
  mapped := by rw [tick.programPage]
  frame := by rw [tick.programPage, tick.curPid]
  stack := by rw [tick.tssEsp0, tick.curPid]

/-- The boot leaves the contexts of the terminals it has set up. -/
theorem Booting.saved {fs : FsImage} {pcbs : Int → Pcb} {ram : Nat → UInt8}
    {ptFrame ptUserFrame : BitVec 20} (present : ShellPresent fs) {n : Nat} {history : List Happening}
    {k : Kernel} (boot : Booting fs (entryState pcbs ram ptFrame ptUserFrame) n history k) :
    OnDuty k ∧ Saved n history k := by
  induction boot with
  | shell step =>
    have started := entry_started present step
    refine ⟨started.onDuty, fun t inside waits => absurd ?_ waits⟩
    rw [started.ta]
    exact Fin.ext (by change t.val = 0; omega)
  | @tick n history k regs execRegs r k' before more step ih =>
    have stage := before.launching present
    have setUp := stage.tick present more step
    have count := stage.ta
    have active (t : Fin 3) (inside : t.val < n) : (k.terminals t).activePid ≠ n := by
      rw [stage.active t inside]
      omega
    refine ⟨setUp.onDuty, ih.2.tick ?_ ?_ ?_ ?_ ?_⟩
    · intro t waits
      rw [setUp.ta] at waits
      exact setUp.otherActive t waits
    · intro t before left waits
      refine setUp.otherPcb _ ?_ (active t before)
      rw [stage.active t before, stage.active k.ta (by omega)]
      exact fun eq => left (Fin.ext (by omega))
    · exact fun _ => setUp.savedEbp (active k.ta (by omega))
    · exact fun _ => setUp.savedEsp (active k.ta (by omega))
    · intro t waits _ inside
      rw [setUp.ta] at waits
      have other : t.val ≠ n := fun eq => waits (Fin.ext eq)
      omega
  | other before notExecute notHalt notTick step ih =>
    have same := step_same step notExecute notHalt notTick
    exact ⟨ih.1.same same, ih.2.same notTick same⟩

/-- The invariant of the runs that follow the boot. -/
structure Scheduled (base : Fin 3 → Int) (history : List Happening) (k : Kernel) : Prop where
  forest : ∃ forest, ProcessForest k base forest
  onDuty : OnDuty k
  saved : Saved 3 history k

theorem OnDuty.step {fs : FsImage} {base : Fin 3 → Int} {k k' : Kernel} {l : Act × Reply}
    {forest : Stacks (Fin 3) Int} (duty : OnDuty k) (tree : ProcessForest k base forest)
    (present : ShellPresent fs) (move : Step fs k l k') : OnDuty k' := by
  cases step_effect move with
  | same _ _ _ same => exact duty.same same
  | started run => exact run.onDuty
  | resumed => exact k.haltBody_halted.onDuty
  | base orphan run => exact (tree.restarted present orphan run).1.onDuty
  | switched _ tick => exact tick.onDuty
  | setup inSetup => exact absurd tree.setUp (by omega)

theorem Scheduled.step {fs : FsImage} {base : Fin 3 → Int} {history : List Happening} {k k' : Kernel}
    {l : Act × Reply} (ok : Scheduled base history k) (present : ShellPresent fs)
    (move : Step fs k l k') : Scheduled base (⟨k, l, k'⟩ :: history) k' := by
  obtain ⟨⟨forest, tree⟩, duty, saved⟩ := ok
  have waiting {t : Fin 3} (waits : t ≠ k.ta) : (k.terminals t).activePid ≠ k.curPid := by
    rw [tree.running]
    exact tree.active_ne waits
  refine ⟨tree.step present move, duty.step tree present move, ?_⟩
  cases step_effect move with
  | same _ notTick _ same => exact saved.same notTick same
  | @started command regs eip pid _ run =>
    obtain ⟨fresh, _⟩ := tree.started run
    have other (t : Fin 3) : (k.terminals t).activePid ≠ pid :=
      fun eq => fresh t (eq ▸ tree.active_mem t)
    refine saved.keep (by simp) run.ta ?_ ?_
    · exact fun t waits => congrArg Term.activePid (run.otherTerminal t waits)
    · intro t _
      rw [run.otherPcb _ (other t)]
      exact ⟨rfl, rfl⟩
  | resumed child =>
    have halt := k.haltBody_halted
    exact saved.keep (by simp) halt.video.ta halt.otherActive (fun t _ => ⟨halt.curEbp _, halt.curEsp _⟩)
  | base orphan run =>
    obtain ⟨started, _⟩ := tree.restarted present orphan run
    refine saved.keep (by simp) started.ta ?_ ?_
    · exact fun t waits => congrArg Term.activePid (started.otherTerminal t waits)
    · intro t waits
      have same : k'.pcb (k.terminals t).activePid = k.pcb (k.terminals t).activePid :=
        started.otherPcb _ (waiting waits)
      rw [same]
      exact ⟨rfl, rfl⟩
  | @switched regs execRegs _ ready tick shape =>
    refine saved.tick (fun t _ => tick.activePid t) ?_ (fun _ => tick.savedEbp)
      (fun _ => tick.savedEsp) (fun _ _ _ inside => inside)
    intro t _ left _
    exact tick.otherPcb _ (tree.active_ne left)
  | setup inSetup => exact absurd tree.setUp (by omega)

theorem Scheduled.run {fs : FsImage} {pcbs : Int → Pcb} {ram : Nat → UInt8}
    {ptFrame ptUserFrame : BitVec 20} (present : ShellPresent fs) {boot later : List Happening}
    {first k : Kernel} (booted : Booting fs (entryState pcbs ram ptFrame ptUserFrame) 3 boot first)
    (run : Runs fs first later k) : Scheduled first.activePids (later ++ boot) k := by
  obtain ⟨duty, saved⟩ := booted.saved present
  obtain ⟨forest, tree, _⟩ := ProcessForest.launched (booted.launching present).launched
  refine run.history_invariant (fun later k => Scheduled first.activePids (later ++ boot) k) ?_ ?_
  · exact ⟨⟨forest, tree⟩, duty, saved⟩
  · exact fun past s a s' _ ok move => ok.step present move

/-- The next tick loads, from the PCB of the active process of the terminal it
switches to, what the tick that last left that terminal stored. -/
def LoadsStored (fs : FsImage) (history : List Happening) (k : Kernel) : Prop :=
  ∀ regs execRegs r k', Turns fs k (.tick regs execRegs, r) k' →
    ∃ stored, lastSwitchAway k'.ta history = some stored ∧ r = .loaded stored.ebp stored.esp ∧
      r = .loaded (k.pcb (k.terminals k'.ta).activePid).curEbp (k.pcb (k.terminals k'.ta).activePid).curEsp

/-- After the boot, while no image is too long, the running process, its page
and its kernel stack belong together, and every tick loads what was stored. -/
theorem scheduler_context {fs : FsImage} (present : ShellPresent fs) {pcbs : Int → Pcb}
    {ram : Nat → UInt8} {ptFrame ptUserFrame : BitVec 20} {boot later : List Happening}
    {first k : Kernel} (booted : Booting fs (entryState pcbs ram ptFrame ptUserFrame) 3 boot first)
    (run : Run (Turns fs) first later k) (fits : ∀ e ∈ later, ¬ Overlong fs e.pre e.act.1) :
    OnDuty k ∧ LoadsStored fs (later ++ boot) k := by
  obtain ⟨⟨forest, tree⟩, duty, saved⟩ := Scheduled.run present booted (runs_fit run fits)
  refine ⟨duty, fun regs execRegs r k' turn => ?_⟩
  have setUp := tree.setUp
  cases step_effect (turn.fits fun long => absurd long.1 (by omega)) with
  | same _ notTick => exact absurd rfl (notTick _ _)
  | setup inSetup => omega
  | switched ready tick shape =>
    have moved : k'.ta ≠ k.ta := by
      rw [tick.ta]
      have distinct : ∀ t : Fin 3, t + 1 ≠ t := by decide
      exact distinct k.ta
    obtain ⟨stored, last, ebp, esp⟩ := saved k'.ta k'.ta.isLt moved
    have active : k'.curPid = (k.terminals k'.ta).activePid := by rw [tick.curPid, tick.ta]
    have kept : k'.pcb k'.curPid = k.pcb (k.terminals k'.ta).activePid := by
      rw [active]
      exact tick.otherPcb _ (tree.active_ne moved)
    rw [kept]
    exact ⟨stored, last, by rw [ebp, esp], rfl⟩

theorem Kernel.ticks (fs : FsImage) (k : Kernel) (ready : 3 ≤ k.terminalInit) (regs execRegs : Regs) :
    ∃ k', k.Switched regs k' ∧ Turns fs k (.tick regs execRegs,
      .loaded (k'.pcb k'.curPid).curEbp (k'.pcb k'.curPid).curEsp) k' := by
  obtain ⟨k', tick, _, run⟩ := k.pitHandler_switched fs regs execRegs ready
  exact ⟨k', tick, .step (by simp only [Step, perform, run, TickResult.outcome])⟩

/-- Behind programs nested on two terminals, and halted: a tick loads what the
tick stored that last left the terminal. -/
theorem scheduler_context_sample : ∃ boot first later k r k', Booting sampleImage sampleEntry 3 boot first ∧
    Run (Turns sampleImage) first later k ∧ later.length = 11 ∧ OnDuty k ∧
    Turns sampleImage k (.tick ⟨10, 10⟩ ⟨0, 0⟩, r) k' ∧ lastSwitchAway k'.ta (later ++ boot) = some ⟨7, 7⟩ ∧
    r = .loaded 7 7 := by
  have computed : (performAll sampleImage setUpActs ([], sampleEntry)).map (fun b =>
      (performAll sampleImage (nestedActs ++ [.tick ⟨9, 9⟩ ⟨0, 0⟩]) ([], b.2)).map fun r =>
        (r.2.ta, [r.1.length, r.2.terminalInit], (lastSwitchAway 1 (r.1 ++ b.1)).map fun s => [s.ebp, s.esp])) =
      some (some (0, [11, 4], some [7, 7])) := by
    decide +kernel
  obtain ⟨b, booted, later⟩ := Option.map_eq_some_iff.mp computed
  obtain ⟨s, done, values⟩ := Option.map_eq_some_iff.mp later
  simp only [Prod.mk.injEq, List.cons.injEq, and_true] at values
  obtain ⟨ta, ⟨length, count⟩, last⟩ := values
  obtain ⟨⟨ebp, esp⟩, left, regs⟩ := Option.map_eq_some_iff.mp last
  simp only [List.cons.injEq, and_true] at regs
  obtain ⟨rfl, rfl⟩ := regs
  have run : Run (Turns sampleImage) b.2 s.1 s.2 := (performAll_run .start done).change fun _ _ step => .step step
  obtain ⟨duty, loads⟩ := scheduler_context sampleImage_fits.present (setUpActs_booting booted) run
    fun e _ => no_overlong sampleImage_lengths e.pre e.act.1
  obtain ⟨k', tick, turn⟩ := s.2.ticks sampleImage (by omega) ⟨10, 10⟩ ⟨0, 0⟩
  have next : k'.ta = 1 := by
    rw [tick.ta, ta]
    rfl
  obtain ⟨found, same, loaded, _⟩ := loads _ _ _ _ turn
  rw [next, left] at same
  cases same
  exact ⟨b.1, b.2, s.1, s.2, _, k', setUpActs_booting booted, run, length, duty, turn, by rw [next, left], loaded⟩

/-- When the shell of terminal 2 runs on terminal 0 too, a tick there stores
into its PCB, and terminal 2 goes on with these pointers. -/
theorem scheduler_context_overrun : ¬ ∀ (fs : FsImage) (pcbs : Int → Pcb) (ram : Nat → UInt8)
    (ptFrame ptUserFrame : BitVec 20) (boot later : List Happening) (first k : Kernel), ShellPresent fs →
    Booting fs (entryState pcbs ram ptFrame ptUserFrame) 3 boot first → Run (Turns fs) first later k →
    OnDuty k ∧ LoadsStored fs (later ++ boot) k := by
  intro always
  obtain ⟨b, r, k, ebp, booted, done, turn, ta, count, active⟩ := bigImage_strays
  have run : Run (Turns bigImage) b.2 r.1 r.2 := (performAll_run .start done).change fun _ _ step => .step step
  have computed : (performAll bigImage setUpActs ([], sampleEntry)).map (fun b =>
      (performAll bigImage partedActs ([], b.2)).map fun r =>
        (lastSwitchAway 2 (r.1 ++ b.1)).map (·.ebp)) = some (some (some 1)) := by
    decide +kernel
  rw [booted, Option.map_some, done, Option.map_some] at computed
  simp only [Option.some.injEq] at computed
  obtain ⟨stored, left, one⟩ := Option.map_eq_some_iff.mp computed
  obtain ⟨k1, tick1, first⟩ := k.ticks bigImage (by omega) ⟨3, 4⟩ ⟨0, 0⟩
  have init := tick1.terminalInit
  obtain ⟨k2, tick2, second⟩ := k1.ticks bigImage (by omega) ⟨5, 6⟩ ⟨0, 0⟩
  have here : k1.ta = 1 := by
    rw [tick1.ta, ta]
    rfl
  have next : k2.ta = 2 := by
    rw [tick2.ta, here]
    rfl
  obtain ⟨_, loads⟩ := always bigImage _ _ _ _ _ _ _ _ bigImage_present (setUpActs_booting booted)
    ((run.next turn).next first)
  obtain ⟨found, last, loaded, _⟩ := loads _ _ _ _ second
  have away : k.ta ≠ 2 := by
    rw [ta]
    decide
  rw [next, List.cons_append, List.cons_append, lastSwitchAway, if_neg away,
    lastSwitchAway_other 2 _ _ _ (by simp), left] at last
  cases last
  have running : k2.curPid = 2 := by
    rw [tick2.curPid, here, tick1.activePid, active]
    rfl
  have kept : k2.pcb 2 = k1.pcb 2 := tick2.otherPcb 2 (by rw [here, tick1.activePid, active]; decide)
  have saved := tick1.savedEbp
  rw [ta, active] at saved
  have read : (k2.pcb k2.curPid).curEbp = 3 := by
    rw [running, kept]
    exact saved
  rw [Reply.loaded.injEq, read, one] at loaded
  exact absurd loaded.1 (by decide)

end UnixLite
