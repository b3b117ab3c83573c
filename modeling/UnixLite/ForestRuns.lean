import UnixLite.Overruns
import UnixLite.ProcessForest

namespace UnixLite

open Transition

/-- The three base shells have been launched, one per terminal, and nothing else. -/
structure Launched (k : Kernel) : Prop where
  terminalInit : 3 ≤ k.terminalInit
  slots : ∀ p, 0 ≤ p → p ≤ 5 → k.pidArray p = if p ≤ 2 then 1 else 0
  shells : ∀ p, (0 ≤ p ∧ p ≤ 2) ↔ ∃ t, (k.terminals t).activePid = p
  apart : ∀ t u, (k.terminals t).activePid = (k.terminals u).activePid → t = u
  orphan : ∀ t, (k.pcb (k.terminals t).activePid).parentPid = -1
  running : k.curPid = (k.terminals k.ta).activePid

/-- The active processes of the terminals. -/
def Kernel.activePids (k : Kernel) (t : Fin 3) : Int := (k.terminals t).activePid

theorem Launching.launched {k : Kernel} (stage : Launching 3 k) : Launched k := by
  have active (t : Fin 3) : (k.terminals t).activePid = t.val := stage.active t t.isLt
  constructor
  case terminalInit => exact stage.terminalInit.ge
  case slots =>
    intro p lower upper
    rw [stage.slots p lower upper]
    have same : p < (3 : Nat) ↔ p ≤ 2 := by omega
    simp only [same]
  case shells =>
    intro p
    constructor
    · rintro ⟨lower, upper⟩
      refine ⟨⟨p.toNat, by omega⟩, ?_⟩
      rw [active]
      exact Int.toNat_of_nonneg lower
    · rintro ⟨t, rfl⟩
      have small := t.isLt
      rw [active]
      omega
  case apart =>
    intro t u same
    rw [active, active] at same
    exact Fin.ext (by omega)
  case orphan =>
    intro t
    rw [active]
    exact stage.orphan t t.isLt
  case running => rw [active]; exact stage.curPid

namespace ProcessForest

variable {fs : FsImage} {k k' : Kernel} {base : Fin 3 → Int} {forest : Stacks (Fin 3) Int}

/-- Each base shell alone on its terminal. -/
theorem launched (start : Launched k) : ∃ forest, ProcessForest k k.activePids forest ∧
    ∀ t, forest.stack t = [k.activePids t] := by
  refine ⟨⟨fun t => [k.activePids t], fun t => List.nodup_singleton _, ?_⟩, ?_, fun _ => rfl⟩
  · intro t u p inT inU
    exact start.apart t u ((List.mem_singleton.mp inT).symm.trans (List.mem_singleton.mp inU))
  constructor
  case lineage => exact fun t => .base (start.orphan t)
  case ends => exact fun t => rfl
  case range =>
    intro t p member
    have low := (start.shells p).mpr ⟨t, (List.mem_singleton.mp member).symm⟩
    omega
  case slots =>
    intro p lower upper
    have low := start.shells p
    have onStack : (∃ t, p ∈ [k.activePids t]) ↔ ∃ t, (k.terminals t).activePid = p := by
      simp only [List.mem_singleton, Kernel.activePids, eq_comm]
    rw [start.slots p lower upper, onStack, ← low]
    by_cases small : p ≤ 2
    · simp [small, lower]
    · simp [small]
  case bits =>
    intro p lower upper
    rw [start.slots p lower upper]
    split
    · exact Or.inr rfl
    · exact Or.inl rfl
  case bases => exact start.shells
  case running => exact start.running
  case setUp => exact start.terminalInit

/-- No process has the running one as its parent: that would come behind it
in its own chain. -/
theorem running_childless (ok : ProcessForest k base forest) {t : Fin 3} {q : Int}
    (member : q ∈ forest.stack t) : (k.pcb q).parentPid ≠ k.curPid := by
  intro child
  have lower := (ok.range _ _ ok.running_mem).1
  have below := (ok.lineage t).parent_in_tail member (by omega)
  rw [child] at below
  have same : t = k.ta := forest.disjoint t k.ta _ (List.mem_of_mem_tail below) ok.running_mem
  subst same
  obtain ⟨rest, chain⟩ := (ok.lineage k.ta).head
  have unique := forest.nodup k.ta
  rw [chain, ← ok.running] at unique below
  exact (List.nodup_cons.mp unique).1 below

/-- The slot freed by a base shell is the one its successor gets. -/
theorem freed_slot (ok : ProcessForest k base forest) (orphan : k.curPcb.parentPid = -1) :
    0 ≤ k.curPid ∧ k.curPid ≤ 2 ∧ freePid k.freeBase.pidArray = some k.curPid := by
  obtain ⟨lower, upper⟩ := (ok.bases k.curPid).mpr ⟨k.ta, (ok.running_base orphan).symm⟩
  refine ⟨lower, upper, freePid_eq lower (by omega) ?_ ?_⟩
  · simp [Kernel.freeBase]
  · intro q qLower below
    have taken := ok.low_taken qLower (by omega)
    have other : q ≠ k.curPid := by omega
    simp only [Kernel.freeBase, Function.update_of_ne other, taken]
    decide

/-- A base shell that halts is replaced in its own slot. -/
theorem restarted (ok : ProcessForest k base forest) (present : ShellPresent fs)
    (orphan : k.curPcb.parentPid = -1) {regs : Regs} {r : Reply}
    (run : (k.haltBase fs regs).outcome = some (k', r)) :
    k.freeBase.Started fs shell regs k.curPid k' ∧ ∃ eip, r = .entered eip := by
  obtain ⟨_, _, slot⟩ := ok.freed_slot orphan
  exact present.started slot run

/-- The forest with a base shell replaced is the one before. -/
theorem replaced (ok : ProcessForest k base forest) (orphan : k.curPcb.parentPid = -1)
    {regs : Regs} (run : k.freeBase.Started fs shell regs k.curPid k') :
    ProcessForest k' base forest := by
  obtain ⟨lower, upper, _⟩ := ok.freed_slot orphan
  have ta : k'.ta = k.ta := run.ta
  have others : ∀ q, q ≠ k.curPid → k'.pcb q = k.pcb q := run.otherPcb
  have activePid : (k'.terminals k.ta).activePid = k.curPid := run.activePid
  have otherTerminal : ∀ t, t ≠ k.ta → k'.terminals t = k.terminals t := run.otherTerminal
  refine ok.congr ?_ ?_ ?_ ?_ ?_
  · rw [run.pidArray]
    funext p
    by_cases same : p = k.curPid
    · rw [same, Function.update_self]
      exact (ok.low_taken lower upper).symm
    · rw [Function.update_of_ne same]
      simp [Kernel.freeBase, same]
  · intro p
    by_cases same : p = k.curPid
    · rw [same, run.parentPid, if_pos upper]
      exact orphan.symm
    · rw [others p same]
  · intro t
    by_cases here : t = k.ta
    · rw [here, activePid, ok.running]
    · rw [otherTerminal t here]
  · rw [run.curPid, ta, activePid]
  · rw [run.terminalInit]
    exact ok.setUp

/-- Every step keeps the forest or pushes or pops one process on the active
terminal's chain. -/
theorem step (ok : ProcessForest k base forest) (present : ShellPresent fs) {l : Act × Reply}
    (move : Step fs k l k') : ∃ next, ProcessForest k' base next := by
  cases step_effect move with
  | same _ _ _ frame => exact ⟨forest, ok.same frame⟩
  | started run =>
    obtain ⟨fresh, next⟩ := ok.started run
    exact ⟨_, next⟩
  | resumed child => exact ⟨_, ok.halted child k.haltBody_halted⟩
  | base orphan run => exact ⟨forest, ok.replaced orphan (ok.restarted present orphan run).1⟩
  | switched _ tick => exact ⟨forest, ok.switched tick⟩
  | setup inSetup => exact absurd ok.setUp (by omega)

theorem run (present : ShellPresent fs) {first : Kernel} (start : Launched first)
    {history : List Happening} (run : Runs fs first history k) :
    ∃ forest, ProcessForest k first.activePids forest := by
  obtain ⟨forest, alone, _⟩ := launched start
  exact run.invariant (fun k => ∃ forest, ProcessForest k first.activePids forest) ⟨forest, alone⟩
    (fun _ _ _ ⟨_, ok⟩ move => ok.step present move)

end ProcessForest

/-- In every state of a run from the launched system in which no image is too
long the processes form a chain per terminal ending in its base shell. The pid
given to a program is on no chain, no process that halts has a child, and a
base shell that halts is replaced by a fresh shell in its slot and on its
terminal. -/
theorem process_forest {fs : FsImage} (present : ShellPresent fs) {first k : Kernel}
    (start : Launched first) {history : List Happening} (run : Run (Turns fs) first history k)
    (fits : ∀ e ∈ history, ¬ Overlong fs e.pre e.act.1) :
    ∃ forest : Stacks (Fin 3) Int, ProcessForest k first.activePids forest ∧
      (∀ t q, q ∈ forest.stack t → (k.pcb q).parentPid ≠ k.curPid) ∧
      (∀ command regs eip k', Turns fs k (.execute command regs, .entered eip) k' → ¬ k.Overruns fs command →
        k.pidArray k'.curPid = 0 ∧
          ∃ fresh : forest.Fresh k'.curPid,
            ProcessForest k' first.activePids (forest.push k.ta k'.curPid fresh)) ∧
      (∀ status regs r k', Turns fs k (.halt status regs, r) k' → k.curPcb.parentPid ≠ -1 →
        ProcessForest k' first.activePids (forest.pop k.ta)) ∧
      (∀ status regs r k', Turns fs k (.halt status regs, r) k' → k.curPcb.parentPid = -1 →
        ¬ k.freeBase.Overruns fs shell →
        k.curPid = first.activePids k.ta ∧ (∃ eip, r = .entered eip) ∧
          k.freeBase.Started fs shell regs k.curPid k' ∧ ProcessForest k' first.activePids forest) := by
  obtain ⟨forest, ok⟩ := ProcessForest.run present start (runs_fit run fits)
  refine ⟨forest, ok, fun t q member => ok.running_childless member, ?_, ?_, ?_⟩
  · intro command regs eip k' turn short
    rcases step_execute (turn.fits short) with ⟨_, _, _, same⟩ | ⟨_, pid, _, started⟩
    · cases same
    · obtain ⟨_, _, free, _⟩ := freePid_some started.slot
      rw [started.curPid]
      exact ⟨free, ok.started started⟩
  · intro status regs r k' turn child
    rcases step_halt (turn.fits fun long => child long.1) with ⟨_, rfl, _⟩ | ⟨orphan, _⟩
    · exact ok.halted child k.haltBody_halted
    · exact absurd orphan child
  · intro status regs r k' turn orphan short
    rcases step_halt (turn.fits fun long => short long.2) with ⟨child, _⟩ | ⟨_, restarted⟩
    · exact absurd orphan child
    · obtain ⟨started, entered⟩ := ok.restarted present orphan restarted
      exact ⟨ok.running_base orphan, entered, started, ok.replaced orphan started⟩

/-- Programs executed by programs on two terminals, halts among them, and in
the end that of a base shell. -/
def nestedActs : List Act :=
  [.execute shell ⟨1, 1⟩, .execute shell ⟨2, 2⟩, .tick ⟨3, 3⟩ ⟨0, 0⟩, .execute shell ⟨4, 4⟩, .execute shell ⟨5, 5⟩,
    .tick ⟨6, 6⟩ ⟨0, 0⟩, .tick ⟨7, 7⟩ ⟨0, 0⟩, .halt 1 ⟨0, 0⟩, .halt 2 ⟨0, 0⟩, .halt 3 ⟨0, 0⟩]

/-- The system after the set-up and these acts: terminal 2 is back to its new
base shell, and the program of terminal 0 waits. -/
theorem process_forest_sample : ∃ (first k : Kernel) (history : List Happening)
    (forest : Stacks (Fin 3) Int), Run (Turns sampleImage) first history k ∧ history.length = 10 ∧
    ProcessForest k first.activePids forest ∧ k.ta = 2 ∧ [0, 1, 2, 3, 4, 5].map k.pidArray = [1, 1, 1, 0, 0, 1] ∧
    [k.curPid, (k.terminals 0).activePid, (k.pcb 5).parentPid] = [2, 5, 0] := by
  have computed : (performAll sampleImage setUpActs ([], sampleEntry)).map (fun b =>
      (performAll sampleImage nestedActs ([], b.2)).map fun r => (r.1.length, r.2.ta,
        [0, 1, 2, 3, 4, 5].map r.2.pidArray, [r.2.curPid, (r.2.terminals 0).activePid, (r.2.pcb 5).parentPid])) =
      some (some (10, 2, [1, 1, 1, 0, 0, 1], [2, 5, 0])) := by
    decide +kernel
  obtain ⟨b, booted, later⟩ := Option.map_eq_some_iff.mp computed
  obtain ⟨r, done, values⟩ := Option.map_eq_some_iff.mp later
  simp only [Prod.mk.injEq] at values
  have boot := setUpActs_booting booted
  have run : Run (Turns sampleImage) b.2 r.1 r.2 :=
    (performAll_run .start done).change fun _ _ step => .step step
  obtain ⟨forest, ok, _⟩ := process_forest sampleImage_fits.present (boot.launching sampleImage_fits.present).launched
    run fun e _ => no_overlong sampleImage_lengths e.pre e.act.1
  exact ⟨b.2, r.2, r.1, forest, run, values.1, ok, values.2⟩

/-- A program is executed and halted on terminal 2, whose tick comes then. -/
def partedActs : List Act := [.execute shell ⟨7, 8⟩, .halt 0 ⟨0, 0⟩, .tick ⟨1, 2⟩ ⟨0, 0⟩]

/-- The base shell of terminal 0 executes the big program. It gets the slot
that a program of terminal 2 has left, faults, and halts into the shell there. -/
theorem bigImage_strays : ∃ b r k ebp, performAll bigImage setUpActs ([], sampleEntry) = some b ∧
    performAll bigImage partedActs ([], b.2) = some r ∧
    Turns bigImage r.2 (.execute big ⟨0, 0⟩, .resumed ebp 256) k ∧ k.ta = 0 ∧ k.terminalInit = 4 ∧
    ∀ t, (k.terminals t).activePid = if t = 1 then 1 else 2 := by
  have computed : (performAll bigImage setUpActs ([], sampleEntry)).map (fun b =>
      (performAll bigImage partedActs ([], b.2)).map fun r => (r.2.ta, freePid r.2.pidArray,
        [(r.2.pcb 3).parentPid, (r.2.terminals 1).activePid, (r.2.terminals 2).activePid], r.2.terminalInit)) =
      some (some (0, some 3, [2, 1, 2], 4)) := by
    decide +kernel
  obtain ⟨b, booted, later⟩ := Option.map_eq_some_iff.mp computed
  obtain ⟨r, done, values⟩ := Option.map_eq_some_iff.mp later
  simp only [Prod.mk.injEq, List.cons.injEq, and_true] at values
  obtain ⟨ta, slot, ⟨parent, one, two⟩, count⟩ := values
  obtain ⟨image, k1, output, turn⟩ :=
    (bigImage_overruns slot).turn slot (by rw [parent]; decide) ⟨0, 0⟩
  have halt := k1.haltBody_halted
  have here : k1.ta = 0 := output.ta.trans ta
  have stale : k1.curPcb.parentPid = 2 := by
    rw [Kernel.curPcb, output.pcb, output.curPid]
    exact parent
  refine ⟨b, r, _, _, booted, done, turn, halt.video.ta.trans here, ?_, fun t => ?_⟩
  · rw [halt.video.terminalInit, output.terminalInit]
    exact count
  · by_cases zero : t = k1.ta
    · rw [zero, halt.activePid, stale, here]
      rfl
    · rw [halt.otherActive t zero, output.activePid]
      rw [here] at zero
      obtain rfl | rfl : t = 1 ∨ t = 2 := by omega
      · exact one
      · exact two

/-- Then two terminals have one process. -/
theorem process_forest_overrun : ¬ ∀ (fs : FsImage) (first k : Kernel) (history : List Happening),
    ShellPresent fs → Launched first → Run (Turns fs) first history k →
    ∃ forest : Stacks (Fin 3) Int, ProcessForest k first.activePids forest := by
  intro always
  obtain ⟨b, r, k, ebp, booted, done, turn, _, _, active⟩ := bigImage_strays
  have boot := setUpActs_booting booted
  have run : Run (Turns bigImage) b.2 r.1 r.2 := (performAll_run .start done).change fun _ _ step => .step step
  obtain ⟨forest, ok⟩ := always bigImage _ _ _ bigImage_present (boot.launching bigImage_present).launched
    (run.next turn)
  have zero := ok.active_mem 0
  have two := ok.active_mem 2
  rw [active] at zero two
  exact absurd (forest.disjoint 0 2 2 zero two) (by decide)

end UnixLite
