import UnixLite.Steps
import UnixLite.Library.Stacks

namespace UnixLite

open Transition

/-- The chain `p`, `parent_pid`, ... up to a process without a parent. -/
inductive Lineage (k : Kernel) : Int → List Int → Prop
  | base {p} : (k.pcb p).parentPid = -1 → Lineage k p [p]
  | child {p ancestors} : (k.pcb p).parentPid ≠ -1 →
      Lineage k (k.pcb p).parentPid ancestors → Lineage k p (p :: ancestors)

theorem Lineage.head {k : Kernel} {p : Int} {chain : List Int} (line : Lineage k p chain) :
    ∃ rest, chain = p :: rest := by
  cases line with
  | base => exact ⟨[], rfl⟩
  | child => exact ⟨_, rfl⟩

/-- A lineage reads only the parent links of its members. -/
theorem Lineage.congr {k k' : Kernel} {p : Int} {chain : List Int} (line : Lineage k p chain)
    (same : ∀ q ∈ chain, (k'.pcb q).parentPid = (k.pcb q).parentPid) : Lineage k' p chain := by
  induction line with
  | @base p orphan => exact .base ((same p (by simp)).trans orphan)
  | @child p ancestors linked older ih =>
    have link := same p (by simp)
    refine .child (by rwa [link]) ?_
    rw [link]
    exact ih (fun q member => same q (List.mem_cons_of_mem p member))

theorem Lineage.last_orphan {k : Kernel} {p last : Int} {chain : List Int}
    (line : Lineage k p chain) (ends : chain.getLast? = some last) :
    (k.pcb last).parentPid = -1 := by
  induction line with
  | base orphan =>
    cases Option.some.inj ends
    exact orphan
  | child linked older ih =>
    obtain ⟨rest, rfl⟩ := older.head
    exact ih (by simpa [List.getLast?_cons_cons] using ends)

/-- Only the last member of a lineage is without a parent. -/
theorem Lineage.orphan_last {k : Kernel} {p q : Int} {chain : List Int} (line : Lineage k p chain)
    (member : q ∈ chain) (orphan : (k.pcb q).parentPid = -1) : chain.getLast? = some q := by
  induction line with
  | base =>
    cases List.mem_singleton.mp member
    rfl
  | @child p ancestors linked older ih =>
    rcases List.mem_cons.mp member with rfl | inOlder
    · exact absurd orphan linked
    · obtain ⟨rest, rfl⟩ := older.head
      rw [List.getLast?_cons_cons]
      exact ih inOlder

theorem Lineage.orphan_alone {k : Kernel} {p : Int} {chain : List Int} (line : Lineage k p chain)
    (orphan : (k.pcb p).parentPid = -1) : chain.getLast? = some p := by
  obtain ⟨rest, shape⟩ := line.head
  exact line.orphan_last (shape ▸ List.mem_cons_self ..) orphan

/-- The parent of a member comes behind the head. -/
theorem Lineage.parent_in_tail {k : Kernel} {p q : Int} {chain : List Int}
    (line : Lineage k p chain) (member : q ∈ chain) (linked : (k.pcb q).parentPid ≠ -1) :
    (k.pcb q).parentPid ∈ chain.tail := by
  induction line with
  | base orphan =>
    cases List.mem_singleton.mp member
    exact absurd orphan linked
  | @child p ancestors _ older ih =>
    rcases List.mem_cons.mp member with rfl | inOlder
    · obtain ⟨rest, rfl⟩ := older.head
      simp
    · exact List.mem_of_mem_tail (ih inOlder)

/-- The processes form one chain per terminal, from its active process up to
its base shell `base t`; `pid_array` marks their pids and no others. -/
structure ProcessForest (k : Kernel) (base : Fin 3 → Int) (forest : Stacks (Fin 3) Int) : Prop where
  lineage : ∀ t, Lineage k (k.terminals t).activePid (forest.stack t)
  ends : ∀ t, (forest.stack t).getLast? = some (base t)
  range : ∀ t p, p ∈ forest.stack t → 0 ≤ p ∧ p ≤ 5
  slots : ∀ p, 0 ≤ p → p ≤ 5 → (k.pidArray p = 1 ↔ ∃ t, p ∈ forest.stack t)
  bits : ∀ p, 0 ≤ p → p ≤ 5 → k.pidArray p = 0 ∨ k.pidArray p = 1
  bases : ∀ p, (0 ≤ p ∧ p ≤ 2) ↔ ∃ t, base t = p
  running : k.curPid = (k.terminals k.ta).activePid
  setUp : 3 ≤ k.terminalInit

namespace ProcessForest

variable {fs : FsImage} {k k' : Kernel} {base : Fin 3 → Int} {forest : Stacks (Fin 3) Int}

theorem active_mem (ok : ProcessForest k base forest) (t : Fin 3) :
    (k.terminals t).activePid ∈ forest.stack t := by
  obtain ⟨rest, chain⟩ := (ok.lineage t).head
  simp [chain]

theorem running_mem (ok : ProcessForest k base forest) : k.curPid ∈ forest.stack k.ta :=
  ok.running ▸ ok.active_mem k.ta

theorem base_mem (ok : ProcessForest k base forest) (t : Fin 3) : base t ∈ forest.stack t :=
  List.mem_of_getLast? (ok.ends t)

/-- The slots of the three base shells are never free. -/
theorem low_taken (ok : ProcessForest k base forest) {p : Int} (lower : 0 ≤ p) (upper : p ≤ 2) :
    k.pidArray p = 1 := by
  obtain ⟨t, rfl⟩ := (ok.bases p).mp ⟨lower, upper⟩
  exact (ok.slots _ lower (by omega)).mpr ⟨t, ok.base_mem t⟩

theorem free_fresh (ok : ProcessForest k base forest) {p : Int} (lower : 0 ≤ p) (upper : p ≤ 5)
    (free : k.pidArray p = 0) : forest.Fresh p := by
  intro t member
  have taken := (ok.slots p lower upper).mpr ⟨t, member⟩
  omega

/-- The active processes of two terminals differ. -/
theorem active_ne (ok : ProcessForest k base forest) {t u : Fin 3} (ne : t ≠ u) :
    (k.terminals t).activePid ≠ (k.terminals u).activePid := by
  intro same
  exact ne (forest.disjoint t u _ (ok.active_mem t) (same ▸ ok.active_mem u))

theorem congr (ok : ProcessForest k base forest) (pidArray : k'.pidArray = k.pidArray)
    (parentPid : ∀ p, (k'.pcb p).parentPid = (k.pcb p).parentPid)
    (activePid : ∀ t, (k'.terminals t).activePid = (k.terminals t).activePid)
    (running : k'.curPid = (k'.terminals k'.ta).activePid) (setUp : 3 ≤ k'.terminalInit) :
    ProcessForest k' base forest where
  lineage t := by
    rw [activePid]
    exact (ok.lineage t).congr (fun q _ => parentPid q)
  ends := ok.ends
  range := ok.range
  slots p lower upper := by rw [pidArray]; exact ok.slots p lower upper
  bits p lower upper := by rw [pidArray]; exact ok.bits p lower upper
  bases := ok.bases
  running := running
  setUp := setUp

theorem same (ok : ProcessForest k base forest) (same : SameProcesses k k') :
    ProcessForest k' base forest :=
  ok.congr same.pidArray same.parentPid same.activePid
    (by rw [same.curPid, same.activePid, same.ta, ok.running])
    (by rw [same.terminalInit]; exact ok.setUp)

theorem switched (ok : ProcessForest k base forest) {regs : Regs} (tick : k.Switched regs k') :
    ProcessForest k' base forest :=
  ok.congr tick.pidArray tick.parentPid tick.activePid
    (by rw [tick.curPid, tick.activePid, tick.ta]) (by have := tick.terminalInit; omega)

/-- A program started by the running process gets a slot above those of the
base shells, so its parent is recorded. -/
theorem started_parent (ok : ProcessForest k base forest) {command : List UInt8} {regs : Regs}
    {pid : Int} (run : k.Started fs command regs pid k') : (k'.pcb pid).parentPid = k.curPid := by
  obtain ⟨lower, _, free, _⟩ := freePid_some run.slot
  have high : ¬ pid ≤ 2 := by
    intro low
    have taken := ok.low_taken lower low
    omega
  rw [run.parentPid, if_neg high]

/-- It tops the active terminal's chain. -/
theorem started (ok : ProcessForest k base forest) {command : List UInt8} {regs : Regs} {pid : Int}
    (run : k.Started fs command regs pid k') :
    ∃ fresh : forest.Fresh pid, ProcessForest k' base (forest.push k.ta pid fresh) := by
  obtain ⟨lower, upper, free, _⟩ := freePid_some run.slot
  have fresh := ok.free_fresh lower upper free
  have parent : (k'.pcb pid).parentPid = (k.terminals k.ta).activePid := by
    rw [ok.started_parent run, ok.running]
  have older : ∀ t, Lineage k' (k.terminals t).activePid (forest.stack t) := by
    intro t
    refine (ok.lineage t).congr (fun q member => ?_)
    rw [run.otherPcb q (fun eq => fresh t (eq ▸ member))]
  refine ⟨fresh, ?_⟩
  constructor
  case lineage =>
    intro t
    by_cases here : t = k.ta
    · subst here
      rw [run.activePid, Stacks.push_self]
      have inRange := ok.range _ _ (ok.active_mem k.ta)
      exact .child (by omega) (by rw [parent]; exact older k.ta)
    · rw [run.otherTerminal t here, Stacks.push_other forest fresh here]
      exact older t
  case ends =>
    intro t
    by_cases here : t = k.ta
    · subst here
      obtain ⟨rest, chain⟩ := (ok.lineage k.ta).head
      rw [Stacks.push_self, chain, List.getLast?_cons_cons, ← chain]
      exact ok.ends k.ta
    · rw [Stacks.push_other forest fresh here]
      exact ok.ends t
  case range =>
    intro t p member
    rcases (Stacks.mem_push forest k.ta fresh).mp ⟨t, member⟩ with rfl | ⟨u, old⟩
    · exact ⟨lower, upper⟩
    · exact ok.range u p old
  case slots =>
    intro p pLower pUpper
    rw [run.pidArray, Stacks.mem_push]
    by_cases new : p = pid
    · simp [new]
    · simp only [Function.update_of_ne new, new, false_or]
      exact ok.slots p pLower pUpper
  case bits =>
    intro p pLower pUpper
    rw [run.pidArray]
    by_cases new : p = pid
    · simp [new]
    · rw [Function.update_of_ne new]
      exact ok.bits p pLower pUpper
  case bases => exact ok.bases
  case running => rw [run.curPid, run.ta, run.activePid]
  case setUp => rw [run.terminalInit]; exact ok.setUp

/-- A process with a parent is the top of a chain that goes on below it. -/
theorem running_chain (ok : ProcessForest k base forest) (child : k.curPcb.parentPid ≠ -1) :
    ∃ rest, forest.stack k.ta = k.curPid :: rest ∧ Lineage k k.curPcb.parentPid rest := by
  have line := ok.lineage k.ta
  rw [← ok.running] at line
  generalize forest.stack k.ta = chain at line ⊢
  cases line with
  | base orphan => exact absurd orphan child
  | child _ older => exact ⟨_, rfl, older⟩

theorem halted (ok : ProcessForest k base forest) (child : k.curPcb.parentPid ≠ -1)
    (halt : k.Halted k') : ProcessForest k' base (forest.pop k.ta) := by
  obtain ⟨rest, chain, older⟩ := ok.running_chain child
  obtain ⟨above, restChain⟩ := older.head
  have popped : (forest.pop k.ta).stack k.ta = rest := by
    rw [Stacks.pop_self, chain, List.tail_cons]
  have freed : ∀ p, (∃ t, p ∈ (forest.pop k.ta).stack t) ↔ p ≠ k.curPid ∧ ∃ t, p ∈ forest.stack t :=
    fun p => Stacks.mem_pop forest chain
  constructor
  case lineage =>
    intro t
    by_cases here : t = k.ta
    · subst here
      rw [halt.activePid, popped]
      exact older.congr (fun q _ => halt.parentPid q)
    · rw [halt.otherActive t here, Stacks.pop_other forest here]
      exact (ok.lineage t).congr (fun q _ => halt.parentPid q)
  case ends =>
    intro t
    by_cases here : t = k.ta
    · subst here
      have ends := ok.ends k.ta
      rw [chain, restChain, List.getLast?_cons_cons] at ends
      rw [popped, restChain]
      exact ends
    · rw [Stacks.pop_other forest here]
      exact ok.ends t
  case range =>
    intro t p member
    obtain ⟨_, u, old⟩ := (freed p).mp ⟨t, member⟩
    exact ok.range u p old
  case slots =>
    intro p pLower pUpper
    rw [halt.pidArray, freed]
    by_cases dead : p = k.curPid
    · simp [dead]
    · simp only [Function.update_of_ne dead, ne_eq, dead, not_false_eq_true, true_and]
      exact ok.slots p pLower pUpper
  case bits =>
    intro p pLower pUpper
    rw [halt.pidArray]
    by_cases dead : p = k.curPid
    · simp [dead]
    · rw [Function.update_of_ne dead]
      exact ok.bits p pLower pUpper
  case bases => exact ok.bases
  case running => rw [halt.curPid, halt.video.ta, halt.activePid]
  case setUp => rw [halt.video.terminalInit]; exact ok.setUp

/-- A running process without a parent is its terminal's base shell. -/
theorem running_base (ok : ProcessForest k base forest) (orphan : k.curPcb.parentPid = -1) :
    k.curPid = base k.ta := by
  have last := (ok.lineage k.ta).orphan_last ok.running_mem orphan
  exact Option.some.inj (last.symm.trans (ok.ends k.ta))

end ProcessForest

end UnixLite
