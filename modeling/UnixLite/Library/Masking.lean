import Mathlib.Data.List.Destutter

namespace Masking

/-- What one instruction did: the shared variable it wrote, if any, and the
interrupt flag after it. -/
structure Moment (ν : Type*) where
  write : Option ν
  flag : Bool

/-- A processor that runs a handler: the state, the interrupt flag, and the
moments since the handler was entered, the newest first. -/
structure Cpu (σ ν : Type*) where
  state : σ
  flag : Bool
  log : List (Moment ν)

namespace Cpu

variable {σ ν : Type*}

/-- A handler is entered. -/
def enter (state : σ) (flag : Bool) : Cpu σ ν := ⟨state, flag, []⟩

def cli (c : Cpu σ ν) : Cpu σ ν := { c with flag := false, log := ⟨none, false⟩ :: c.log }

def sti (c : Cpu σ ν) : Cpu σ ν := { c with flag := true, log := ⟨none, true⟩ :: c.log }

/-- An assignment to the shared variable `v`. -/
def set (c : Cpu σ ν) (v : ν) (f : σ → σ) : Cpu σ ν :=
  { c with state := f c.state, log := ⟨some v, c.flag⟩ :: c.log }

/-- Assignments to what is not shared. -/
def run (c : Cpu σ ν) (f : σ → σ) : Cpu σ ν :=
  { c with state := f c.state, log := ⟨none, c.flag⟩ :: c.log }

/-- The flag has been clear since the handler was entered. -/
def Quiet (c : Cpu σ ν) : Prop := ∀ m ∈ c.log, m.flag = false

/-- It has been clear, and it is. -/
def Masked (c : Cpu σ ν) : Prop := c.flag = false ∧ c.Quiet

/-- Up to every write to a shared variable the flag has been clear. -/
def Guarded (c : Cpu σ ν) : Prop :=
  ∀ m earlier, (m :: earlier) <:+ c.log → m.write ≠ none → ∀ n ∈ m :: earlier, n.flag = false

variable {c : Cpu σ ν}

theorem enter_quiet (state : σ) (flag : Bool) : (enter state flag : Cpu σ ν).Quiet := by
  intro m member
  cases member

theorem quiet_cons {m : Moment ν} {c' : Cpu σ ν} (log : c'.log = m :: c.log) :
    c'.Quiet ↔ m.flag = false ∧ c.Quiet := by
  rw [Quiet, log]
  exact List.forall_mem_cons

/-- One more moment is guarded if it is no write, and it is a guarded write if
the flag has been clear. -/
theorem guarded_cons {m : Moment ν} {c' : Cpu σ ν} (log : c'.log = m :: c.log) :
    c'.Guarded ↔ c.Guarded ∧ (m.write ≠ none → c'.Quiet) := by
  constructor
  · intro guarded
    refine ⟨fun n earlier tail => guarded n earlier ?_, fun write => ?_⟩
    · rw [log]
      exact tail.trans (List.suffix_cons m c.log)
    · rw [Quiet, log]
      exact guarded m c.log (log ▸ List.suffix_rfl) write
  · rintro ⟨guarded, last⟩ n earlier tail write
    rw [log] at tail
    rcases List.suffix_cons_iff.mp tail with same | inside
    · cases same
      have quiet := last write
      rw [Quiet, log] at quiet
      exact quiet
    · exact guarded n earlier inside write

theorem Quiet.guarded (quiet : c.Quiet) : c.Guarded :=
  fun _ _ tail _ n member => quiet n (tail.subset member)

theorem Masked.guarded (masked : c.Masked) : c.Guarded := masked.2.guarded

theorem guarded_cli : c.cli.Guarded ↔ c.Guarded :=
  (guarded_cons rfl).trans (and_iff_left fun write => absurd rfl write)

theorem guarded_sti : c.sti.Guarded ↔ c.Guarded :=
  (guarded_cons rfl).trans (and_iff_left fun write => absurd rfl write)

theorem guarded_run {f : σ → σ} : (c.run f).Guarded ↔ c.Guarded :=
  (guarded_cons rfl).trans (and_iff_left fun write => absurd rfl write)

theorem quiet_cli : c.cli.Quiet ↔ c.Quiet := (quiet_cons rfl).trans (and_iff_right rfl)

theorem not_quiet_sti : ¬ c.sti.Quiet := by
  rw [quiet_cons (c := c) rfl]
  rintro ⟨open_, _⟩
  cases open_

theorem quiet_set {v : ν} {f : σ → σ} : (c.set v f).Quiet ↔ c.Masked :=
  quiet_cons (m := ⟨some v, c.flag⟩) rfl

theorem quiet_run {f : σ → σ} : (c.run f).Quiet ↔ c.Masked :=
  quiet_cons (m := ⟨none, c.flag⟩) rfl

/-- An assignment is guarded exactly where the flag is and has been clear. -/
theorem guarded_set {v : ν} {f : σ → σ} : (c.set v f).Guarded ↔ c.Masked := by
  rw [guarded_cons (c := c) rfl, quiet_set]
  exact ⟨fun both => both.2 (by simp), fun masked => ⟨masked.guarded, fun _ => masked⟩⟩

theorem masked_cli : c.cli.Masked ↔ c.Quiet := (and_iff_right rfl).trans quiet_cli

theorem not_masked_sti : ¬ c.sti.Masked := fun masked => not_quiet_sti masked.2

theorem masked_set {v : ν} {f : σ → σ} : (c.set v f).Masked ↔ c.Masked := by
  rw [Masked, quiet_set]
  exact ⟨fun both => both.2, fun masked => ⟨masked.1, masked⟩⟩

theorem masked_run {f : σ → σ} : (c.run f).Masked ↔ c.Masked := by
  rw [Masked, quiet_run]
  exact ⟨fun both => both.2, fun masked => ⟨masked.1, masked⟩⟩

theorem destutter_head (l : List Bool) : (l.destutter (· ≠ ·)).head? = l.head? := by
  cases l with
  | nil => rfl
  | cons a l =>
    show (l.destutter' (· ≠ ·) a).head? = some a
    induction l with
    | nil => rfl
    | cons b l ih =>
      rw [List.destutter'_cons]
      split
      · rfl
      · exact ih

theorem destutter_push (a : Bool) (l : List Bool) : (a :: l).destutter (· ≠ ·) =
    if l.head? = some a then l.destutter (· ≠ ·) else a :: l.destutter (· ≠ ·) := by
  cases l with
  | nil => rfl
  | cons b l =>
    rw [List.destutter_cons_cons, List.head?_cons]
    by_cases same : b = a
    · rw [if_neg (not_not.mpr same.symm), if_pos (congrArg some same), same]
      rfl
    · rw [if_pos (Ne.symm same), if_neg fun eq => same (Option.some.inj eq)]
      rfl

/-- Since the handler was entered the flag has had these values, the newest
first, repetitions aside; it has the newest one now. -/
structure Traces (c : Cpu σ ν) (flags : List Bool) : Prop where
  now : flags.head? = some c.flag
  values : (c.log.map (·.flag)).destutter (· ≠ ·) = flags.destutter (· ≠ ·)

theorem Traces.next {flags : List Bool} (traced : c.Traces flags) {c' : Cpu σ ν} {m : Moment ν}
    (log : c'.log = m :: c.log) (flag : m.flag = c'.flag) : c'.Traces (m.flag :: flags) := by
  have heads : (c.log.map (·.flag)).head? = flags.head? := by
    rw [← destutter_head, traced.values, destutter_head]
  refine ⟨congrArg some flag, ?_⟩
  rw [log, List.map_cons, destutter_push, destutter_push, heads, traced.values]

/-- What leaves the flag alone adds no value. -/
theorem Traces.same {flags : List Bool} (traced : c.Traces flags) {c' : Cpu σ ν} {m : Moment ν}
    (log : c'.log = m :: c.log) (old : m.flag = c.flag) (flag : m.flag = c'.flag) : c'.Traces flags := by
  refine ⟨by rw [traced.now, ← old, flag], ?_⟩
  rw [(traced.next log flag).values, destutter_push, traced.now, if_pos (congrArg some old.symm)]

theorem Traces.cli {flags : List Bool} (traced : c.Traces flags) : c.cli.Traces (false :: flags) :=
  traced.next (m := ⟨none, false⟩) rfl rfl

theorem Traces.sti {flags : List Bool} (traced : c.Traces flags) : c.sti.Traces (true :: flags) :=
  traced.next (m := ⟨none, true⟩) rfl rfl

theorem Traces.set {flags : List Bool} (traced : c.Traces flags) {v : ν} {f : σ → σ} :
    (c.set v f).Traces flags := traced.same (m := ⟨some v, c.flag⟩) rfl rfl rfl

theorem Traces.run {flags : List Bool} (traced : c.Traces flags) {f : σ → σ} : (c.run f).Traces flags :=
  traced.same (m := ⟨none, c.flag⟩) rfl rfl rfl

/-- Behind the first `cli` the flag has been clear and nothing else, if it was. -/
theorem Quiet.traces_cli (quiet : c.Quiet) : c.cli.Traces [false] := by
  refine ⟨rfl, ?_⟩
  have clear : ∀ l : List (Moment ν), (∀ m ∈ l, m.flag = false) →
      ((false :: l.map (·.flag)).destutter (· ≠ ·)) = [false] := by
    intro l all
    induction l with
    | nil => rfl
    | cons m l ih =>
      have first : m.flag = false := all m (List.mem_cons_self ..)
      rw [List.map_cons, destutter_push, List.head?_cons, first, if_pos rfl]
      exact ih fun n member => all n (List.mem_cons_of_mem _ member)
  exact clear c.log quiet

theorem Traces.masked (traced : c.Traces [false]) : c.Masked := by
  have now : c.flag = false := (Option.some.inj traced.now).symm
  have clear : ∀ l : List Bool, l.destutter (· ≠ ·) = [false] → ∀ b ∈ l, b = false := by
    intro l all
    induction l with
    | nil => exact nofun
    | cons b l ih =>
      rw [destutter_push] at all
      split at all
      · rename_i head
        have rest := ih all
        have member : b ∈ l := List.mem_of_mem_head? head
        exact List.forall_mem_cons.mpr ⟨rest b member, rest⟩
      · obtain ⟨first, rest⟩ := List.cons.inj all
        rw [List.destutter_eq_nil] at rest
        rw [rest, first]
        exact List.forall_mem_cons.mpr ⟨rfl, nofun⟩
  exact ⟨now, fun m member => clear _ traced.values m.flag (List.mem_map_of_mem member)⟩

end Cpu

end Masking
