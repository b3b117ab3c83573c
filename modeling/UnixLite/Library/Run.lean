import Mathlib.Logic.Function.Basic
import Mathlib.Data.List.Basic

namespace Transition

variable {σ α : Type*}

/-- One recorded step: the state before it, the action, the state after it. -/
structure Event (σ α : Type*) where
  pre : σ
  act : α
  post : σ

/-- Finite runs of a labelled transition relation. The history records
every step taken, the newest first. -/
inductive Run (step : σ → α → σ → Prop) (first : σ) : List (Event σ α) → σ → Prop
  | start : Run step first [] first
  | next {history s a s'} : Run step first history s → step s a s' →
      Run step first (⟨s, a, s'⟩ :: history) s'

/-- A list of inputs taken one after the other, with the steps recorded. -/
def replay {β : Type*} (next : σ → β → Option (α × σ)) :
    List β → List (Event σ α) × σ → Option (List (Event σ α) × σ)
  | [], r => some r
  | b :: rest, r =>
    match next r.2 b with
    | some (a, s) => replay next rest (⟨r.2, a, s⟩ :: r.1, s)
    | none => none

variable {step : σ → α → σ → Prop} {first current : σ} {history : List (Event σ α)}

theorem replay_run {β : Type*} {next : σ → β → Option (α × σ)}
    (sound : ∀ s b a s', next s b = some (a, s') → step s a s') {inputs : List β}
    {r result : List (Event σ α) × σ} (run : Run step first r.1 r.2)
    (done : replay next inputs r = some result) : Run step first result.1 result.2 := by
  induction inputs generalizing r with
  | nil =>
    cases done
    exact run
  | cons b rest ih =>
    unfold replay at done
    split at done
    · rename_i a s taken
      exact ih (run.next (sound _ _ _ _ taken)) done
    · cases done

/-- The same for inputs that are answered: the label is the input with its answer. -/
theorem replay_run_answers {β ρ : Type*} {perform : σ → β → Option (σ × ρ)} {inputs : List β}
    {r result : List (Event σ (β × ρ)) × σ}
    (run : Run (fun s l s' => perform s l.1 = some (s', l.2)) first r.1 r.2)
    (done : replay (fun s b => (perform s b).map fun t => ((b, t.2), t.1)) inputs r = some result) :
    Run (fun s l s' => perform s l.1 = some (s', l.2)) first result.1 result.2 := by
  refine replay_run (fun s b l s' taken => ?_) run done
  obtain ⟨after, moved, same⟩ := Option.map_eq_some_iff.mp taken
  cases same
  exact moved

/-- A run that goes on from where another one ended. -/
theorem Run.append {last : σ} {later : List (Event σ α)} (run : Run step first history current)
    (more : Run step current later last) : Run step first (later ++ history) last := by
  induction more with
  | start => exact run
  | next _ move ih => exact ih.next move

/-- The induction principle for properties that look back at the steps taken,
in runs whose steps are all allowed. -/
theorem Run.history_invariant_of_events (run : Run step first history current)
    (inv : List (Event σ α) → σ → Prop) (ok : σ → α → Prop) (base : inv [] first)
    (preserved : ∀ past s a s', Run step first past s → inv past s → ok s a → step s a s' →
      inv (⟨s, a, s'⟩ :: past) s')
    (allowed : ∀ e ∈ history, ok e.pre e.act) : inv history current := by
  induction run with
  | start => exact base
  | next previous move ih =>
    have old := ih (fun e member => allowed e (List.mem_cons_of_mem _ member))
    exact preserved _ _ _ _ previous old (allowed _ (List.mem_cons_self ..)) move

theorem Run.history_invariant (run : Run step first history current)
    (inv : List (Event σ α) → σ → Prop) (base : inv [] first)
    (preserved : ∀ past s a s', Run step first past s → inv past s → step s a s' →
      inv (⟨s, a, s'⟩ :: past) s') : inv history current :=
  run.history_invariant_of_events inv (fun _ _ => True) base
    (fun past s a s' reach held _ move => preserved past s a s' reach held move) (fun _ _ => trivial)

theorem Run.invariant (run : Run step first history current) (inv : σ → Prop)
    (base : inv first) (preserved : ∀ s a s', inv s → step s a s' → inv s') : inv current :=
  run.history_invariant (fun _ s => inv s) base (fun _ s a s' _ held move => preserved s a s' held move)

/-- Steps that were taken are steps of another relation if they are so one by one. -/
theorem Run.change {other : σ → α → σ → Prop} (run : Run step first history current)
    (each : ∀ e ∈ history, step e.pre e.act e.post → other e.pre e.act e.post) : Run other first history current := by
  induction run with
  | start => exact .start
  | next _ move ih =>
    exact (ih fun e member => each e (List.mem_cons_of_mem _ member)).next (each _ (List.mem_cons_self ..) move)

/-- A recorded step was taken from a state that the run had reached with the
steps recorded before it. -/
theorem Run.event_of_suffix (run : Run step first history current) {e : Event σ α}
    {past : List (Event σ α)} (tail : (e :: past) <:+ history) :
    Run step first past e.pre ∧ step e.pre e.act e.post := by
  induction run with
  | start => simp at tail
  | @next earlier s a s' previous move ih =>
    rcases List.suffix_cons_iff.mp tail with same | inside
    · cases same
      exact ⟨previous, move⟩
    · exact ih inside

theorem Run.event_reached (run : Run step first history current) {e : Event σ α}
    (member : e ∈ history) :
    ∃ past, Run step first past e.pre ∧ step e.pre e.act e.post ∧ (e :: past) <:+ history := by
  obtain ⟨later, past, split⟩ := List.append_of_mem member
  have tail : (e :: past) <:+ history := ⟨later, split.symm⟩
  obtain ⟨reach, taken⟩ := run.event_of_suffix tail
  exact ⟨past, reach, taken, tail⟩

/-- When every allowed step keeps the invariant, and from a state satisfying it
a step is good exactly when it is allowed, then all steps of a run are good
exactly when all are allowed. -/
theorem Run.good_iff_allowed (run : Run step first history current)
    (inv : List (Event σ α) → σ → Prop) (good : List (Event σ α) → Event σ α → Prop)
    (ok : σ → α → Prop) (base : inv [] first)
    (exact_step : ∀ past s a s', inv past s → step s a s' →
      (good past ⟨s, a, s'⟩ ↔ ok s a) ∧ (ok s a → inv (⟨s, a, s'⟩ :: past) s')) :
    (∀ past e, (e :: past) <:+ history → good past e) ↔ ∀ e ∈ history, ok e.pre e.act := by
  induction run with
  | start => simp
  | @next earlier s a s' previous move ih =>
    have reached (old : ∀ e ∈ earlier, ok e.pre e.act) : inv earlier s :=
      previous.history_invariant_of_events inv ok base
        (fun past u b u' _ held allowed taken => (exact_step past u b u' held taken).2 allowed) old
    simp only [List.mem_cons, forall_eq_or_imp]
    constructor
    · intro all
      have old := ih.mp (fun past e tail => all past e (tail.trans (List.suffix_cons _ _)))
      have last := all earlier ⟨s, a, s'⟩ List.suffix_rfl
      exact ⟨(exact_step _ _ _ _ (reached old) move).1.mp last, old⟩
    · rintro ⟨now, old⟩ past e tail
      rcases List.suffix_cons_iff.mp tail with same | inside
      · cases same
        exact (exact_step _ _ _ _ (reached old) move).1.mpr now
      · exact ih.mpr old past e inside

/-- The same for what a step shows without its past. -/
theorem Run.each_iff_allowed (run : Run step first history current)
    (inv : List (Event σ α) → σ → Prop) (good : Event σ α → Prop) (ok : σ → α → Prop)
    (base : inv [] first)
    (exact_step : ∀ past s a s', inv past s → step s a s' →
      (good ⟨s, a, s'⟩ ↔ ok s a) ∧ (ok s a → inv (⟨s, a, s'⟩ :: past) s')) :
    (∀ e ∈ history, good e) ↔ ∀ e ∈ history, ok e.pre e.act := by
  rw [← run.good_iff_allowed inv (fun _ e => good e) ok base exact_step]
  constructor
  · exact fun all past e tail => all e (tail.subset (List.mem_cons_self ..))
  · intro all e member
    obtain ⟨later, past, split⟩ := List.append_of_mem member
    exact all past e ⟨later, split.symm⟩

/-- The same for the invariant itself: a run visits only states satisfying
it exactly when all its steps are allowed. -/
theorem Run.invariant_iff_events (run : Run step first history current) (inv : σ → Prop)
    (ok : σ → α → Prop) (base : inv first)
    (exact_step : ∀ s a s', inv s → step s a s' → (inv s' ↔ ok s a)) :
    (∀ e ∈ history, inv e.post) ↔ ∀ e ∈ history, ok e.pre e.act :=
  run.each_iff_allowed (fun _ s => inv s) (fun e => inv e.post) ok base
    (fun _ s a s' held move => ⟨exact_step s a s' held move, (exact_step s a s' held move).mpr⟩)

/-- A run either took allowed steps only, and then what these keep still holds,
or one of its steps was not, and then what the first such step broke is still
broken. -/
theorem Run.kept_or_broken (run : Run step first history current)
    (kept broken : List (Event σ α) → σ → Prop) (ok : σ → α → Prop) (base : kept [] first)
    (keeps : ∀ past s a s', kept past s → ok s a → step s a s' → kept (⟨s, a, s'⟩ :: past) s')
    (breaks : ∀ past s a s', kept past s → ¬ ok s a → step s a s' → broken (⟨s, a, s'⟩ :: past) s')
    (stays : ∀ past s a s', broken past s → step s a s' → broken (⟨s, a, s'⟩ :: past) s') :
    ((∀ e ∈ history, ok e.pre e.act) ∧ kept history current) ∨
      ((∃ e ∈ history, ¬ ok e.pre e.act) ∧ broken history current) := by
  induction run with
  | start => exact Or.inl ⟨by simp, base⟩
  | @next past s a s' _ move ih =>
    rcases ih with ⟨allowed, held⟩ | ⟨⟨e, member, refused⟩, lost⟩
    · by_cases now : ok s a
      · refine Or.inl ⟨?_, keeps _ _ _ _ held now move⟩
        intro e member
        rcases List.mem_cons.mp member with rfl | old
        · exact now
        · exact allowed e old
      · exact Or.inr ⟨⟨_, List.mem_cons_self .., now⟩, breaks _ _ _ _ held now move⟩
    · exact Or.inr ⟨⟨e, List.mem_cons_of_mem _ member, refused⟩, stays _ _ _ _ lost move⟩

/-- Two counts over one list, the second of which counts no more, are equal
exactly when it counts no less. -/
theorem countP_eq_iff {p q : α → Bool} {l : List α} (sub : ∀ a ∈ l, q a = true → p a = true) :
    l.countP p = l.countP q ↔ ∀ a ∈ l, p a = true → q a = true := by
  induction l with
  | nil => simp
  | cons a rest ih =>
    have le := List.countP_mono_left fun b member => sub b (List.mem_cons_of_mem _ member)
    have tail := ih fun b member => sub b (List.mem_cons_of_mem _ member)
    have head := sub a (List.mem_cons_self ..)
    rw [List.forall_mem_cons, ← tail, List.countP_cons, List.countP_cons]
    by_cases inP : p a = true
    · by_cases inQ : q a = true
      · simp [inP, inQ]
      · simp [inP, inQ]
        omega
    · have notQ : ¬ q a = true := fun inQ => inP (head inQ)
      simp [inP, notQ]

end Transition
