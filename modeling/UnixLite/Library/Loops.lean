import Mathlib.Data.Option.Basic

namespace Loops

variable {σ ρ : Type*} {body : σ → σ ⊕ ρ}

/-- A loop whose body goes on from another state or leaves with a result,
given up after `fuel` rounds. -/
def loop (body : σ → σ ⊕ ρ) : Nat → σ → Option ρ
  | 0, _ => none
  | fuel + 1, s =>
    match body s with
    | .inl again => loop body fuel again
    | .inr result => some result

theorem loop_mono {fuel more : Nat} {s : σ} {r : ρ} (ended : loop body fuel s = some r)
    (enough : fuel ≤ more) : loop body more s = some r := by
  induction fuel generalizing more s with
  | zero => cases ended
  | succ fuel ih =>
    obtain ⟨more, rfl⟩ : ∃ n, more = n + 1 := ⟨more - 1, by omega⟩
    unfold loop at ended ⊢
    split at ended
    · exact ih ended (by omega)
    · exact ended

/-- The loop left from `s` comes out with `r`. -/
def Ends (body : σ → σ ⊕ ρ) (s : σ) (r : ρ) : Prop := ∃ fuel, loop body fuel s = some r

theorem Ends.done {s : σ} {r : ρ} (leaves : body s = .inr r) : Ends body s r := by
  refine ⟨1, ?_⟩
  rw [loop, leaves]

theorem Ends.next {s again : σ} {r : ρ} (rest : Ends body again r) (goes : body s = .inl again) :
    Ends body s r := by
  obtain ⟨fuel, ended⟩ := rest
  refine ⟨fuel + 1, ?_⟩
  rw [loop, goes]
  exact ended

/-- However much fuel there is, the loop does not come out with anything else. -/
theorem Ends.unique {s : σ} {r r' : ρ} {fuel : Nat} (ends : Ends body s r)
    (other : loop body fuel s = some r') : r' = r := by
  obtain ⟨enough, ended⟩ := ends
  have here := loop_mono ended (Nat.le_max_left enough fuel)
  have there := loop_mono other (Nat.le_max_right enough fuel)
  exact Option.some.inj (there.symm.trans here)

/-- What `s` comes out with is what the state it goes on to comes out with. -/
def Leads (body : σ → σ ⊕ ρ) (s s' : σ) : Prop := ∀ r, Ends body s' r → Ends body s r

theorem Leads.next {s s' s'' : σ} (rest : Leads body s' s'') (goes : body s = .inl s') : Leads body s s'' :=
  fun r ends => (rest r ends).next goes

theorem Leads.refl (s : σ) : Leads body s s := fun _ ends => ends

/-- What a round leaves comes out with `r`. -/
def Comes (body : σ → σ ⊕ ρ) (x : σ ⊕ ρ) (r : ρ) : Prop :=
  match x with
  | .inl s => Ends body s r
  | .inr result => result = r

/-- A loop that ends does so from every state that it goes through. -/
theorem Ends.comes {s : σ} {r : ρ} (ends : Ends body s r) : Comes body (body s) r := by
  obtain ⟨fuel, ended⟩ := ends
  cases fuel with
  | zero => cases ended
  | succ fuel =>
    unfold loop at ended
    split at ended
    · rename_i again goes
      rw [goes]
      exact ⟨fuel, ended⟩
    · rename_i result leaves
      rw [leaves]
      exact Option.some.inj ended

/-- What every round keeps, up to the result. -/
theorem Ends.keeps {s : σ} {r : ρ} (ends : Ends body s r) (inv : σ → Prop) (out : ρ → Prop) (base : inv s)
    (again : ∀ s s', inv s → body s = .inl s' → inv s') (leaves : ∀ s r, inv s → body s = .inr r → out r) : out r := by
  obtain ⟨fuel, ended⟩ := ends
  induction fuel generalizing s with
  | zero => cases ended
  | succ fuel ih =>
    unfold loop at ended
    split at ended
    · rename_i s' goes
      exact ih (again s s' base goes) ended
    · rename_i result done
      cases ended
      exact leaves s r base done

end Loops
