import UnixLite.Library.Run

namespace Transition

variable {σ γ Q A : Type*}

/-- A program that asks a server: what it asks for in a state, if it asks for
anything, and how it goes on with the answer. -/
structure Client (γ Q A : Type*) where
  ask : γ → Option Q
  take : γ → A → γ

/-- The calls of the client with their answers, the newest first. -/
def asked (history : List (Event (σ × γ) (Option (Q × A)))) : List (Q × A) := history.filterMap (·.act)

namespace Client

/-- One step of a server with its client: the client is served, or something
else happens to the server. -/
def step (c : Client γ Q A) (others : σ → σ → Prop) (serves : σ → Q → A → σ → Prop) (x : σ × γ)
    (l : Option (Q × A)) (y : σ × γ) : Prop :=
  match l with
  | none => others x.1 y.1 ∧ y.2 = x.2
  | some (q, a) => c.ask x.2 = some q ∧ serves x.1 q a y.1 ∧ y.2 = c.take x.2 a

variable {c : Client γ Q A} {others : σ → σ → Prop} {serves : σ → Q → A → σ → Prop}

/-- A proof outline: an assertion about the calls made, the server and the
client that nothing else disturbs and that every answer takes to the next. -/
structure Outline (c : Client γ Q A) (others : σ → σ → Prop) (serves : σ → Q → A → σ → Prop)
    (inv : List (Q × A) → σ → γ → Prop) : Prop where
  stable : ∀ calls s g s', inv calls s g → others s s' → inv calls s' g
  served : ∀ calls s g q a s', inv calls s g → c.ask g = some q → serves s q a s' →
    inv ((q, a) :: calls) s' (c.take g a)

variable {inv : List (Q × A) → σ → γ → Prop} {first current : σ × γ}
  {history : List (Event (σ × γ) (Option (Q × A)))}

/-- The assertion holds wherever a run with the client has come to. -/
theorem Outline.holds (outline : Outline c others serves inv)
    (run : Run (c.step others serves) first history current) (base : inv [] first.1 first.2) :
    inv (asked history) current.1 current.2 := by
  refine run.history_invariant (fun past x => inv (asked past) x.1 x.2) base ?_
  rintro past ⟨s, g⟩ l ⟨s', g'⟩ _ held move
  cases l with
  | none =>
    obtain ⟨moved, same⟩ := move
    simp only at moved same
    subst same
    exact outline.stable _ _ _ _ held moved
  | some call =>
    obtain ⟨asks, answered, same⟩ := move
    simp only at asks answered same
    subst same
    exact outline.served _ _ _ _ _ _ held asks answered

/-- The client's next call or another step of the server, as a script says. -/
def next {β : Type*} (c : Client γ Q A) (serve : σ → Q → Option (A × σ)) (other : σ → β → Option σ) (x : σ × γ) :
    Option β → Option (Option (Q × A) × (σ × γ))
  | none => (c.ask x.2).bind fun q => (serve x.1 q).map fun r => (some (q, r.1), (r.2, c.take x.2 r.1))
  | some b => (other x.1 b).map fun s => (none, (s, x.2))

theorem next_step {β : Type*} {serve : σ → Q → Option (A × σ)} {other : σ → β → Option σ}
    (sound : ∀ s q a s', serve s q = some (a, s') → serves s q a s')
    (soundOther : ∀ s b s', other s b = some s' → others s s') {x y : σ × γ} {b : Option β} {l : Option (Q × A)}
    (taken : c.next serve other x b = some (l, y)) : c.step others serves x l y := by
  cases b with
  | none =>
    obtain ⟨q, asks, answered⟩ := Option.bind_eq_some_iff.mp taken
    obtain ⟨r, served, same⟩ := Option.map_eq_some_iff.mp answered
    cases same
    exact ⟨asks, sound _ _ _ _ served, rfl⟩
  | some b =>
    obtain ⟨s, moved, same⟩ := Option.map_eq_some_iff.mp taken
    cases same
    exact ⟨soundOther _ _ _ moved, rfl⟩

end Client

end Transition
