import Mathlib.Data.List.Basic
import Mathlib.Logic.Relation
import UnixLite.Library.Clients

namespace Transition

/-- A program between its calls: it has returned, or it asks for something and
goes on with the answer. -/
inductive Program (Q A R : Type)
  | ret (r : R)
  | call (q : Q) (next : A → Program Q A R)

namespace Program

variable {Q A R S : Type}

def bind : Program Q A R → (R → Program Q A S) → Program Q A S
  | .ret r, f => f r
  | .call q next, f => .call q fun a => (next a).bind f

instance : Monad (Program Q A) where
  pure := .ret
  bind := .bind

/-- One call. -/
def ask (q : Q) : Program Q A A := .call q .ret

/-- A loop over a list that hands a value from round to round. -/
def rounds {α : Type} (l : List α) (f : R → α → Program Q A R) (r : R) : Program Q A R :=
  match l with
  | [] => .ret r
  | a :: rest => f r a >>= rounds rest f

def result : Program Q A R → Option R
  | .ret r => some r
  | .call _ _ => none

/-- A program as a client: it is what is left of it. -/
def client : Client (Program Q A R) Q A where
  ask
    | .ret _ => none
    | .call q _ => some q
  take x a :=
    match x with
    | .ret r => .ret r
    | .call _ next => next a

section Logic

variable {σ : Type*} (others : σ → σ → Prop) (serves : σ → Q → A → σ → Prop) (always : List (Q × A) → Prop)
  (ready : List (Q × A) → σ → Q → Prop)

/-- Wherever the program comes to from here, `always` holds of its calls, its next
call is `ready`, and in the end `post` holds, whatever the others do. -/
def Yields : Program Q A R → (R → List (Q × A) → σ → Prop) → List (Q × A) → σ → Prop
  | .ret r, post, calls, s => always calls ∧ ∀ s', Relation.ReflTransGen others s s' → post r calls s'
  | .call q next, post, calls, s => always calls ∧ ∀ s', Relation.ReflTransGen others s s' →
      ready calls s' q ∧ ∀ a t, serves s' q a t → Yields (next a) post ((q, a) :: calls) t

variable {others serves always ready} {x : Program Q A R} {f : R → Program Q A S} {r : R}
  {post mid : R → List (Q × A) → σ → Prop} {last : S → List (Q × A) → σ → Prop} {calls : List (Q × A)} {s s' : σ}

theorem Yields.now (yields : Yields others serves always ready x post calls s) : always calls := by
  cases x with
  | ret | call => exact yields.1

theorem Yields.stable (yields : Yields others serves always ready x post calls s)
    (moved : Relation.ReflTransGen others s s') : Yields others serves always ready x post calls s' := by
  cases x with
  | ret | call => exact ⟨yields.1, fun t later => yields.2 t (moved.trans later)⟩

/-- The rule of consequence. -/
theorem Yields.mono (yields : Yields others serves always ready x mid calls s)
    (weaker : ∀ r calls s, mid r calls s → post r calls s) : Yields others serves always ready x post calls s := by
  induction x generalizing calls s with
  | ret r => exact ⟨yields.1, fun t moved => weaker _ _ _ (yields.2 t moved)⟩
  | call q next ih =>
    refine ⟨yields.1, fun t moved => ?_⟩
    obtain ⟨isReady, answered⟩ := yields.2 t moved
    exact ⟨isReady, fun a u served => ih a (answered a u served)⟩

/-- The rule for one program behind another. -/
theorem Yields.bind (yields : Yields others serves always ready x mid calls s)
    (goesOn : ∀ r calls s, mid r calls s → Yields others serves always ready (f r) last calls s) :
    Yields others serves always ready (x >>= f) last calls s := by
  induction x generalizing calls s with
  | ret r => exact goesOn r calls s (yields.2 s .refl)
  | call q next ih =>
    refine ⟨yields.1, fun t moved => ?_⟩
    obtain ⟨isReady, answered⟩ := yields.2 t moved
    exact ⟨isReady, fun a u served => ih a (answered a u served)⟩

/-- The rule for a return: what holds must not be disturbed. -/
theorem Yields.ret (now : always calls) (holds : post r calls s)
    (kept : ∀ s s', post r calls s → others s s' → post r calls s') :
    Yields others serves always ready (pure r : Program Q A R) post calls s := by
  refine ⟨now, fun s' moved => ?_⟩
  induction moved with
  | refl => exact holds
  | tail _ move ih => exact kept _ _ ih move

/-- The rule for a call, with an assertion that the others do not disturb. -/
theorem Yields.ask {q : Q} {here : σ → Prop} {post : A → List (Q × A) → σ → Prop} (now : always calls) (holds : here s)
    (kept : ∀ s s', here s → others s s' → here s') (isReady : ∀ s, here s → ready calls s q)
    (answered : ∀ s a s', here s → serves s q a s' → always ((q, a) :: calls) ∧ post a ((q, a) :: calls) s')
    (stays : ∀ a s s', post a ((q, a) :: calls) s → others s s' → post a ((q, a) :: calls) s') :
    Yields others serves always ready (ask q) post calls s := by
  refine ⟨now, fun t moved => ?_⟩
  have still : here t := by
    induction moved with
    | refl => exact holds
    | tail _ move ih => exact kept _ _ ih move
  refine ⟨isReady t still, fun a u served => ?_⟩
  obtain ⟨next, ends⟩ := answered t a u still served
  exact Yields.ret next ends (stays a)

/-- Where a round of a loop stands. -/
theorem round_place {α : Type} {l made rest : List α} {a : α} (split : l = made ++ a :: rest) :
    l[made.length]? = some a ∧ made.length < l.length := by
  subst split
  simp

/-- The rule for a loop: an invariant over the rounds made so far. -/
theorem Yields.rounds {α : Type} {f : R → α → Program Q A R} {I : List α → R → List (Q × A) → σ → Prop}
    {l : List α} (now : always calls) (holds : I [] r calls s)
    (kept : ∀ made r calls s s', I made r calls s → others s s' → I made r calls s')
    (goesOn : ∀ made a rest, l = made ++ a :: rest → ∀ r calls s, always calls → I made r calls s →
      Yields others serves always ready (f r a) (fun r calls s => always calls ∧ I (made ++ [a]) r calls s) calls s) :
    Yields others serves always ready (rounds l f r) (I l) calls s := by
  have from_ (made rest : List α) (split : l = made ++ rest) (r : R) (calls : List (Q × A)) (s : σ)
      (now : always calls) (holds : I made r calls s) :
      Yields others serves always ready (Program.rounds rest f r) (I l) calls s := by
    induction rest generalizing made r calls s with
    | nil =>
      rw [List.append_nil] at split
      subst split
      exact Yields.ret now holds fun s s' => kept l r calls s s'
    | cons a rest ih =>
      refine (goesOn made a rest split r calls s now holds).bind fun r' calls' t both => ?_
      exact ih (made ++ [a]) (by rw [split, List.append_assoc]; rfl) r' calls' t both.1 both.2
  exact from_ [] l rfl r calls s now holds

/-- In every run with the program the logic holds of what is left of it. -/
theorem Yields.holds {history : List (Event (σ × Program Q A R) (Option (Q × A)))} {current : σ × Program Q A R}
    (run : Run (client.step others serves) (s, x) history current)
    (yields : Yields others serves always ready x post [] s) :
    Yields others serves always ready current.2 post (asked history) current.1 := by
  have outline : Client.Outline client others serves fun calls s (x : Program Q A R) =>
      Yields others serves always ready x post calls s := by
    constructor
    · intro calls s x s' held moved
      exact held.stable (.single moved)
    · intro calls s x q a s' held asks served
      cases x with
      | ret r => cases asks
      | call q' next =>
        cases asks
        exact (held.2 s .refl).2 a s' served
  exact outline.holds run yields

theorem Yields.returned (yields : Yields others serves always ready x post calls s) (ends : x.result = some r) :
    post r calls s := by
  cases x with
  | ret r' =>
    cases ends
    exact yields.2 s .refl
  | call => cases ends

theorem Yields.asks (yields : Yields others serves always ready x post calls s) {q : Q}
    (next : client.ask x = some q) : ready calls s q := by
  cases x with
  | ret => cases next
  | call q' rest =>
    cases next
    exact (yields.2 s .refl).1

end Logic

/-- The program makes at most `n` calls. -/
inductive AtMost : Nat → Program Q A R → Prop
  | ret (n : Nat) (r : R) : AtMost n (.ret r)
  | call {n : Nat} {q : Q} {next : A → Program Q A R} : (∀ a, AtMost n (next a)) → AtMost (n + 1) (.call q next)

section Bounds

variable {m n : Nat} {x : Program Q A R} {f : R → Program Q A S}

theorem AtMost.le (bound : AtMost n x) (room : n ≤ m) : AtMost m x := by
  induction bound generalizing m with
  | ret n r => exact .ret _ r
  | @call n q next _ ih =>
    obtain ⟨m, rfl⟩ : ∃ j, m = j + 1 := ⟨m - 1, by omega⟩
    exact .call fun a => ih a (Nat.le_of_succ_le_succ room)

theorem AtMost.bind (bound : AtMost m x) (rest : ∀ r, AtMost n (f r)) : AtMost (m + n) (x >>= f) := by
  induction bound with
  | ret m r =>
    exact (rest r).le (Nat.le_add_left _ _)
  | @call m q next _ ih =>
    rw [Nat.add_right_comm]
    exact .call ih

theorem AtMost.ask (q : Q) : AtMost 1 (ask q : Program Q A A) := .call fun a => .ret 0 a

theorem AtMost.rounds {α : Type} {f : R → α → Program Q A R} (each : ∀ r a, AtMost n (f r a)) (l : List α) (r : R) :
    AtMost (l.length * n) (rounds l f r) := by
  induction l generalizing r with
  | nil => exact .ret _ r
  | cons a rest ih =>
    rw [List.length_cons, Nat.succ_mul, Nat.add_comm]
    exact (each r a).bind ih

/-- What is left of the program can make the calls that are left. -/
theorem AtMost.holds {σ : Type*} {others : σ → σ → Prop} {serves : σ → Q → A → σ → Prop} {s : σ}
    {history : List (Event (σ × Program Q A R) (Option (Q × A)))} {current : σ × Program Q A R}
    (run : Run (client.step others serves) (s, x) history current) (bound : AtMost n x) :
    (asked history).length ≤ n := by
  have outline : Client.Outline client others serves fun calls _ (x : Program Q A R) =>
      ∃ left, AtMost left x ∧ calls.length + left ≤ n := by
    constructor
    · exact fun _ _ _ _ held _ => held
    · rintro calls s x q a s' ⟨left, most, room⟩ asks _
      cases most with
      | ret => cases asks
      | call rest =>
        cases asks
        exact ⟨_, rest a, by rw [List.length_cons]; omega⟩
  obtain ⟨left, _, room⟩ := outline.holds run ⟨n, bound, by simp⟩
  omega

end Bounds

section Cycles

variable {σ : Type*} {others : σ → σ → Prop} {serves : σ → Q → A → σ → Prop} {always : List (Q × A) → Prop}
  {ready : List (Q × A) → σ → Q → Prop} {body : R → Program Q A R} {I : R → List (Q × A) → σ → Prop}
  {x : Program Q A R} {calls : List (Q × A)} {s : σ}

end Cycles

end Program

end Transition
