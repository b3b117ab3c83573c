import Mathlib.Logic.Function.Basic
import Mathlib.Data.List.Nodup

/-- A family of stacks over one supply of elements: no element occurs twice,
neither in one stack nor in two. -/
structure Stacks (ι α : Type*) where
  stack : ι → List α
  nodup : ∀ i, (stack i).Nodup
  disjoint : ∀ i j a, a ∈ stack i → a ∈ stack j → i = j

namespace Stacks

variable {ι α : Type*} [DecidableEq ι]

/-- An element on none of the stacks. -/
def Fresh (s : Stacks ι α) (a : α) : Prop := ∀ i, a ∉ s.stack i

def push (s : Stacks ι α) (i : ι) (a : α) (fresh : s.Fresh a) : Stacks ι α where
  stack := Function.update s.stack i (a :: s.stack i)
  nodup j := by
    by_cases same : j = i
    · subst same
      simpa using ⟨fresh j, s.nodup j⟩
    · simpa [same] using s.nodup j
  disjoint j l b inJ inL := by
    by_cases sameJ : j = i <;> by_cases sameL : l = i
    · rw [sameJ, sameL]
    · subst sameJ
      simp only [Function.update_self, List.mem_cons, Function.update_of_ne sameL] at inJ inL
      rcases inJ with rfl | old
      · exact absurd inL (fresh l)
      · exact s.disjoint _ _ b old inL
    · subst sameL
      simp only [Function.update_self, List.mem_cons, Function.update_of_ne sameJ] at inJ inL
      rcases inL with rfl | old
      · exact absurd inJ (fresh j)
      · exact s.disjoint _ _ b inJ old
    · simp only [Function.update_of_ne sameJ, Function.update_of_ne sameL] at inJ inL
      exact s.disjoint _ _ b inJ inL

def pop (s : Stacks ι α) (i : ι) : Stacks ι α where
  stack := Function.update s.stack i (s.stack i).tail
  nodup j := by
    by_cases same : j = i
    · subst same
      simpa using (s.nodup j).tail
    · simpa [same] using s.nodup j
  disjoint j l b inJ inL := by
    have below {m : ι} (member : b ∈ Function.update s.stack i (s.stack i).tail m) :
        b ∈ s.stack m := by
      by_cases same : m = i
      · subst same
        exact List.mem_of_mem_tail (by simpa using member)
      · simpa [same] using member
    exact s.disjoint j l b (below inJ) (below inL)

theorem push_self (s : Stacks ι α) (i : ι) {a : α} (fresh : s.Fresh a) :
    (s.push i a fresh).stack i = a :: s.stack i := by
  simp [push]

theorem push_other (s : Stacks ι α) {i j : ι} {a : α} (fresh : s.Fresh a) (other : j ≠ i) :
    (s.push i a fresh).stack j = s.stack j := by
  simp [push, other]

theorem pop_self (s : Stacks ι α) (i : ι) : (s.pop i).stack i = (s.stack i).tail := by
  simp [pop]

theorem pop_other (s : Stacks ι α) {i j : ι} (other : j ≠ i) : (s.pop i).stack j = s.stack j := by
  simp [pop, other]

theorem mem_push (s : Stacks ι α) (i : ι) {a b : α} (fresh : s.Fresh a) :
    (∃ j, b ∈ (s.push i a fresh).stack j) ↔ b = a ∨ ∃ j, b ∈ s.stack j := by
  constructor
  · rintro ⟨j, member⟩
    by_cases same : j = i
    · subst same
      rw [push_self, List.mem_cons] at member
      exact member.imp_right fun old => ⟨j, old⟩
    · exact Or.inr ⟨j, push_other s fresh same ▸ member⟩
  · rintro (rfl | ⟨j, member⟩)
    · exact ⟨i, by simp [push_self]⟩
    · by_cases same : j = i
      · subst same
        exact ⟨j, by simp [push_self, member]⟩
      · exact ⟨j, by rwa [push_other s fresh same]⟩

/-- Popping frees exactly the top element. -/
theorem mem_pop (s : Stacks ι α) {i : ι} {a b : α} {rest : List α} (top : s.stack i = a :: rest) :
    (∃ j, b ∈ (s.pop i).stack j) ↔ b ≠ a ∧ ∃ j, b ∈ s.stack j := by
  have unique := s.nodup i
  rw [top, List.nodup_cons] at unique
  constructor
  · rintro ⟨j, member⟩
    by_cases same : j = i
    · subst same
      rw [pop_self, top, List.tail_cons] at member
      exact ⟨fun eq => unique.1 (eq ▸ member), j, by simp [top, member]⟩
    · rw [pop_other s same] at member
      refine ⟨fun eq => same (s.disjoint j i a (eq ▸ member) (by simp [top])), j, member⟩
  · rintro ⟨ne, j, member⟩
    by_cases same : j = i
    · subst same
      rw [top, List.mem_cons] at member
      exact ⟨j, by rw [pop_self, top]; exact member.resolve_left ne⟩
    · exact ⟨j, by rwa [pop_other s same]⟩

/-- Element `a` is on stack `i`, with `below` under it. -/
def Holds (s : Stacks ι α) (i : ι) (a : α) (below : List α) : Prop :=
  ∃ above, s.stack i = above ++ a :: below

omit [DecidableEq ι] in
theorem Holds.mem {s : Stacks ι α} {i : ι} {a b : α} {below : List α} (held : s.Holds i a below)
    (member : b ∈ a :: below) : b ∈ s.stack i := by
  obtain ⟨above, split⟩ := held
  rw [split]
  exact List.mem_append_right above member

theorem Holds.push {s : Stacks ι α} {i j : ι} {a b : α} {below : List α} (held : s.Holds i a below)
    (fresh : s.Fresh b) : (s.push j b fresh).Holds i a below := by
  obtain ⟨above, split⟩ := held
  by_cases here : i = j
  · subst here
    exact ⟨b :: above, by rw [push_self, split, List.cons_append]⟩
  · exact ⟨above, by rw [push_other s fresh here, split]⟩

/-- Popping another element leaves what lies under it. -/
theorem Holds.pop {s : Stacks ι α} {i j : ι} {a b : α} {below rest : List α}
    (held : s.Holds i a below) (top : s.stack j = b :: rest) (other : b ≠ a) :
    (s.pop j).Holds i a below := by
  obtain ⟨above, split⟩ := held
  by_cases here : i = j
  · subst here
    rw [top] at split
    cases above with
    | nil => exact absurd (List.cons.inj split).1 other
    | cons c above =>
      refine ⟨above, ?_⟩
      rw [pop_self, top, List.tail_cons]
      exact (List.cons.inj split).2
  · exact ⟨above, by rw [pop_other s here, split]⟩

omit [DecidableEq ι] in
/-- On top of its stack an element has the whole rest under it. -/
theorem Holds.top {s : Stacks ι α} {i j : ι} {a : α} {below rest : List α} (held : s.Holds i a below)
    (top : s.stack j = a :: rest) : j = i ∧ rest = below := by
  have here : j = i := s.disjoint j i a (by simp [top]) (held.mem (List.mem_cons_self ..))
  subst here
  obtain ⟨above, split⟩ := held
  have unique := s.nodup j
  rw [split, List.nodup_append] at unique
  rw [top] at split
  cases above with
  | nil => exact ⟨rfl, (List.cons.inj split).2⟩
  | cons c above =>
    obtain ⟨same, _⟩ := List.cons.inj split
    exact absurd same.symm (unique.2.2 c (List.mem_cons_self ..) a (List.mem_cons_self ..))

omit [DecidableEq ι] in
/-- What lies under an element is not on top of a stack. -/
theorem Holds.covered {s : Stacks ι α} {i j : ι} {a b : α} {below rest : List α}
    (held : s.Holds i a below) (member : b ∈ below) (top : s.stack j = b :: rest) : False := by
  have here : j = i :=
    s.disjoint j i b (by simp [top]) (held.mem (List.mem_cons_of_mem a member))
  subst here
  obtain ⟨above, split⟩ := held
  have unique := s.nodup j
  rw [top] at split unique
  obtain ⟨notInRest, _⟩ := List.nodup_cons.mp unique
  cases above with
  | nil =>
    obtain ⟨_, under⟩ := List.cons.inj split
    exact notInRest (under ▸ member)
  | cons c above =>
    obtain ⟨_, under⟩ := List.cons.inj split
    exact notInRest (under ▸ List.mem_append_right above (List.mem_cons_of_mem a member))

end Stacks
