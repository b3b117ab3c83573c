import Mathlib.Data.List.Basic

namespace Chunks

variable {α : Type*}

/-- Blocks of one size, laid end to end: an item is in the block that the
quotient names, at the place that the remainder names. -/
theorem flatMap_blocks (size count : Nat) (f : Nat → Nat → α) :
    ((List.range count).flatMap fun j => (List.range size).map (f j)) =
      (List.range (count * size)).map fun p => f (p / size) (p % size) := by
  induction count with
  | zero => simp
  | succ count ih =>
    have last : (List.range size).map (f count) =
        (List.range size).map ((fun p => f (p / size) (p % size)) ∘ (count * size + ·)) := by
      refine List.map_congr_left fun j inside => ?_
      have small := List.mem_range.mp inside
      have quotient : (count * size + j) / size = count := by
        rw [Nat.mul_comm, Nat.mul_add_div (by omega), Nat.div_eq_of_lt small, Nat.add_zero]
      have remainder : (count * size + j) % size = j := by
        rw [Nat.mul_comm, Nat.mul_add_mod, Nat.mod_eq_of_lt small]
      simp only [Function.comp_apply, quotient, remainder]
    rw [List.range_succ, List.flatMap_append, ih, Nat.succ_mul, List.range_add, List.map_append,
      List.map_map, List.flatMap_singleton, last]

/-- All that a series of reads gave, in order. A read is the count asked for
and the piece given; the newest comes first. -/
def given (reads : List (Nat × List α)) : List α := (reads.reverse.map Prod.snd).flatten

/-- Each read was given what comes next in the contents, as far as there is any. -/
inductive Served (content : List α) : List (Nat × List α) → Prop
  | start : Served content []
  | read {reads} (n : Nat) : Served content reads →
      Served content ((n, (content.drop (given reads).length).take n) :: reads)

theorem given_cons (n : Nat) (out : List α) (reads : List (Nat × List α)) :
    given ((n, out) :: reads) = given reads ++ out := by
  simp [given]

variable {content : List α} {reads : List (Nat × List α)}

/-- Nothing is lost and nothing comes twice. -/
theorem Served.given_take (served : Served content reads) :
    given reads = content.take (given reads).length := by
  induction served with
  | start => simp [given]
  | @read reads n earlier ih =>
    have joined : given reads ++ (content.drop (given reads).length).take n =
        content.take ((given reads).length + n) := by
      rw [List.take_add, ← ih]
    rw [given_cons, joined, List.length_take, ← List.take_eq_take_min]

theorem Served.given_length (served : Served content reads) : (given reads).length ≤ content.length := by
  have taken := congrArg List.length served.given_take
  rw [List.length_take] at taken
  omega

/-- The length of each piece. -/
theorem Served.piece (served : Served content reads) {later earlier : List (Nat × List α)} {n : Nat}
    {out : List α} (split : reads = later ++ (n, out) :: earlier) :
    out.length = min n (content.length - (given earlier).length) := by
  induction served generalizing later with
  | start => simp at split
  | read m rest ih =>
    cases later with
    | nil =>
      cases split
      rw [List.length_take, List.length_drop]
    | cons head later =>
      obtain ⟨_, tail⟩ := List.cons.inj split
      exact ih tail

end Chunks
