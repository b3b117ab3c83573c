import Mathlib.Data.List.Basic

namespace LineEditor

variable {α : Type*} {capacity : Nat} {blank : α}

/-- The commands of a line editor. -/
inductive Edit (α : Type*)
  | type (c : α)
  | erase
  | clear

/-- The last of the `capacity` places of a line is kept for `enter`. -/
def Edit.apply [DecidableEq α] (capacity : Nat) (enter : α) : Edit α → List α → List α
  | .type c, chars =>
    if chars.length + 1 < capacity ∨ (chars.length + 1 = capacity ∧ c = enter) then chars ++ [c] else chars
  | .erase, chars => chars.dropLast
  | .clear, _ => []

/-- The line after a list of commands. -/
def applyAll [DecidableEq α] (capacity : Nat) (enter : α) (edits : List (Edit α)) (chars : List α) : List α :=
  edits.foldl (fun chars edit => edit.apply capacity enter chars) chars

/-- A buffer filled up to its index, with blanks behind. -/
structure WellFormed (blank : α) (buf : Fin capacity → α) (index : Nat) : Prop where
  bound : index ≤ capacity
  filled : ∀ i : Fin capacity, i.val < index → buf i ≠ blank
  rest : ∀ i : Fin capacity, index ≤ i.val → buf i = blank

/-- The buffer and its index hold the line. -/
structure Represents (blank : α) (buf : Fin capacity → α) (index : Nat) (chars : List α) : Prop where
  index : index = chars.length
  fits : chars.length ≤ capacity
  text : blank ∉ chars
  cells : ∀ i : Fin capacity, buf i = (chars[i.val]?).getD blank

theorem Represents.empty {buf : Fin capacity → α} (cells : ∀ i, buf i = blank) :
    Represents blank buf 0 [] where
  index := rfl
  fits := Nat.zero_le capacity
  text := List.not_mem_nil
  cells i := by simp [cells i]

theorem Represents.cell {buf : Fin capacity → α} {index : Nat} {chars : List α}
    (holds : Represents blank buf index chars) {i : Nat} (inside : i < chars.length)
    (inBuf : i < capacity) : buf ⟨i, inBuf⟩ = chars[i] := by
  rw [holds.cells]
  simp [inside]

theorem Represents.type {buf buf' : Fin capacity → α} {index : Nat} {chars : List α} {c : α}
    (holds : Represents blank buf index chars) (visible : c ≠ blank) (room : index < capacity)
    (written : ∀ i : Fin capacity, buf' i = if i.val = index then c else buf i) :
    Represents blank buf' (index + 1) (chars ++ [c]) where
  index := by simp [holds.index]
  fits := by
    have same := holds.index
    simp only [List.length_append, List.length_singleton]
    omega
  text := by
    have old := holds.text
    simp only [List.mem_append, List.mem_singleton, not_or]
    exact ⟨old, Ne.symm visible⟩
  cells i := by
    have same := holds.index
    rw [written, holds.cells]
    by_cases last : i.val = index
    · simp [last, same]
    · by_cases before : i.val < chars.length
      · simp [last, List.getElem?_append_left before]
      · have after : chars.length ≤ i.val := by omega
        have behind : (chars ++ [c]).length ≤ i.val := by
          rw [List.length_append, List.length_singleton]
          omega
        rw [if_neg last, List.getElem?_eq_none after, List.getElem?_eq_none behind]

theorem Represents.erase {buf buf' : Fin capacity → α} {index : Nat} {chars : List α}
    (holds : Represents blank buf index chars)
    (written : ∀ i : Fin capacity, buf' i = if i.val = index - 1 then blank else buf i) :
    Represents blank buf' (index - 1) chars.dropLast where
  index := by simp [holds.index]
  fits := by
    have fits := holds.fits
    simp only [List.length_dropLast]
    omega
  text member := holds.text (List.dropLast_subset chars member)
  cells i := by
    have same := holds.index
    rw [written, holds.cells, List.getElem?_dropLast]
    by_cases last : i.val = index - 1
    · simp [last, same]
    · by_cases before : i.val < chars.length - 1
      · simp [last, before]
      · have after : chars.length ≤ i.val := by omega
        simp [last, before, List.getElem?_eq_none after]

/-- A buffer holds some line exactly when it is well formed. -/
theorem represents_iff {buf : Fin capacity → α} {index : Nat} :
    (∃ chars, Represents blank buf index chars) ↔ WellFormed blank buf index := by
  constructor
  · rintro ⟨chars, holds⟩
    have same := holds.index
    refine ⟨by have := holds.fits; omega, ?_, ?_⟩
    · intro i inside empty
      have stored := holds.cell (i := i.val) (by omega) i.isLt
      exact holds.text (by rw [← empty, stored]; exact List.getElem_mem _)
    · intro i after
      rw [holds.cells, List.getElem?_eq_none (by omega)]
      rfl
  · intro good
    have bound := good.bound
    refine ⟨List.ofFn fun i : Fin index => buf ⟨i, by omega⟩, ?_⟩
    constructor
    case index => simp
    case fits => simpa using bound
    case text =>
      intro member
      obtain ⟨i, empty⟩ := List.mem_ofFn.mp member
      exact good.filled ⟨i, by omega⟩ i.isLt empty
    case cells =>
      intro i
      by_cases inside : i.val < index
      · simp [inside]
      · rw [List.getElem?_eq_none (by simpa using inside)]
        exact good.rest i (by omega)

end LineEditor
