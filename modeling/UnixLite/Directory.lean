import UnixLite.FileReads
import Mathlib.Data.List.TakeWhile

namespace UnixLite

open Transition

/-- The name in an entry: what stands before the first NUL, 32 characters at most. -/
def Dentry.name (d : Dentry) : List UInt8 := d.fileName.toList.takeWhile (· ≠ 0)

/-- The name of entry `i`, if there is such an entry. -/
def listedName (fs : FsImage) (i : Nat) : Option (List UInt8) :=
  if i < fs.numDirEntries.toNat then some (fs.dentryAt i).name else none

/-- No entry has an empty name. -/
def NamedEntries (fs : FsImage) : Prop := ∀ i name, listedName fs i = some name → name ≠ []

/-- A read gave a name with its length, or 0 at the end. -/
def Gives (entry : Option (List UInt8)) (v : Int) (out : List UInt8) : Prop :=
  match entry with
  | some name => v = name.length ∧ out.take name.length = name
  | none => v = 0

/-- A read gives one name only. -/
theorem Gives.unique {fs : FsImage} (named : NamedEntries fs) {i j : Nat} {v : Int} {out : List UInt8}
    (one : Gives (listedName fs i) v out) (other : Gives (listedName fs j) v out) :
    listedName fs i = listedName fs j := by
  cases first : listedName fs i with
  | none =>
    cases second : listedName fs j with
    | none => rfl
    | some name =>
      rw [first] at one
      rw [second] at other
      simp only [Gives] at one other
      have empty : name.length = 0 := by omega
      exact absurd (List.length_eq_zero_iff.mp empty) (named j name second)
  | some name =>
    cases second : listedName fs j with
    | none =>
      rw [first] at one
      rw [second] at other
      simp only [Gives] at one other
      have empty : name.length = 0 := by omega
      exact absurd (List.length_eq_zero_iff.mp empty) (named i name first)
    | some name' =>
      rw [first] at one
      rw [second] at other
      simp only [Gives] at one other
      have same : name.length = name'.length := by omega
      rw [← one.2, ← other.2, same]

/-- The string in a buffer ends at the first NUL. -/
theorem strlen_terminated {name rest : List UInt8} (text : 0 ∉ name) (small : name.length ≤ 2 ^ 32) :
    strlen (cString (name ++ 0 :: rest)) = name.length := by
  refine strlen_eq small (fun i inside => ?_) ?_
  · have char := cString_ne_zero text inside
    simp only [cString, List.getElem?_append_left inside] at char ⊢
    exact char
  · simp [cString]

theorem strlen_name {l : List UInt8} (short : l.length ≤ 32) :
    strlen (cString (l ++ [0])) = (l.takeWhile (· ≠ 0)).length := by
  have text : 0 ∉ l.takeWhile (· ≠ 0) := by
    intro zero
    simpa using List.mem_takeWhile_imp zero
  have bound : (l.takeWhile (· ≠ 0)).length ≤ l.length := (List.takeWhile_sublist _).length_le
  obtain ⟨rest, ends⟩ : ∃ rest, l.dropWhile (· ≠ 0) ++ [0] = 0 :: rest := by
    have stop := List.head?_dropWhile_not (· ≠ 0) l
    cases remaining : l.dropWhile (· ≠ 0) with
    | nil => exact ⟨[], rfl⟩
    | cons c rest =>
      rw [remaining] at stop
      have zero : c = 0 := by simpa using stop
      exact ⟨rest ++ [0], by rw [zero, List.cons_append]⟩
  have whole : l ++ [0] = l.takeWhile (· ≠ 0) ++ 0 :: rest := by
    rw [← ends, ← List.append_assoc, List.takeWhile_append_dropWhile]
  rw [whole]
  exact strlen_terminated text (by omega)

/-- `dir_read` gives the entry that the global index points to. -/
theorem Kernel.dirRead_gives (fs : FsImage) (k : Kernel) :
    Gives (listedName fs k.readIndex.toNat) (k.dirRead fs).2.1 (k.dirRead fs).2.2 := by
  unfold dirRead readDentryByIndex listedName
  by_cases finished : k.readIndex ≥ fs.numDirEntries
  · have beyond : ¬ k.readIndex.toNat < fs.numDirEntries.toNat := by
      simpa [BitVec.le_def] using finished
    rw [if_pos finished, if_neg beyond]
    rfl
  · have inside : k.readIndex.toNat < fs.numDirEntries.toNat := by
      simpa [BitVec.le_def] using finished
    rw [if_neg finished, if_pos inside]
    have short : (fs.dentryAt k.readIndex.toNat).fileName.toList.length ≤ 32 := by simp
    refine ⟨?_, ?_⟩
    · simp only [strlen_name short]
      rfl
    · have bound : ((fs.dentryAt k.readIndex.toNat).fileName.toList.takeWhile (· ≠ 0)).length ≤ _ :=
        (List.takeWhile_sublist _).length_le
      simp only [Dentry.name]
      rw [List.take_append_of_le_length bound]
      exact (List.prefix_iff_eq_take.mp (List.takeWhile_prefix _)).symm

end UnixLite
