import Mathlib.Data.List.Basic
import Mathlib.Data.UInt

namespace UnixLite

/-- The memory a pointer to a NUL-terminated string sees. -/
def cString (s : List UInt8) (i : Nat) : UInt8 := (s[i]?).getD 0

def strlenFrom (s : Nat → UInt8) : Nat → Nat → Nat
  | 0, len => len
  | fuel + 1, len => if s len ≠ 0 then strlenFrom s fuel (len + 1) else len

/-- `strlen` of lib.c. The address space bounds the scan. -/
def strlen (s : Nat → UInt8) : Nat := strlenFrom s (2 ^ 32) 0

def strncmpFrom (s1 s2 : Nat → UInt8) : Nat → Nat → Int
  | 0, _ => 0
  | n + 1, i =>
    if s1 i ≠ s2 i ∨ s1 i = 0 then (s1 i).toInt8.toInt - (s2 i).toInt8.toInt
    else strncmpFrom s1 s2 n (i + 1)

/-- `strncmp` of lib.c; the difference is one of signed characters. -/
def strncmp (s1 s2 : Nat → UInt8) (n : Nat) : Int := strncmpFrom s1 s2 n 0

theorem strlenFrom_eq {s : Nat → UInt8} {fuel len stop : Nat} (within : stop ≤ len + fuel)
    (after : len ≤ stop) (chars : ∀ i, len ≤ i → i < stop → s i ≠ 0)
    (ends : s stop = 0) : strlenFrom s fuel len = stop := by
  induction fuel generalizing len with
  | zero =>
    have same : len = stop := by omega
    simp [strlenFrom, same]
  | succ fuel ih =>
    by_cases last : len = stop
    · simp [strlenFrom, last, ends]
    · have here := chars len (le_refl len) (by omega)
      simp only [strlenFrom, here, ne_eq, not_false_eq_true, if_true]
      exact ih (by omega) (by omega) (fun i lower upper => chars i (by omega) upper)

/-- The length is the index of the first NUL. -/
theorem strlen_eq {s : Nat → UInt8} {n : Nat} (small : n ≤ 2 ^ 32)
    (chars : ∀ i, i < n → s i ≠ 0) (ends : s n = 0) : strlen s = n :=
  strlenFrom_eq (by omega) (Nat.zero_le n) (fun i _ upper => chars i upper) ends

theorem strlenFrom_le {s : Nat → UInt8} {fuel len stop : Nat} (after : len ≤ stop)
    (ends : s stop = 0) : strlenFrom s fuel len ≤ stop := by
  induction fuel generalizing len with
  | zero => exact after
  | succ fuel ih =>
    by_cases char : s len ≠ 0
    · have further : len ≠ stop := by
        rintro rfl
        exact char ends
      rw [strlenFrom, if_pos char]
      exact ih (by omega)
    · rw [strlenFrom, if_neg char]
      exact after

/-- Any NUL bounds the length. -/
theorem strlen_le {s : Nat → UInt8} {stop : Nat} (ends : s stop = 0) : strlen s ≤ stop :=
  strlenFrom_le (Nat.zero_le stop) ends

theorem strlenFrom_ge {s : Nat → UInt8} {fuel len stop : Nat} (within : stop ≤ len + fuel)
    (chars : ∀ i, i < stop → s i ≠ 0) : stop ≤ strlenFrom s fuel len := by
  induction fuel generalizing len with
  | zero => exact within
  | succ fuel ih =>
    by_cases char : s len ≠ 0
    · rw [strlenFrom, if_pos char]
      exact ih (by omega)
    · rw [strlenFrom, if_neg char]
      by_contra short
      exact char (chars len (by omega))

theorem strlen_ge {s : Nat → UInt8} {n : Nat} (small : n ≤ 2 ^ 32) (chars : ∀ i, i < n → s i ≠ 0) :
    n ≤ strlen s :=
  strlenFrom_ge (by omega) chars

theorem strlenFrom_stop {s : Nat → UInt8} {fuel len : Nat} (short : strlenFrom s fuel len < len + fuel) :
    s (strlenFrom s fuel len) = 0 := by
  induction fuel generalizing len with
  | zero => exact absurd short (by simp [strlenFrom])
  | succ fuel ih =>
    by_cases char : s len ≠ 0
    · rw [strlenFrom, if_pos char] at short ⊢
      exact ih (by omega)
    · rw [strlenFrom, if_neg char]
      exact not_not.mp char

/-- A string that ends in the address space is followed by a NUL. -/
theorem strlen_stop {s : Nat → UInt8} (short : strlen s < 2 ^ 32) : s (strlen s) = 0 :=
  strlenFrom_stop (by rw [Nat.zero_add]; exact short)

theorem strlenFrom_chars {s : Nat → UInt8} {fuel len : Nat} (chars : ∀ i, i < len → s i ≠ 0) :
    ∀ i, i < strlenFrom s fuel len → s i ≠ 0 := by
  induction fuel generalizing len with
  | zero => exact chars
  | succ fuel ih =>
    by_cases char : s len ≠ 0
    · rw [strlenFrom, if_pos char]
      refine ih fun i below => ?_
      by_cases last : i = len
      · rw [last]
        exact char
      · exact chars i (by omega)
    · rw [strlenFrom, if_neg char]
      exact chars

/-- A string has no NUL in it. -/
theorem strlen_chars {s : Nat → UInt8} {i : Nat} (inside : i < strlen s) : s i ≠ 0 :=
  strlenFrom_chars (fun _ below => absurd below (Nat.not_lt_zero _)) i inside

/-- The characters of the string that a pointer points to. -/
def stringAt (s : Nat → UInt8) : List UInt8 := (List.range (strlen s)).map s

theorem stringAt_length (s : Nat → UInt8) : (stringAt s).length = strlen s := by
  simp [stringAt]

theorem stringAt_text (s : Nat → UInt8) : 0 ∉ stringAt s := by
  intro member
  obtain ⟨i, inside, zero⟩ := List.mem_map.mp member
  exact strlen_chars (List.mem_range.mp inside) zero

/-- The string from a place on is its character there and what follows. -/
theorem stringAt_drop {s : Nat → UInt8} {i : Nat} (inside : i < strlen s) :
    (stringAt s).drop i = s i :: (stringAt s).drop (i + 1) := by
  have within : i < (stringAt s).length := by rwa [stringAt_length]
  rw [List.drop_eq_getElem_cons within]
  simp [stringAt]

theorem strncmpFrom_eq_zero {s1 s2 : Nat → UInt8} {n i : Nat} : strncmpFrom s1 s2 n i = 0 ↔
    ∀ k, k < n → (∀ j, j < k → s1 (i + j) ≠ 0) → s1 (i + k) = s2 (i + k) := by
  induction n generalizing i with
  | zero => simp [strncmpFrom]
  | succ n ih =>
    unfold strncmpFrom
    by_cases differ : s1 i ≠ s2 i
    · rw [if_pos (Or.inl differ)]
      constructor
      · intro zero
        have same : (s1 i).toInt8 = (s2 i).toInt8 := Int8.toInt.inj (by omega)
        have back := congrArg Int8.toUInt8 same
        exact absurd back differ
      · intro agree
        exact absurd (agree 0 (by omega) (fun _ below => by omega)) differ
    · have same : s1 i = s2 i := not_not.mp differ
      by_cases ends : s1 i = 0
      · rw [if_pos (Or.inr ends), same, Int.sub_self, eq_self, true_iff]
        intro k _ chars
        by_cases first : k = 0
        · rw [first]
          exact same
        · exact absurd ends (chars 0 (by omega))
      · have goesOn : ¬ (s1 i ≠ s2 i ∨ s1 i = 0) := by
          rintro (other | zero)
          · exact differ other
          · exact ends zero
        rw [if_neg goesOn, ih]
        constructor
        · intro agree k inside chars
          cases k with
          | zero => exact same
          | succ k =>
            have next := agree k (by omega) fun j below => by
              have char := chars (j + 1) (by omega)
              rwa [show i + (j + 1) = i + 1 + j by omega] at char
            rwa [show i + 1 + k = i + (k + 1) by omega] at next
        · intro agree k inside chars
          have next := agree (k + 1) (by omega) fun j below => by
            cases j with
            | zero => exact ends
            | succ j =>
              have char := chars j (by omega)
              rwa [show i + 1 + j = i + (j + 1) by omega] at char
          rwa [show i + (k + 1) = i + 1 + k by omega] at next

/-- No difference is found exactly when the strings agree up to the first
NUL, or as far as they are compared. -/
theorem strncmp_eq_zero {s1 s2 : Nat → UInt8} {n : Nat} : strncmp s1 s2 n = 0 ↔
    ∀ k, k < n → (∀ j, j < k → s1 j ≠ 0) → s1 k = s2 k := by
  rw [strncmp, strncmpFrom_eq_zero]
  simp only [Nat.zero_add]

theorem cString_length (s : List UInt8) : cString s s.length = 0 := by
  simp [cString]

theorem cString_ne_zero {s : List UInt8} (text : 0 ∉ s) {i : Nat} (inside : i < s.length) :
    cString s i ≠ 0 := by
  simp only [cString, List.getElem?_eq_getElem inside, Option.getD_some]
  intro zero
  exact text (zero ▸ List.getElem_mem inside)

theorem cString_inside {s : List UInt8} {i : Nat} (inside : i < s.length) : cString s i = s[i] := by
  simp [cString, List.getElem?_eq_getElem inside]

theorem strlen_cString {s : List UInt8} (text : 0 ∉ s) (small : s.length ≤ 2 ^ 32) :
    strlen (cString s) = s.length :=
  strlen_eq small (fun _ inside => cString_ne_zero text inside) (cString_length s)

theorem stringAt_cString {s : List UInt8} (text : 0 ∉ s) (small : s.length ≤ 2 ^ 32) :
    stringAt (cString s) = s := by
  rw [stringAt, strlen_cString text small]
  refine List.ext_getElem (by simp) fun i inside within => ?_
  rw [List.getElem_map, List.getElem_range, cString_inside within]

end UnixLite
