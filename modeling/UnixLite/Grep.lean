import UnixLite.Numbers
import UnixLite.Library.Loops
import UnixLite.Library.Store
import Mathlib.Data.List.Infix

namespace UnixLite

open Loops Store

def ece391StrncmpFrom (s1 s2 : Nat → UInt8) : Nat → Nat → Int
  | 0, _ => 0
  | n + 1, i =>
    if s1 i ≠ s2 i then (s1 i).toNat - (s2 i).toNat
    else if s1 i = 0 then 0
    else ece391StrncmpFrom s1 s2 n (i + 1)

def ece391Strncmp (s1 s2 : Nat → UInt8) (n : Nat) : Int := ece391StrncmpFrom s1 s2 n 0

def strcpyFrom : Nat → (Nat → UInt8) → Nat → Nat → Nat → UInt8
  | 0, mem, _, _ => mem
  | fuel + 1, mem, dst, src =>
    if mem src = 0 then Function.update mem dst (mem src)
    else strcpyFrom fuel (Function.update mem dst (mem src)) (dst + 1) (src + 1)

/-- `ece391_strcpy` inside one array, where source and target may overlap. -/
def ece391Strcpy (mem : Nat → UInt8) (dst src : Nat) : Nat → UInt8 := strcpyFrom (2 ^ 32) mem dst src

/-- The bytes that `ece391_fdputs` writes. -/
def ece391Fdputs (s : Nat → UInt8) : List UInt8 := (List.range (ece391Strlen s)).map s

/-- The variables of `do_one_file`, the bytes of the file that are still to be
read and the bytes written so far. -/
structure Grep where
  data : Nat → UInt8
  last : Nat
  left : List UInt8
  out : List UInt8

namespace Grep

/-- The `while` that looks for the end of the line. -/
def findEnd (data : Nat → UInt8) (last : Nat) : Nat → Nat → Nat
  | 0, lineEnd => lineEnd
  | fuel + 1, lineEnd =>
    if lineEnd < last ∧ data lineEnd ≠ 10 then findEnd data last fuel (lineEnd + 1) else lineEnd

/-- `ece391_read` gives what was asked for or all that is left. -/
def read (g : Grep) : Grep × Nat :=
  let bytes := g.left.take (1024 - g.last)
  ({ g with data := storeList g.data g.last bytes, last := g.last + bytes.length,
            left := g.left.drop (1024 - g.last) }, bytes.length)

/-- The test at one place of the line. The first comparison is of a `char`,
which is signed, with a `uint8_t`. -/
def matchesAt (s : Nat → UInt8) (data : Nat → UInt8) (check : Nat) : Bool :=
  (s 0).toInt8.toInt == (data check).toNat && ece391Strncmp (fun i => data (check + i)) s (ece391Strlen s) == 0

/-- The `for` that searches the line; it prints at the first place found. -/
def search (s fname : Nat → UInt8) (lineStart lineEnd : Nat) (g : Grep) : Grep :=
  if (List.range' lineStart (lineEnd - lineStart)).any (matchesAt s g.data) then
    { g with out := g.out ++ ece391Fdputs fname ++ [58] ++ ece391Fdputs (fun i => g.data (lineStart + i)) ++ [10] }
  else g

/-- Out of the inner loop: the file is at its end when nothing was read. -/
def leave (cnt : Nat) (g : Grep) : (Grep × Option (Nat × Nat)) ⊕ Grep :=
  if cnt = 0 then .inr g else .inl (g, none)

/-- The two nested loops as one: a round of the outer one starts with a read,
the inner one is at `line_start` with `cnt` bytes read. -/
def body (s fname : Nat → UInt8) : Grep × Option (Nat × Nat) → (Grep × Option (Nat × Nat)) ⊕ Grep
  | (g, none) => .inl (g.read.1, some (0, g.read.2))
  | (g, some (lineStart, cnt)) =>
    let lineEnd := findEnd g.data g.last (g.last - lineStart) lineStart
    if g.data lineEnd ≠ 10 ∧ cnt ≠ 0 ∧ lineStart ≠ 0 then
      leave cnt { g with data := ece391Strcpy (Function.update g.data lineEnd 0) 0 lineStart,
                         last := g.last - lineStart }
    else
      let g := search s fname lineStart lineEnd { g with data := Function.update g.data lineEnd 0 }
      if g.last ≤ lineEnd + 1 then leave cnt { g with last := 0 } else .inl (g, some (lineEnd + 1, cnt))

end Grep

/-- `do_one_file` on a file that is not there or has this content; `data` is
what the array holds on entry. What it prints and what it returns; no read and
no close fails. -/
def doOneFile (fuel : Nat) (s fname data : Nat → UInt8) : Option (List UInt8) → Option (List UInt8 × Int)
  | none => some ("file open failed\n".toList.map Char.toUInt8, -1)
  | some content => (loop (Grep.body s fname) fuel (⟨data, 0, content, []⟩, none)).map fun g => (g.out, 0)

theorem ece391Fdputs_eq (s : Nat → UInt8) : ece391Fdputs s = stringAt s := rfl

/-- The comparison with unsigned characters finds the same strings equal. -/
theorem ece391StrncmpFrom_eq_zero {s1 s2 : Nat → UInt8} {n i : Nat} :
    ece391StrncmpFrom s1 s2 n i = 0 ↔ strncmpFrom s1 s2 n i = 0 := by
  induction n generalizing i with
  | zero => exact Iff.rfl
  | succ n ih =>
    unfold ece391StrncmpFrom strncmpFrom
    by_cases differ : s1 i ≠ s2 i
    · rw [if_pos differ, if_pos (Or.inl differ)]
      constructor
      · intro zero
        exact absurd (UInt8.toNat_inj.mp (by omega)) differ
      · intro zero
        have same : (s1 i).toInt8 = (s2 i).toInt8 := Int8.toInt.inj (by omega)
        exact absurd (congrArg Int8.toUInt8 same) differ
    · have same : s1 i = s2 i := not_not.mp differ
      rw [if_neg differ]
      by_cases ends : s1 i = 0
      · rw [if_pos ends, if_pos (Or.inr ends), same, Int.sub_self]
      · have goesOn : ¬ (s1 i ≠ s2 i ∨ s1 i = 0) := not_or.mpr ⟨differ, ends⟩
        rw [if_neg ends, if_neg goesOn]
        exact ih

/-- A signed and an unsigned character are equal only below 0x80. -/
theorem signed_eq_iff {c d : UInt8} : c.toInt8.toInt = d.toNat ↔ c < 0x80 ∧ c = d := by
  have value : c.toInt8.toInt = if 2 * c.toNat < 2 ^ 8 then (c.toNat : Int) else (c.toNat : Int) - (2 ^ 8 : Nat) :=
    BitVec.toInt_eq_toNat_cond c.toBitVec
  have small := c.toNat_lt
  have below : c < 0x80 ↔ c.toNat < 128 := UInt8.lt_iff_toNat_lt
  rw [value, below, ← UInt8.toNat_inj]
  split <;> omega

theorem StringAt.congr {cells cells' : Nat → UInt8} {p : Nat} {str : List UInt8} (holds : StringAt cells p str)
    (same : ∀ x, p ≤ x → x ≤ p + str.length → cells' x = cells x) : StringAt cells' p str where
  chars i inside := (same _ (by omega) (by omega)).trans (holds.chars i inside)
  plain := holds.plain
  ends := (same _ (by omega) (by omega)).trans holds.ends

/-- Copying a string towards the front of the array. -/
theorem strcpyFrom_moves {fuel dst src : Nat} {mem : Nat → UInt8} {str : List UInt8} (enough : str.length < fuel)
    (ahead : dst < src) (holds : StringAt mem src str) :
    StringAt (strcpyFrom fuel mem dst src) dst str ∧
      ∀ x, x < dst ∨ dst + str.length < x → strcpyFrom fuel mem dst src x = mem x := by
  induction str generalizing fuel dst src mem with
  | nil =>
    obtain ⟨fuel, rfl⟩ : ∃ n, fuel = n + 1 := ⟨fuel - 1, by simp at enough; omega⟩
    have ends : mem src = 0 := holds.ends
    rw [strcpyFrom, if_pos ends]
    refine ⟨⟨by simp, by simp, ?_⟩, fun x outside => ?_⟩
    · simp [ends]
    · exact Function.update_of_ne (by simp at outside; omega) _ _
  | cons c str ih =>
    obtain ⟨fuel, rfl⟩ : ∃ n, fuel = n + 1 := ⟨fuel - 1, by simp at enough; omega⟩
    rw [List.length_cons] at enough
    have first : mem src = c := holds.chars 0 (by simp)
    have char : mem src ≠ 0 := by
      rw [first]
      exact holds.plain c (List.mem_cons_self ..)
    rw [strcpyFrom, if_neg char]
    have rest : StringAt (Function.update mem dst (mem src)) (src + 1) str :=
      holds.tail.congr fun x inside _ => Function.update_of_ne (by omega) _ _
    have left : str.length < fuel := by omega
    have closer : dst + 1 < src + 1 := by omega
    obtain ⟨moved, others⟩ := ih left closer rest
    refine ⟨.cons ?_ (first ▸ char) moved, fun x outside => ?_⟩
    · rw [others dst (Or.inl (Nat.lt_succ_self _)), Function.update_self, first]
    · rw [List.length_cons] at outside
      rw [others x (by omega), Function.update_of_ne (by omega)]

theorem StringAt.fdputs {cells : Nat → UInt8} {p : Nat} {str : List UInt8} (holds : StringAt cells p str)
    (short : str.length ≤ 2 ^ 32) : ece391Fdputs (fun i => cells (p + i)) = str := by
  have length : ece391Strlen (fun i => cells (p + i)) = str.length := holds.strlen_eq short
  refine List.ext_getElem (by simp [ece391Fdputs, length]) fun i _ inside => ?_
  simp only [ece391Fdputs, List.getElem_map, List.getElem_range]
  exact holds.chars i inside

namespace Grep

/-- The array holds these bytes from `a` on. -/
def Holds (data : Nat → UInt8) (a : Nat) (bytes : List UInt8) : Prop :=
  ∀ i (inside : i < bytes.length), data (a + i) = bytes[i]

section Buffer

variable {data data' : Nat → UInt8} {a : Nat} {bytes : List UInt8}

theorem Holds.append {more : List UInt8} (holds : Holds data a bytes)
    (behind : Holds data (a + bytes.length) more) : Holds data a (bytes ++ more) := by
  intro i inside
  rw [List.length_append] at inside
  by_cases early : i < bytes.length
  · rw [List.getElem_append_left early]
    exact holds i early
  · have late := behind (i - bytes.length) (by omega)
    rw [List.getElem_append_right (by omega), ← late]
    congr 1
    omega

theorem Holds.left {more : List UInt8} (holds : Holds data a (bytes ++ more)) : Holds data a bytes := by
  intro i inside
  rw [holds i (by rw [List.length_append]; omega), List.getElem_append_left inside]

theorem Holds.right {more : List UInt8} (holds : Holds data a (bytes ++ more)) :
    Holds data (a + bytes.length) more := by
  intro i inside
  have here := holds (bytes.length + i) (by rw [List.length_append]; omega)
  rw [List.getElem_append_right (by omega)] at here
  rw [Nat.add_assoc, here]
  congr 1
  omega

theorem Holds.congr (holds : Holds data a bytes) (same : ∀ x, a ≤ x → x < a + bytes.length → data' x = data x) :
    Holds data' a bytes :=
  fun i inside => (same _ (by omega) (by omega)).trans (holds i inside)

/-- Bytes in the array with a NUL behind them are a string. -/
theorem Holds.stringAt (holds : Holds data a bytes) (plain : 0 ∉ bytes) :
    StringAt (Function.update data (a + bytes.length) 0) a bytes where
  chars i inside := by
    rw [Function.update_of_ne (by omega)]
    exact holds i inside
  plain c member := fun zero => plain (zero ▸ member)
  ends := Function.update_self ..

theorem findEnd_eq {last fuel : Nat} (holds : Holds data a bytes) (line : 10 ∉ bytes)
    (enough : bytes.length ≤ fuel) (within : a + bytes.length ≤ last)
    (stops : a + bytes.length = last ∨ data (a + bytes.length) = 10) :
    findEnd data last fuel a = a + bytes.length := by
  induction bytes generalizing fuel a with
  | nil =>
    have stop : ¬ (a < last ∧ data a ≠ 10) := by
      rintro ⟨before, char⟩
      rcases stops with atEnd | newline
      · simp at atEnd
        omega
      · exact char newline
    cases fuel with
    | zero => rfl
    | succ fuel => rw [findEnd, if_neg stop]; rfl
  | cons c bytes ih =>
    obtain ⟨fuel, rfl⟩ : ∃ n, fuel = n + 1 := ⟨fuel - 1, by simp at enough; omega⟩
    rw [List.mem_cons, not_or] at line
    rw [List.length_cons] at enough within stops
    have next : a + (bytes.length + 1) = a + 1 + bytes.length := by omega
    rw [next] at within stops
    have first : data a = c := holds 0 (by simp)
    have goes : a < last ∧ data a ≠ 10 := by
      rw [first]
      exact ⟨by omega, fun newline => line.1 newline.symm⟩
    have whole : Holds data a ([c] ++ bytes) := holds
    have rest : Holds data (a + 1) bytes := whole.right
    rw [findEnd, if_pos goes, ih rest line.2 (by omega) within stops, List.length_cons, next]

/-- The pattern that the search finds. One with a first character from 0x80 on
is never found, as if it were a NUL, which is in no line. -/
def sought (pattern : List UInt8) : List UInt8 := if pattern.headD 0 < 0x80 then pattern else [0]

theorem sought_ne {pattern : List UInt8} (nonempty : pattern ≠ []) : sought pattern ≠ [] := by
  unfold sought
  split
  · exact nonempty
  · exact List.cons_ne_nil 0 []

theorem stringAt_head {s : Nat → UInt8} (pattern : stringAt s ≠ []) : (stringAt s).headD 0 = s 0 := by
  have positive := List.length_pos_of_ne_nil pattern
  rw [List.headD_eq_head?_getD, List.head?_eq_getElem?, List.getElem?_eq_getElem positive]
  simp [stringAt]

/-- The test at a place of a line succeeds when the pattern is there and its first character is small. -/
theorem matchesAt_stringAt {s : Nat → UInt8} {str : List UInt8} {i : Nat} (pattern : stringAt s ≠ [])
    (holds : StringAt data a str) (inside : i < str.length) :
    matchesAt s data (a + i) = true ↔ s 0 < 0x80 ∧
      (stringAt s).length + i ≤ str.length ∧
        ∀ k (within : k < (stringAt s).length), str[k + i]? = some (stringAt s)[k] := by
  have length : ece391Strlen s = (stringAt s).length := (stringAt_length s).symm
  have char (k : Nat) (within : k < (stringAt s).length) : (stringAt s)[k] = s k := by simp [stringAt]
  have place (k : Nat) : a + i + k = a + (k + i) := by omega
  have compare : ece391Strncmp (fun k => data (a + i + k)) s (stringAt s).length = 0 ↔
      ∀ k, k < (stringAt s).length → (∀ j, j < k → data (a + i + j) ≠ 0) → data (a + i + k) = s k :=
    ece391StrncmpFrom_eq_zero.trans strncmp_eq_zero
  have positive : 0 < (stringAt s).length := List.length_pos_of_ne_nil pattern
  unfold matchesAt
  rw [Bool.and_eq_true, beq_iff_eq, beq_iff_eq, signed_eq_iff, length, compare]
  constructor
  · rintro ⟨⟨small, _⟩, agree⟩
    have all (k : Nat) (within : k < (stringAt s).length) : k + i < str.length ∧ data (a + i + k) = s k := by
      induction k using Nat.strong_induction_on with
      | _ k ih =>
        have same : data (a + i + k) = s k := by
          refine agree k within fun j below => ?_
          rw [(ih j below (by omega)).2]
          exact strlen_chars (by rw [← stringAt_length]; omega)
        have nonzero : data (a + i + k) ≠ 0 := by
          rw [same]
          exact strlen_chars (by rw [← stringAt_length]; omega)
        have reached : k + i ≤ str.length := by
          cases k with
          | zero => omega
          | succ k =>
            have before := (ih k (Nat.lt_succ_self k) (by omega)).1
            omega
        refine ⟨?_, same⟩
        rcases Nat.lt_or_eq_of_le reached with before | atEnd
        · exact before
        · rw [place, atEnd] at nonzero
          exact absurd holds.ends nonzero
    have last := (all ((stringAt s).length - 1) (by omega)).1
    refine ⟨small, by omega, fun k within => ?_⟩
    obtain ⟨before, same⟩ := all k within
    rw [List.getElem?_eq_getElem before, char k within, ← same, place, holds.chars _ before]
  · rintro ⟨small, _, found⟩
    have same (k : Nat) (within : k < (stringAt s).length) : data (a + i + k) = s k := by
      have before : k + i < str.length := by omega
      have here := found k within
      rw [List.getElem?_eq_getElem before, Option.some.injEq, char k within] at here
      rw [place, holds.chars _ before, here]
    exact ⟨⟨small, (same 0 positive).symm⟩, fun k within _ => same k within⟩

theorem matchesAt_iff {s : Nat → UInt8} {str : List UInt8} {i : Nat} (pattern : stringAt s ≠ [])
    (holds : StringAt data a str) (inside : i < str.length) :
    matchesAt s data (a + i) = true ↔
      (sought (stringAt s)).length + i ≤ str.length ∧
        ∀ k (within : k < (sought (stringAt s)).length), str[k + i]? = some (sought (stringAt s))[k] := by
  rw [matchesAt_stringAt pattern holds inside, ← stringAt_head pattern]
  by_cases small : (stringAt s).headD 0 < 0x80
  · simp only [sought, small, if_true, true_and]
  · simp only [sought, small, if_false, false_and, false_iff]
    rintro ⟨_, found⟩
    have zero := found 0 (by simp)
    rw [Nat.zero_add, List.getElem?_eq_getElem inside, Option.some.injEq] at zero
    exact holds.plain _ (List.getElem_mem inside) zero

/-- What is printed for one line. -/
def reportLine (pattern fname line : List UInt8) : List UInt8 :=
  if pattern <:+: line then fname ++ [58] ++ line ++ [10] else []

theorem search_eq {s : Nat → UInt8} (fname : Nat → UInt8) {line : List UInt8} (g : Grep) (pattern : stringAt s ≠ [])
    (holds : StringAt g.data a line) (short : line.length ≤ 2 ^ 32) :
    search s fname a (a + line.length) g =
      { g with out := g.out ++ reportLine (sought (stringAt s)) (stringAt fname) line } := by
  have any : ((List.range' a (a + line.length - a)).any (matchesAt s g.data)) = true ↔ sought (stringAt s) <:+: line := by
    rw [List.any_eq_true, List.infix_iff_getElem?]
    constructor
    · rintro ⟨check, member, found⟩
      rw [List.mem_range'_1] at member
      obtain ⟨i, rfl⟩ : ∃ i, check = a + i := ⟨check - a, by omega⟩
      exact ⟨i, (matchesAt_iff pattern holds (by omega)).mp found⟩
    · rintro ⟨i, found⟩
      have positive := List.length_pos_of_ne_nil (sought_ne pattern)
      have inside : i < line.length := by omega
      refine ⟨a + i, List.mem_range'_1.mpr ⟨by omega, by omega⟩, (matchesAt_iff pattern holds inside).mpr found⟩
  unfold search reportLine
  by_cases found : sought (stringAt s) <:+: line
  · rw [if_pos (any.mpr found), if_pos found, holds.fdputs short, ece391Fdputs_eq]
    simp only [List.append_assoc]
  · rw [if_neg (fun here => found (any.mp here)), if_neg found, List.append_nil]

end Buffer

end Grep

end UnixLite
