import Mathlib.Data.Nat.Digits.Lemmas
import UnixLite.ParserBuffers

namespace UnixLite

/-- `lookup[]` of `itoa`. -/
def lookup : List UInt8 := "0123456789ABCDEFGHIJKLMNOPQRSTUVWXYZ".toList.map Char.toUInt8

/-- `lookup[d]`; the literal ends with a NUL. -/
def digitChar (d : Nat) : UInt8 := lookup.getD d 0

/-- The digit loop of `itoa`: the buffer and `newbuf` where it ends. -/
def itoaLoop (radix : Word) : Nat → Word → Nat → Buffer → Option (Buffer × Nat)
  | 0, _, _, _ => none
  | fuel + 1, newval, newbuf, b =>
    if 0 < newval then
      itoaLoop radix fuel (newval / radix) (newbuf + 1) (b.set newbuf (digitChar (newval % radix).toNat))
    else some (b, newbuf)

/-- The loop of `strrev` on the string at `s`. -/
def strrevLoop (s : Nat) : Nat → Int → Int → Buffer → Option Buffer
  | 0, _, _, _ => none
  | fuel + 1, beg, last, b =>
    if beg < last then
      let tmp := b.cells (s + last.toNat)
      let b := b.set (s + last.toNat) (b.cells (s + beg.toNat))
      strrevLoop s fuel (beg + 1) (last - 1) (b.set (s + beg.toNat) tmp)
    else some b

def strrev (fuel : Nat) (b : Buffer) (s : Nat) : Option Buffer :=
  let last := (BitVec.ofNat 32 (strlen fun i => b.cells (s + i)) - 1).toInt
  strrevLoop s fuel 0 last b

def ece391Strlen (s : Nat → UInt8) : Nat := strlenFrom s (2 ^ 32) 0

/-- `ece391_strrev`, with a test of its own for short strings. -/
def ece391Strrev (fuel : Nat) (b : Buffer) (s : Nat) : Option Buffer :=
  let last := (BitVec.ofNat 32 (ece391Strlen fun i => b.cells (s + i)) - 1).toInt
  if last ≤ 0 then some b else strrevLoop s fuel 0 last b

/-- The common body of `itoa` and `ece391_itoa`, on the string at `buf`. -/
def itoaWith (reverse : Buffer → Nat → Option Buffer) (fuel : Nat) (value : Word) (b : Buffer) (buf : Nat)
    (radix : Word) : Option Buffer :=
  if value = 0 then some ((b.set buf 48).set (buf + 1) 0)
  else (itoaLoop radix fuel value buf b).bind fun r => reverse (r.1.set r.2 0) buf

def itoa (fuel : Nat) (value : Word) (b : Buffer) (buf : Nat) (radix : Word) : Option Buffer :=
  itoaWith (strrev fuel) fuel value b buf radix

def ece391Itoa (fuel : Nat) (value : Word) (b : Buffer) (buf : Nat) (radix : Word) : Option Buffer :=
  itoaWith (ece391Strrev fuel) fuel value b buf radix

/-- The NUL-terminated string at `p` is `str`. -/
structure StringAt (cells : Nat → UInt8) (p : Nat) (str : List UInt8) : Prop where
  chars : ∀ i (inside : i < str.length), cells (p + i) = str[i]
  plain : ∀ c ∈ str, c ≠ 0
  ends : cells (p + str.length) = 0

/-- What a character is worth as a digit: those from 0 to 9 count from zero,
the capital letters from ten. -/
def digitValue (c : UInt8) : Option Nat :=
  if 48 ≤ c.toNat ∧ c.toNat ≤ 57 then some (c.toNat - 48)
  else if 65 ≤ c.toNat ∧ c.toNat ≤ 90 then some (c.toNat - 65 + 10)
  else none

theorem digitChar_spec {d : Nat} (small : d < 36) :
    digitChar d ≠ 0 ∧ digitValue (digitChar d) = some d ∧ (digitChar d = 48 ↔ d = 0) := by
  have all : ∀ d : Fin 36, digitChar d ≠ 0 ∧ digitValue (digitChar d) = some d.val ∧
      (digitChar d = 48 ↔ d.val = 0) := by
    decide +kernel
  exact all ⟨d, small⟩

/-- The string of a number: its digits, the highest one first. -/
def numeral (radix value : Nat) : List UInt8 :=
  if value = 0 then [48] else ((Nat.digits radix value).map digitChar).reverse

section Radix

variable {radix value : Nat}

theorem digits_small (two : 2 ≤ radix) (bound : radix ≤ 36) :
    ∀ d ∈ Nat.digits radix value, d < radix ∧ d < 36 := by
  intro d member
  have small := Nat.digits_lt_base (by omega) member
  exact ⟨small, by omega⟩

theorem numeral_plain (two : 2 ≤ radix) (bound : radix ≤ 36) : ∀ c ∈ numeral radix value, c ≠ 0 := by
  intro c member
  unfold numeral at member
  split at member
  · rw [List.mem_singleton.mp member]
    decide
  · obtain ⟨d, digit, rfl⟩ := List.mem_map.mp (List.mem_reverse.mp member)
    exact (digitChar_spec (digits_small two bound d digit).2).1

theorem digits_short (two : 2 ≤ radix) (word : value < 2 ^ 32) : (Nat.digits radix value).length ≤ 32 := by
  rw [Nat.digits_length_le_iff (by omega)]
  exact word.trans_le (Nat.pow_le_pow_left two 32)

end Radix

/-- The digit loop stores the digits, the lowest one first. -/
theorem itoaLoop_eq {radix : Word} (two : 2 ≤ radix.toNat) {fuel : Nat} {newval : Word}
    (enough : (Nat.digits radix.toNat newval.toNat).length < fuel) (newbuf : Nat) (b : Buffer) :
    itoaLoop radix fuel newval newbuf b =
      some (b.store newbuf ((Nat.digits radix.toNat newval.toNat).map digitChar),
        newbuf + (Nat.digits radix.toNat newval.toNat).length) := by
  induction fuel generalizing newval newbuf b with
  | zero => exact absurd enough (Nat.not_lt_zero _)
  | succ fuel ih =>
    rw [itoaLoop]
    by_cases positive : 0 < newval.toNat
    · have digits := Nat.digits_def' (by omega : 1 < radix.toNat) positive
      rw [digits, List.length_cons] at enough
      have go : 0 < newval := positive
      rw [if_pos go, digits, ih (by rw [BitVec.toNat_udiv]; omega), BitVec.toNat_udiv, BitVec.toNat_umod,
        List.map_cons, Buffer.store, List.length_cons, Nat.add_right_comm, Nat.add_assoc]
    · have none_ : newval.toNat = 0 := by omega
      have stop : ¬ 0 < newval := positive
      rw [if_neg stop, none_, Nat.digits_zero]
      rfl

/-- The two indices of `strrev` walk over the cells from `lo` on and turn
them round. -/
theorem strrevLoop_spec {s fuel lo len : Nat} {b : Buffer} (enough : len < 2 * fuel) :
    ∃ b', strrevLoop s fuel lo (lo + len - 1 : Int) b = some b' ∧
      (∀ i, i < len → b'.cells (s + lo + i) = b.cells (s + lo + (len - 1 - i))) ∧
      (∀ x, x < s + lo ∨ s + lo + len ≤ x → b'.cells x = b.cells x) ∧
      ∀ j ∈ b'.written, j ∈ b.written ∨ s + lo ≤ j ∧ j < s + lo + len := by
  induction fuel generalizing lo len b with
  | zero => exact absurd enough (Nat.not_lt_zero _)
  | succ fuel ih =>
    by_cases short : len < 2
    · have stop : ¬ (lo : Int) < lo + len - 1 := by omega
      refine ⟨b, by rw [strrevLoop, if_neg stop], fun i inside => ?_, fun _ _ => rfl, fun j old => Or.inl old⟩
      congr 1
      omega
    · have go : (lo : Int) < lo + len - 1 := by omega
      have last : (lo + len - 1 : Int).toNat = lo + (len - 1) := by omega
      obtain ⟨b', run, turned, others, written⟩ := @ih (lo + 1) (len - 2)
        ((b.set (s + (lo + (len - 1))) (b.cells (s + lo))).set (s + lo) (b.cells (s + (lo + (len - 1))))) (by omega)
      have next : ((lo + 1 : Nat) : Int) + (len - 2 : Nat) - 1 = lo + len - 1 - 1 := by omega
      rw [next] at run
      refine ⟨b', ?_, fun i inside => ?_, fun x outside => ?_, fun j member => ?_⟩
      · rw [strrevLoop, if_pos go, last]
        exact run
      · by_cases first : i = 0
        · subst first
          rw [others _ (Or.inl (by omega))]
          simp only [Buffer.set, Nat.add_zero, Function.update_self]
          congr 1
          omega
        · by_cases final : i = len - 1
          · subst final
            rw [others _ (Or.inr (by omega)), Buffer.set_other _ _ (by omega), ← Nat.add_assoc]
            simp [Buffer.set]
          · have here := turned (i - 1) (by omega)
            have place : s + (lo + 1) + (i - 1) = s + lo + i := by omega
            have mirror : s + (lo + 1) + (len - 2 - 1 - (i - 1)) = s + lo + (len - 1 - i) := by omega
            rw [place, mirror] at here
            rw [here, Buffer.set_other _ _ (by omega), Buffer.set_other _ _ (by omega)]
      · rw [others x (by omega), Buffer.set_other _ _ (by omega), Buffer.set_other _ _ (by omega)]
      · rcases written j member with old | inner
        · simp only [Buffer.set, List.mem_cons] at old
          rcases old with rfl | rfl | old
          · exact Or.inr (by omega)
          · exact Or.inr (by omega)
          · exact Or.inl old
        · exact Or.inr (by omega)

theorem StringAt.strlen_eq {cells : Nat → UInt8} {p : Nat} {str : List UInt8} (holds : StringAt cells p str)
    (short : str.length ≤ 2 ^ 32) : strlen (fun i => cells (p + i)) = str.length := by
  refine UnixLite.strlen_eq short (fun i inside => ?_) holds.ends
  rw [holds.chars i inside]
  exact holds.plain _ (List.getElem_mem inside)

theorem StringAt.length_le {cells : Nat → UInt8} {p : Nat} {str str' : List UInt8} (first : StringAt cells p str)
    (second : StringAt cells p str') : str.length ≤ str'.length := by
  by_contra longer
  have inside : str'.length < str.length := by omega
  have char := first.plain _ (List.getElem_mem inside)
  rw [← first.chars _ inside] at char
  exact char second.ends

theorem StringAt.unique {cells : Nat → UInt8} {p : Nat} {str str' : List UInt8} (first : StringAt cells p str)
    (second : StringAt cells p str') : str = str' := by
  refine List.ext_getElem (Nat.le_antisymm (first.length_le second) (second.length_le first)) ?_
  intro i inside inside'
  rw [← first.chars i inside, second.chars i inside']

theorem cString_stringAt {str : List UInt8} (plain : ∀ c ∈ str, c ≠ 0) : StringAt (cString str) 0 str := by
  refine ⟨fun i inside => ?_, plain, ?_⟩
  · rw [Nat.zero_add, cString, List.getElem?_eq_getElem inside, Option.getD_some]
  · rw [Nat.zero_add, cString, List.getElem?_eq_none (Nat.le_refl _), Option.getD_none]

theorem StringAt.tail {cells : Nat → UInt8} {p : Nat} {c : UInt8} {str : List UInt8}
    (holds : StringAt cells p (c :: str)) : StringAt cells (p + 1) str := by
  refine ⟨fun i inside => ?_, fun d member => holds.plain d (List.mem_cons_of_mem c member), ?_⟩
  · have char := holds.chars (i + 1) (by rw [List.length_cons]; omega)
    have place : p + 1 + i = p + (i + 1) := by omega
    rw [place]
    exact char
  · have ends := holds.ends
    rw [List.length_cons, Nat.add_comm str.length, ← Nat.add_assoc] at ends
    exact ends

theorem StringAt.cons {cells : Nat → UInt8} {p : Nat} {c : UInt8} {str : List UInt8} (here : cells p = c)
    (char : c ≠ 0) (rest : StringAt cells (p + 1) str) : StringAt cells p (c :: str) := by
  have behind (i : Nat) : p + (i + 1) = p + 1 + i := by omega
  refine ⟨fun i inside => ?_, fun d member => ?_, ?_⟩
  · cases i with
    | zero => exact here
    | succ i =>
      rw [behind]
      exact rest.chars i (by rw [List.length_cons] at inside; omega)
  · rcases List.mem_cons.mp member with rfl | later
    · exact char
    · exact rest.plain d later
  · rw [List.length_cons, behind]
    exact rest.ends

/-- A string that is stored with its NUL. -/
theorem stringAt_stored {str : List UInt8} (plain : ∀ c ∈ str, c ≠ 0) (b : Buffer) (p : Nat) :
    StringAt ((b.store p str).set (p + str.length) 0).cells p str ∧
      ∀ x, x < p ∨ p + str.length < x → ((b.store p str).set (p + str.length) 0).cells x = b.cells x := by
  have store := b.store_cells p str
  refine ⟨⟨fun i inside => ?_, plain, by simp [Buffer.set]⟩, fun x outside => ?_⟩
  · rw [Buffer.set_other _ _ (by omega), store, Store.storeList_within inside]
  · rw [Buffer.set_other _ _ (by omega), store]
    rcases outside with before | behind
    · exact Store.storeList_before before
    · exact Store.storeList_after (by omega)

/-- What turning a string round leaves. -/
theorem StringAt.turned {b b' : Buffer} {p : Nat} {str : List UInt8} (holds : StringAt b.cells p str)
    (turned : ∀ i, i < str.length → b'.cells (p + i) = b.cells (p + (str.length - 1 - i)))
    (others : ∀ x, x < p ∨ p + str.length ≤ x → b'.cells x = b.cells x) : StringAt b'.cells p str.reverse := by
  refine ⟨fun i inside => ?_, fun c member => holds.plain c (List.mem_reverse.mp member), ?_⟩
  · rw [List.length_reverse] at inside
    rw [turned i inside, holds.chars _ (by omega), List.getElem_reverse]
  · rw [List.length_reverse, others _ (Or.inr (Nat.le_refl _))]
    exact holds.ends

/-- Both ways of turning a string round. -/
theorem strrev_spec {fuel p : Nat} {b : Buffer} {str : List UInt8} (holds : StringAt b.cells p str)
    (some_ : 0 < str.length) (short : str.length ≤ 32) (enough : str.length < 2 * fuel) :
    (∃ b', strrev fuel b p = some b' ∧ ece391Strrev fuel b p = some b') ∧
      ∀ b', strrev fuel b p = some b' → StringAt b'.cells p str.reverse ∧
        (∀ x, x < p ∨ p + str.length ≤ x → b'.cells x = b.cells x) ∧
          ∀ j ∈ b'.written, j ∈ b.written ∨ p ≤ j ∧ j < p + str.length := by
  have length := holds.strlen_eq (by omega)
  have sameLength : ece391Strlen (fun i => b.cells (p + i)) = str.length := length
  have last : (BitVec.ofNat 32 str.length - 1).toInt = (0 : Nat) + str.length - 1 := by
    have word : (BitVec.ofNat 32 str.length - 1).toNat = str.length - 1 := by bv_omega
    rw [BitVec.toInt_eq_toNat_of_lt (by omega), word]
    omega
  obtain ⟨b', run, turned, others, written⟩ := @strrevLoop_spec p fuel 0 str.length b enough
  have reversed : strrev fuel b p = some b' := by
    rw [strrev, length, last]
    exact run
  rw [Nat.add_zero] at turned others written
  have whole : StringAt b'.cells p str.reverse := holds.turned turned others
  refine ⟨?_, fun b'' same => ?_⟩
  · rw [ece391Strrev, sameLength, last, strrev, length, last]
    by_cases single : ((0 : Nat) + str.length - 1 : Int) ≤ 0
    · have stop : ¬ (0 : Int) < (0 : Nat) + str.length - 1 := by omega
      obtain ⟨left, positive⟩ : ∃ left, fuel = left + 1 := ⟨fuel - 1, by omega⟩
      rw [if_pos single, positive, strrevLoop, if_neg stop]
      exact ⟨b, rfl, rfl⟩
    · rw [if_neg single]
      exact ⟨b', run, run⟩
  · rw [reversed] at same
    cases same
    exact ⟨whole, others, written⟩

/-- What a conversion leaves: the string of the number, and nothing written
outside the 33 bytes from `buf` on. -/
structure Converted (radix value : Nat) (b : Buffer) (buf : Nat) (b' : Buffer) : Prop where
  string : StringAt b'.cells buf (numeral radix value)
  others : ∀ x, x < buf ∨ buf + (numeral radix value).length < x → b'.cells x = b.cells x
  written : ∀ j ∈ b'.written, j ∈ b.written ∨ buf ≤ j ∧ j < buf + 33

theorem numeral_length {radix value : Nat} (two : 2 ≤ radix) (word : value < 2 ^ 32) :
    0 < (numeral radix value).length ∧ (numeral radix value).length ≤ 32 := by
  have short := digits_short two word
  unfold numeral
  by_cases zero : value = 0
  · simp [zero]
  · have nonempty := List.length_pos_of_ne_nil (Nat.digits_ne_nil_iff_ne_zero (b := radix).mpr zero)
    rw [if_neg zero, List.length_reverse, List.length_map]
    exact ⟨nonempty, short⟩

theorem itoa_converts {fuel : Nat} (enough : 33 ≤ fuel) (radix : Word) (two : 2 ≤ radix.toNat)
    (bound : radix.toNat ≤ 36) (value : Word) (b : Buffer) (buf : Nat) :
    ∃ b', itoa fuel value b buf radix = some b' ∧ ece391Itoa fuel value b buf radix = some b' ∧
      Converted radix.toNat value.toNat b buf b' := by
  by_cases zero : value = 0
  · refine ⟨(b.set buf 48).set (buf + 1) 0, if_pos zero, if_pos zero, ?_⟩
    have string : numeral radix.toNat value.toNat = [48] := by
      rw [zero]
      rfl
    have plain : ∀ c ∈ [(48 : UInt8)], c ≠ 0 := by simp
    obtain ⟨holds, others⟩ := stringAt_stored plain b buf
    refine ⟨?_, fun x outside => ?_, fun j member => ?_⟩
    · rw [string]
      exact holds
    · rw [string] at outside
      exact others x outside
    · simp only [Buffer.set, List.mem_cons] at member
      rcases member with rfl | rfl | old
      · exact Or.inr (by omega)
      · exact Or.inr (by omega)
      · exact Or.inl old
  · have positive : value.toNat ≠ 0 := fun same => zero (BitVec.eq_of_toNat_eq same)
    have short := digits_short two value.isLt
    have nonempty := List.length_pos_of_ne_nil (Nat.digits_ne_nil_iff_ne_zero (b := radix.toNat).mpr positive)
    have length : ((Nat.digits radix.toNat value.toNat).map digitChar).length =
        (Nat.digits radix.toNat value.toNat).length := List.length_map _
    have string : numeral radix.toNat value.toNat =
        ((Nat.digits radix.toNat value.toNat).map digitChar).reverse := if_neg positive
    have plain : ∀ c ∈ (Nat.digits radix.toNat value.toNat).map digitChar, c ≠ 0 := by
      intro c member
      have reversed := List.mem_reverse.mpr member
      rw [← string] at reversed
      exact numeral_plain two bound c reversed
    have digits := itoaLoop_eq two (show (Nat.digits radix.toNat value.toNat).length < fuel by omega) buf b
    generalize (Nat.digits radix.toNat value.toNat).map digitChar = str at length string plain digits
    obtain ⟨holds, outside⟩ := stringAt_stored plain b buf
    rw [← length] at digits
    obtain ⟨⟨b', run, same⟩, spec⟩ := @strrev_spec fuel buf _ str holds (by omega) (by omega) (by omega)
    obtain ⟨whole, others, written⟩ := spec b' run
    refine ⟨b', ?_, ?_, ?_, fun x far => ?_, fun j member => ?_⟩
    · rw [itoa, itoaWith, if_neg zero, digits]
      exact run
    · rw [ece391Itoa, itoaWith, if_neg zero, digits]
      exact same
    · rw [string]
      exact whole
    · rw [string, List.length_reverse] at far
      rw [others x (by omega), outside x far]
    · rcases written j member with old | inside
      · simp only [Buffer.set, List.mem_cons, Buffer.mem_store_written] at old
        rcases old with rfl | before | stored
        · exact Or.inr (by omega)
        · exact Or.inl before
        · exact Or.inr (by omega)
      · exact Or.inr (by omega)

end UnixLite
