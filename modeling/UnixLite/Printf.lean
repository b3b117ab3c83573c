import UnixLite.Faults
import UnixLite.Numbers

namespace UnixLite

/-- The loop of `puts`, from `index` on. -/
def putsFrom (s : Nat → UInt8) : Nat → Nat → List UInt8
  | 0, _ => []
  | fuel + 1, index => if s index ≠ 0 then s index :: putsFrom s fuel (index + 1) else []

/-- What `puts` puts out. The address space bounds the string. -/
def puts (s : Nat → UInt8) : List UInt8 := putsFrom s (2 ^ 32) 0

/-- What `printf` is called with: the format, the words behind it on the
stack, the memory that `%s` reads, and what is in the `conv_buf` of the
conversion of each word before it is written. -/
structure PrintfCall where
  format : Nat → UInt8
  args : Nat → Word
  mem : Nat → UInt8
  convBuf : Nat → Nat → UInt8

/-- The variables `buf` and `esp`, what has been put out, and the places of
the format that have been read, the last one first. -/
structure Printing where
  buf : Nat
  esp : Nat
  out : List UInt8
  reads : List Nat

namespace PrintfCall

/-- `%x` and, for radix 10, `%u`. -/
def unsignedText (radix : Word) (convBuf : Nat → UInt8) (value : Word) : Option (List UInt8) :=
  (itoa 33 value ⟨convBuf, []⟩ 0 radix).map fun b => puts b.cells

/-- `%#x`: the digits go to `conv_buf[8]`, and zeros in front of them. -/
def paddedText (convBuf : Nat → UInt8) (value : Word) : Option (List UInt8) :=
  (itoa 33 value ⟨convBuf, []⟩ 8 16).map fun b =>
    let startingIndex := strlen fun i => b.cells (8 + i)
    let b := (List.range' startingIndex (8 - startingIndex)).foldl (fun b i => b.set i 48) b
    puts fun i => b.cells (startingIndex + i)

/-- `%d` -/
def signedText (convBuf : Nat → UInt8) (value : Word) : Option (List UInt8) :=
  if value.toInt < 0 then
    (itoa 33 (-value) ((⟨convBuf, []⟩ : Buffer).set 0 '-'.toUInt8) 1 10).map fun b => puts b.cells
  else unsignedText 10 convBuf value

/-- What a conversion puts out for the word `value`; `none` for a character
that takes no word. -/
def takes (p : PrintfCall) (alternate : Bool) (c : UInt8) (convBuf : Nat → UInt8) (value : Word) :
    Option (Option (List UInt8)) :=
  if c = 'x'.toUInt8 then some (if alternate then paddedText convBuf value else unsignedText 16 convBuf value)
  else if c = 'u'.toUInt8 then some (unsignedText 10 convBuf value)
  else if c = 'd'.toUInt8 then some (signedText convBuf value)
  else if c = 'c'.toUInt8 then some (some [UInt8.ofNat value.toNat])
  else if c = 's'.toUInt8 then some (some (puts fun i => p.mem (value.toNat + i)))
  else none

/-- The conversion specifiers, without `#`. -/
def convert (p : PrintfCall) (alternate : Bool) (c : UInt8) (s : Printing) : Option Printing :=
  if c = '%'.toUInt8 then some { s with out := s.out ++ ['%'.toUInt8] }
  else
    match p.takes alternate c (p.convBuf s.esp) (p.args s.esp) with
    | some text => text.map fun text => { s with out := s.out ++ text, esp := s.esp + 1 }
    | none => some s

/-- The code at `format_char_switch`. -/
def formatCharSwitch (p : PrintfCall) : Nat → Bool → Printing → Option Printing
  | 0, _, _ => none
  | fuel + 1, alternate, s =>
    let c := p.format s.buf
    let s := { s with reads := s.buf :: s.reads }
    if c = '#'.toUInt8 then formatCharSwitch p fuel true { s with buf := s.buf + 1 }
    else p.convert alternate c s

/-- The loop of `printf`. -/
def printfLoop (p : PrintfCall) : Nat → Printing → Option Printing
  | 0, _ => none
  | fuel + 1, s =>
    let c := p.format s.buf
    let s := { s with reads := s.buf :: s.reads }
    if c = 0 then some s
    else if c = '%'.toUInt8 then
      (p.formatCharSwitch (fuel + 1) false { s with buf := s.buf + 1 }).bind fun s =>
        printfLoop p fuel { s with buf := s.buf + 1 }
    else printfLoop p fuel { s with out := s.out ++ [c], buf := s.buf + 1 }

/-- `printf`; it returns `buf - format`. -/
def printf (p : PrintfCall) (fuel : Nat) : Option Printing := p.printfLoop fuel ⟨0, 0, [], []⟩

end PrintfCall

/-- A piece of a format: a character, a conversion with or without `#`, or a
conversion that the format ends in. -/
inductive Piece
  | literal (c : UInt8)
  | conversion (alternate : Bool) (c : UInt8)
  | truncated
  deriving DecidableEq

/-- The pieces of a format, `conv` telling whether a `%` has been read and a
`#` behind it. -/
def formatPieces (conv : Option Bool) : List UInt8 → List Piece
  | [] => if conv.isSome then [.truncated] else []
  | c :: rest =>
    match conv with
    | none => if c = '%'.toUInt8 then formatPieces (some false) rest else .literal c :: formatPieces none rest
    | some alternate =>
      if c = '#'.toUInt8 then formatPieces (some true) rest else .conversion alternate c :: formatPieces none rest

/-- An argument: a number or a string. -/
inductive Arg
  | num (w : Word)
  | text (str : List UInt8)

/-- The decimal numeral of a signed number. -/
def signedNumeral (value : Int) : List UInt8 :=
  if value < 0 then '-'.toUInt8 :: numeral 10 value.natAbs else numeral 10 value.natAbs

/-- The eight hexadecimal digits of a number. -/
def paddedNumeral (value : Nat) : List UInt8 :=
  List.replicate (8 - (numeral 16 value).length) '0'.toUInt8 ++ numeral 16 value

/-- What a conversion is to show of its argument, where it takes one of that kind. -/
def Arg.shown (alternate : Bool) (c : UInt8) : Arg → Option (List UInt8)
  | .num w =>
    if c = 'x'.toUInt8 then some (if alternate then paddedNumeral w.toNat else numeral 16 w.toNat)
    else if c = 'u'.toUInt8 then some (numeral 10 w.toNat)
    else if c = 'd'.toUInt8 then some (signedNumeral w.toInt)
    else if c = 'c'.toUInt8 then some [UInt8.ofNat w.toNat]
    else none
  | .text str => if c = 's'.toUInt8 then some str else none

/-- The conversions that take an argument. -/
def takesArg (c : UInt8) : Prop :=
  c ∈ ['x'.toUInt8, 'u'.toUInt8, 'd'.toUInt8, 'c'.toUInt8, 's'.toUInt8]

instance decidableTakesArg (c : UInt8) : Decidable (takesArg c) := inferInstanceAs (Decidable (_ ∈ _))

/-- The pieces with matching arguments render as `out`. An unknown conversion
shows nothing. -/
inductive Renders : List Piece → List Arg → List UInt8 → Prop
  | nil : Renders [] [] []
  | literal {c ps args out} : Renders ps args out → Renders (.literal c :: ps) args (c :: out)
  | percent {alternate ps args out} : Renders ps args out →
      Renders (.conversion alternate '%'.toUInt8 :: ps) args ('%'.toUInt8 :: out)
  | argument {alternate c a ps args shown out} : a.shown alternate c = some shown → Renders ps args out →
      Renders (.conversion alternate c :: ps) (a :: args) (shown ++ out)
  | unknown {alternate c ps args out} : c ≠ '%'.toUInt8 → ¬ takesArg c → Renders ps args out →
      Renders (.conversion alternate c :: ps) args out
  | truncated {ps args out} : Renders ps args out → Renders (.truncated :: ps) args out

theorem putsFrom_eq {s : Nat → UInt8} {fuel index : Nat} {str : List UInt8} (holds : StringAt s index str)
    (enough : str.length < fuel) : putsFrom s fuel index = str := by
  induction str generalizing fuel index with
  | nil =>
    obtain ⟨fuel, rfl⟩ : ∃ n, fuel = n + 1 := ⟨fuel - 1, by simp at enough; omega⟩
    have stop : s index = 0 := holds.ends
    rw [putsFrom, if_neg (not_not.mpr stop)]
  | cons c rest ih =>
    rw [List.length_cons] at enough
    obtain ⟨fuel, rfl⟩ : ∃ n, fuel = n + 1 := ⟨fuel - 1, by omega⟩
    have here : s index = c := holds.chars 0 (by simp)
    have go : s index ≠ 0 := here ▸ holds.plain c (List.mem_cons_self ..)
    rw [putsFrom, if_pos go, here, ih holds.tail (by omega)]

theorem puts_eq {cells : Nat → UInt8} {p : Nat} {str : List UInt8} (holds : StringAt cells p str)
    (short : str.length < 2 ^ 32) : puts (fun i => cells (p + i)) = str := by
  have shown : StringAt (fun i => cells (p + i)) 0 str := by
    refine ⟨fun i inside => ?_, holds.plain, ?_⟩
    · rw [Nat.zero_add]
      exact holds.chars i inside
    · rw [Nat.zero_add]
      exact holds.ends
  exact putsFrom_eq shown short

section Texts

variable (convBuf : Nat → UInt8) (value : Word)

theorem numeral_fits {radix n : Nat} (two : 2 ≤ radix) (word : n < 2 ^ 32) :
    (numeral radix n).length < 2 ^ 32 :=
  Nat.lt_of_le_of_lt (numeral_length two word).2 (by decide)

theorem unsignedText_eq (radix : Word) (two : 2 ≤ radix.toNat) (bound : radix.toNat ≤ 36) :
    PrintfCall.unsignedText radix convBuf value = some (numeral radix.toNat value.toNat) := by
  obtain ⟨b, run, _, converted⟩ := itoa_converts (Nat.le_refl 33) radix two bound value ⟨convBuf, []⟩ 0
  have shown := puts_eq converted.string (numeral_fits two value.isLt)
  simp only [Nat.zero_add] at shown
  rw [PrintfCall.unsignedText, run, Option.map_some, shown]

theorem signedText_eq : PrintfCall.signedText convBuf value = some (signedNumeral value.toInt) := by
  have bound := value.isLt
  unfold PrintfCall.signedText signedNumeral
  by_cases negative : value.toInt < 0
  · have magnitude : (-value).toNat = value.toInt.natAbs := by
      rw [BitVec.toNat_neg]
      rw [BitVec.toInt_eq_toNat_cond] at negative ⊢
      split at negative <;> omega
    obtain ⟨b, run, _, converted⟩ := itoa_converts (Nat.le_refl 33) 10 (by decide) (by decide) (-value)
      ((⟨convBuf, []⟩ : Buffer).set 0 '-'.toUInt8) 1
    have ten : (10 : Word).toNat = 10 := rfl
    have digits := converted.string
    rw [ten, magnitude] at digits
    have short : (numeral 10 value.toInt.natAbs).length ≤ 32 :=
      (numeral_length (by decide) (by rw [← magnitude]; exact (-value).isLt)).2
    have sign : b.cells 0 = '-'.toUInt8 := by
      rw [converted.others 0 (Or.inl (by decide))]
      simp [Buffer.set]
    have shown := puts_eq (StringAt.cons sign (by decide) digits) (by rw [List.length_cons]; omega)
    simp only [Nat.zero_add] at shown
    rw [if_pos negative, if_pos negative, run, Option.map_some, shown]
  · have magnitude : value.toNat = value.toInt.natAbs := by
      rw [BitVec.toInt_eq_toNat_cond] at negative ⊢
      split at negative <;> omega
    rw [if_neg negative, if_neg negative, unsignedText_eq convBuf value 10 (by decide) (by decide), magnitude]
    rfl

/-- Cells filled one after the other with one character. -/
theorem fill_cells (b : Buffer) (start n : Nat) (x : Nat) :
    ((List.range' start n).foldl (fun b i => b.set i 48) b).cells x =
      if start ≤ x ∧ x < start + n then 48 else b.cells x := by
  induction n with
  | zero => rw [if_neg (by omega)]; rfl
  | succ n ih =>
    rw [List.range'_1_concat, List.foldl_append, List.foldl_cons, List.foldl_nil]
    by_cases last : x = start + n
    · subst last
      rw [if_pos (by omega)]
      simp [Buffer.set]
    · rw [Buffer.set_other _ _ last, ih]
      by_cases inside : start ≤ x ∧ x < start + n
      · rw [if_pos inside, if_pos (by omega)]
      · rw [if_neg inside, if_neg (by omega)]

theorem numeral_hex_length {n : Nat} (word : n < 2 ^ 32) : (numeral 16 n).length ≤ 8 := by
  unfold numeral
  by_cases zero : n = 0
  · simp [zero]
  · rw [if_neg zero, List.length_reverse, List.length_map, Nat.digits_length_le_iff (by decide)]
    exact word

/-- The zeros end where the digits start, in the same buffer. -/
theorem paddedText_eq : PrintfCall.paddedText convBuf value = some (paddedNumeral value.toNat) := by
  obtain ⟨b, run, _, converted⟩ := itoa_converts (Nat.le_refl 33) 16 (by decide) (by decide) value ⟨convBuf, []⟩ 8
  have sixteen : (16 : Word).toNat = 16 := rfl
  have digits := converted.string
  rw [sixteen] at digits
  have short := numeral_hex_length value.isLt
  have length := digits.strlen_eq (by omega)
  unfold PrintfCall.paddedText paddedNumeral
  rw [run, Option.map_some]
  simp only [length]
  generalize numeral 16 value.toNat = str at digits short
  have whole : StringAt ((List.range' str.length (8 - str.length)).foldl (fun b i => b.set i 48) b).cells str.length
      (List.replicate (8 - str.length) 48 ++ str) := by
    refine ⟨fun i inside => ?_, fun c member => ?_, ?_⟩
    · rw [List.length_append, List.length_replicate] at inside
      rw [fill_cells]
      by_cases zeros : i < 8 - str.length
      · rw [if_pos (by omega), List.getElem_append_left (by rw [List.length_replicate]; exact zeros),
          List.getElem_replicate]
      · rw [if_neg (by omega), List.getElem_append_right (by rw [List.length_replicate]; omega)]
        have char := digits.chars (i - (8 - str.length)) (by omega)
        have place : 8 + (i - (8 - str.length)) = str.length + i := by omega
        rw [place] at char
        rw [char]
        congr 1
        rw [List.length_replicate]
    · rcases List.mem_append.mp member with zero | digit
      · rw [List.eq_of_mem_replicate zero]
        decide
      · exact digits.plain c digit
    · rw [fill_cells, List.length_append, List.length_replicate, if_neg (by omega)]
      have place : str.length + (8 - str.length + str.length) = 8 + str.length := by omega
      rw [place]
      exact digits.ends
  rw [puts_eq whole (by rw [List.length_append, List.length_replicate]; omega)]
  rfl

end Texts

/-- The words on the stack that pass an argument. -/
def Arg.Passed (p : PrintfCall) (i : Nat) : Arg → Prop
  | .num w => p.args i = w
  | .text str => StringAt p.mem (p.args i).toNat str ∧ str.length < 2 ^ 32

namespace PrintfCall

variable {p : PrintfCall}

theorem takes_shown {alternate : Bool} {c : UInt8} {a : Arg} {i : Nat} {shown : List UInt8} (passed : a.Passed p i)
    (matches_ : a.shown alternate c = some shown) (convBuf : Nat → UInt8) :
    p.takes alternate c convBuf (p.args i) = some (some shown) := by
  have hex := unsignedText_eq convBuf (p.args i) 16 (by decide) (by decide)
  have decimal := unsignedText_eq convBuf (p.args i) 10 (by decide) (by decide)
  have padded := paddedText_eq convBuf (p.args i)
  have signed := signedText_eq convBuf (p.args i)
  have others : 's'.toUInt8 ≠ 'x'.toUInt8 ∧ 's'.toUInt8 ≠ 'u'.toUInt8 ∧ 's'.toUInt8 ≠ 'd'.toUInt8 ∧
      's'.toUInt8 ≠ 'c'.toUInt8 := by
    decide
  cases a with
  | num w =>
    have word : p.args i = w := passed
    rw [word] at hex decimal padded signed ⊢
    simp only [Arg.shown] at matches_
    unfold takes
    split at matches_
    · rename_i isHex
      cases matches_
      rw [if_pos isHex]
      cases alternate with
      | false => exact congrArg some hex
      | true => exact congrArg some padded
    · rename_i notHex
      rw [if_neg notHex]
      split at matches_
      · rename_i isUnsigned
        cases matches_
        rw [if_pos isUnsigned]
        exact congrArg some decimal
      · rename_i notUnsigned
        rw [if_neg notUnsigned]
        split at matches_
        · rename_i isSigned
          cases matches_
          rw [if_pos isSigned, signed]
        · rename_i notSigned
          rw [if_neg notSigned]
          split at matches_
          · rename_i isChar
            cases matches_
            rw [if_pos isChar]
          · cases matches_
  | text str =>
    obtain ⟨string, short⟩ := passed
    simp only [Arg.shown] at matches_
    split at matches_
    · rename_i isString
      cases matches_
      subst isString
      unfold takes
      rw [if_neg others.1, if_neg others.2.1, if_neg others.2.2.1, if_neg others.2.2.2, if_pos rfl,
        puts_eq string short]
    · cases matches_

theorem takes_none {c : UInt8} (unknown : ¬ takesArg c) (alternate : Bool) (convBuf : Nat → UInt8) (value : Word) :
    p.takes alternate c convBuf value = none := by
  simp only [takesArg, List.mem_cons, List.not_mem_nil, or_false, not_or] at unknown
  obtain ⟨notHex, notUnsigned, notSigned, notChar, notString⟩ := unknown
  rw [takes, if_neg notHex, if_neg notUnsigned, if_neg notSigned, if_neg notChar, if_neg notString]

/-- A conversion moves neither in the format nor reads from it. -/
theorem convert_stays {alternate : Bool} {c : UInt8} {s s' : Printing} (done : p.convert alternate c s = some s') :
    s'.buf = s.buf ∧ s'.reads = s.reads := by
  unfold convert at done
  split at done
  · cases done
    exact ⟨rfl, rfl⟩
  · split at done
    · obtain ⟨text, _, rfl⟩ := Option.map_eq_some_iff.mp done
      exact ⟨rfl, rfl⟩
    · cases done
      exact ⟨rfl, rfl⟩

/-- The places read since `old` are none behind `bound`. -/
def ReadsTo (old reads : List Nat) (bound : Nat) : Prop := ∀ i ∈ reads, i ∈ old ∨ i ≤ bound

theorem readsTo_here {old : List Nat} {place bound : Nat} (inside : place ≤ bound) :
    ReadsTo old (place :: old) bound := by
  intro i member
  rcases List.mem_cons.mp member with rfl | earlier
  · exact Or.inr inside
  · exact Or.inl earlier

theorem ReadsTo.trans {old middle reads : List Nat} {first last bound : Nat} (before : ReadsTo old middle first)
    (behind : ReadsTo middle reads last) (firstInside : first ≤ bound) (lastInside : last ≤ bound) :
    ReadsTo old reads bound := by
  intro i member
  rcases behind i member with early | late
  · exact (before i early).imp_right fun inside => inside.trans firstInside
  · exact Or.inr (late.trans lastInside)

/-- At `format_char_switch`, with `tail` left of the format: `n` times `#`,
and then a conversion, or the end of the format, where none is known. -/
structure Switches (p : PrintfCall) (fuel : Nat) (alternate : Bool) (s : Printing) (tail : List UInt8) (n : Nat)
    (reads : List Nat) : Prop where
  inside : ∀ i ∈ reads, i ∈ s.reads ∨ i ≤ s.buf + tail.length
  kept : ∀ i ∈ s.reads, i ∈ reads
  ends : (∃ alternate' c more, tail.length = n + 1 + more.length ∧ StringAt p.format (s.buf + n + 1) more ∧
      formatPieces (some alternate) tail = .conversion alternate' c :: formatPieces none more ∧
        p.formatCharSwitch fuel alternate s = p.convert alternate' c { s with buf := s.buf + n, reads := reads }) ∨
    tail.length = n ∧ formatPieces (some alternate) tail = [.truncated] ∧
      p.formatCharSwitch fuel alternate s = some { s with buf := s.buf + n, reads := reads }

theorem formatCharSwitch_spec (fuel : Nat) {s : Printing} {tail : List UInt8} (holds : StringAt p.format s.buf tail)
    (enough : tail.length < fuel) (alternate : Bool) : ∃ n reads, Switches p fuel alternate s tail n reads := by
  induction tail generalizing fuel s alternate with
  | nil =>
    obtain ⟨fuel, rfl⟩ : ∃ n, fuel = n + 1 := ⟨fuel - 1, by rw [List.length_nil] at enough; omega⟩
    have nul : p.format s.buf = 0 := holds.ends
    refine ⟨0, s.buf :: s.reads, readsTo_here (Nat.le_refl _), fun i old => List.mem_cons_of_mem _ old,
      Or.inr ⟨rfl, rfl, ?_⟩⟩
    have quiet := takes_none (p := p) (show ¬ takesArg 0 by decide +kernel) alternate (p.convBuf s.esp) (p.args s.esp)
    rw [formatCharSwitch, nul, if_neg (by decide), convert, if_neg (by decide), quiet]
    rfl
  | cons c rest ih =>
    rw [List.length_cons] at enough
    obtain ⟨fuel, rfl⟩ : ∃ n, fuel = n + 1 := ⟨fuel - 1, by omega⟩
    have here : p.format s.buf = c := holds.chars 0 (by simp)
    by_cases hash : c = '#'.toUInt8
    · obtain ⟨n, reads, inside, kept, ends⟩ := @ih fuel { s with buf := s.buf + 1, reads := s.buf :: s.reads }
        holds.tail (by omega) true
      have next : s.buf + 1 + n = s.buf + (n + 1) := by omega
      have step : p.formatCharSwitch (fuel + 1) alternate s =
          p.formatCharSwitch fuel true { s with buf := s.buf + 1, reads := s.buf :: s.reads } := by
        rw [formatCharSwitch, here, if_pos hash]
      have split : formatPieces (some alternate) (c :: rest) = formatPieces (some true) rest := if_pos hash
      have read : ReadsTo s.reads reads (s.buf + (c :: rest).length) :=
        (readsTo_here (Nat.le_refl s.buf)).trans inside (Nat.le_add_right ..) (by rw [List.length_cons]; dsimp only; omega)
      refine ⟨n + 1, reads, read, fun i old => kept i (List.mem_cons_of_mem _ old), ?_⟩
      rw [step, split]
      simp only [next] at ends
      rcases ends with ⟨alternate', d, more, length, string, whole, run⟩ | ⟨length, whole, run⟩
      · exact Or.inl ⟨alternate', d, more, by rw [List.length_cons]; omega, string, whole, run⟩
      · exact Or.inr ⟨by rw [List.length_cons]; omega, whole, run⟩
    · refine ⟨0, s.buf :: s.reads, readsTo_here (Nat.le_add_right ..), fun i old => List.mem_cons_of_mem _ old,
        Or.inl ⟨alternate, c, rest, by rw [List.length_cons]; omega, holds.tail, if_neg hash, ?_⟩⟩
      rw [formatCharSwitch, here, if_neg hash]
      rfl

theorem formatCharSwitch_reads {fuel : Nat} {alternate : Bool} {s s' : Printing}
    (done : p.formatCharSwitch fuel alternate s = some s') : ∀ i ∈ s.reads, i ∈ s'.reads := by
  induction fuel generalizing alternate s with
  | zero => cases done
  | succ fuel ih =>
    intro i old
    rw [formatCharSwitch] at done
    split at done
    · exact ih done i (List.mem_cons_of_mem _ old)
    · rw [(convert_stays done).2]
      exact List.mem_cons_of_mem _ old

/-- What is read stays read. -/
theorem printfLoop_reads {fuel : Nat} {s s' : Printing} (done : p.printfLoop fuel s = some s') :
    ∀ i ∈ s.buf :: s.reads, i ∈ s'.reads := by
  induction fuel generalizing s with
  | zero => cases done
  | succ fuel ih =>
    rw [printfLoop] at done
    split at done
    · cases done
      exact fun _ member => member
    · split at done
      · obtain ⟨s1, switched, later⟩ := Option.bind_eq_some_iff.mp done
        exact fun i member => ih later i (List.mem_cons_of_mem _ (formatCharSwitch_reads switched i member))
      · exact fun i member => ih done i (List.mem_cons_of_mem _ member)

/-- The arguments are passed by the words from `i` on. -/
def Passes (p : PrintfCall) (i : Nat) (args : List Arg) : Prop :=
  ∀ j (inside : j < args.length), args[j].Passed p (i + j)

theorem Passes.tail {i : Nat} {a : Arg} {args : List Arg} (passes : p.Passes i (a :: args)) :
    p.Passes (i + 1) args := by
  intro j inside
  have passed := passes (j + 1) (by rw [List.length_cons]; omega)
  have place : i + 1 + j = i + (j + 1) := by omega
  rw [place]
  exact passed

theorem shown_ne_percent {alternate : Bool} {a : Arg} {shown : List UInt8} {c : UInt8}
    (matches_ : a.shown alternate c = some shown) : c ≠ '%'.toUInt8 := by
  have others : '%'.toUInt8 ≠ 'x'.toUInt8 ∧ '%'.toUInt8 ≠ 'u'.toUInt8 ∧ '%'.toUInt8 ≠ 'd'.toUInt8 ∧
      '%'.toUInt8 ≠ 'c'.toUInt8 ∧ '%'.toUInt8 ≠ 's'.toUInt8 := by
    decide
  rintro rfl
  cases a with
  | num w =>
    rw [Arg.shown, if_neg others.1, if_neg others.2.1, if_neg others.2.2.1, if_neg others.2.2.2.1] at matches_
    cases matches_
  | text str =>
    rw [Arg.shown, if_neg others.2.2.2.2] at matches_
    cases matches_

/-- One conversion with the arguments that are left. -/
theorem convert_renders {alternate : Bool} {c : UInt8} {ps : List Piece} {args : List Arg} {out : List UInt8}
    {s : Printing} (renders : Renders (.conversion alternate c :: ps) args out) (passes : p.Passes s.esp args) :
    ∃ s' args' shown out', p.convert alternate c s = some s' ∧ s'.out = s.out ++ shown ∧ out = shown ++ out' ∧
      Renders ps args' out' ∧ p.Passes s'.esp args' := by
  cases renders with
  | percent rest => exact ⟨_, args, ['%'.toUInt8], _, if_pos rfl, rfl, rfl, rest, passes⟩
  | @argument _ _ a _ args shown out matches_ rest =>
    have taken := takes_shown (passes 0 (by simp)) matches_ (p.convBuf s.esp)
    rw [Nat.add_zero] at taken
    refine ⟨{ s with out := s.out ++ shown, esp := s.esp + 1 }, args, shown, out, ?_, rfl, rfl, rest, passes.tail⟩
    rw [convert, if_neg (shown_ne_percent matches_), taken]
    rfl
  | unknown notPercent notTaken rest =>
    have quiet := takes_none (p := p) notTaken alternate (p.convBuf s.esp) (p.args s.esp)
    refine ⟨s, args, [], out, ?_, by rw [List.append_nil], rfl, rest, passes⟩
    rw [convert, if_neg notPercent, quiet]

/-- The loop on what is left of a format that ends in no conversion. -/
theorem printfLoop_renders {fuel : Nat} {s : Printing} {rest : List UInt8} {args : List Arg} {out : List UInt8}
    (holds : StringAt p.format s.buf rest) (enough : rest.length < fuel)
    (renders : Renders (formatPieces none rest) args out) (passes : p.Passes s.esp args)
    (complete : .truncated ∉ formatPieces none rest) : ∃ s', p.printfLoop fuel s = some s' ∧ s'.out = s.out ++ out ∧
      s'.buf = s.buf + rest.length ∧ ReadsTo s.reads s'.reads (s.buf + rest.length) := by
  induction fuel generalizing s rest args out with
  | zero => exact absurd enough (Nat.not_lt_zero _)
  | succ fuel ih =>
    rw [printfLoop]
    cases rest with
    | nil =>
      have nul : p.format s.buf = 0 := holds.ends
      cases renders
      exact ⟨{ s with reads := s.buf :: s.reads }, if_pos nul, by rw [List.append_nil], rfl,
        readsTo_here (Nat.le_refl _)⟩
    | cons c tail =>
      rw [List.length_cons] at enough
      have here : p.format s.buf = c := holds.chars 0 (by simp)
      rw [here, if_neg (holds.plain c (List.mem_cons_self ..))]
      by_cases percent : c = '%'.toUInt8
      · have whole : formatPieces none (c :: tail) = formatPieces (some false) tail := if_pos percent
        rw [whole] at renders complete
        obtain ⟨n, reads, inside, _, ends⟩ := formatCharSwitch_spec (fuel + 1)
          (s := { s with buf := s.buf + 1, reads := s.buf :: s.reads }) holds.tail (by omega) false
        simp only at inside ends
        rcases ends with ⟨alternate, d, more, length, string, split, run⟩ | ⟨_, split, _⟩
        · rw [split] at renders complete
          obtain ⟨s1, args', shown, out', converted, put, parts, later, passed⟩ := convert_renders
            (s := { s with buf := s.buf + 1 + n, reads := reads }) renders passes
          obtain ⟨buf, read⟩ := convert_stays converted
          simp only at buf read put
          obtain ⟨s', run', text, stop, seen⟩ := @ih { s1 with buf := s1.buf + 1 } more args' out'
            (by rw [buf]; exact string) (by omega) later passed fun last => complete (List.mem_cons_of_mem _ last)
          simp only [buf, read, put] at text stop seen
          have switched : ReadsTo s.reads reads (s.buf + 1 + tail.length) :=
            (readsTo_here (Nat.le_refl s.buf)).trans inside (by omega) (Nat.le_refl _)
          refine ⟨s', ?_, ?_, ?_, switched.trans seen ?_ ?_⟩
          · rw [if_pos percent, run, converted]
            exact run'
          · rw [text, parts, List.append_assoc]
          all_goals
            rw [List.length_cons]
            omega
        · rw [split] at complete
          exact absurd (List.mem_singleton_self _) complete
      · have whole : formatPieces none (c :: tail) = .literal c :: formatPieces none tail := if_neg percent
        rw [whole] at renders complete
        cases renders with
        | literal later =>
          rename_i out
          obtain ⟨s', run, text, stop, seen⟩ :=
            @ih { s with out := s.out ++ [c], buf := s.buf + 1, reads := s.buf :: s.reads } tail args out holds.tail
              (by omega) later passes fun last => complete (List.mem_cons_of_mem _ last)
          simp only at text stop seen
          refine ⟨s', ?_, ?_, ?_, (readsTo_here (Nat.le_refl s.buf)).trans seen (Nat.le_add_right ..) ?_⟩
          · rw [if_neg percent]
            exact run
          · rw [text, List.append_assoc]
            rfl
          all_goals
            rw [List.length_cons]
            omega

/-- A format that ends in a conversion is read behind its end. -/
theorem printfLoop_truncated {fuel : Nat} {s s' : Printing} {rest : List UInt8}
    (holds : StringAt p.format s.buf rest) (enough : rest.length < fuel) (truncated : .truncated ∈ formatPieces none rest)
    (done : p.printfLoop fuel s = some s') : s.buf + rest.length + 1 ∈ s'.reads := by
  induction fuel generalizing s rest with
  | zero => cases done
  | succ fuel ih =>
    rw [printfLoop] at done
    cases rest with
    | nil => cases truncated
    | cons c tail =>
      rw [List.length_cons] at enough
      have here : p.format s.buf = c := holds.chars 0 (by simp)
      rw [here, if_neg (holds.plain c (List.mem_cons_self ..))] at done
      by_cases percent : c = '%'.toUInt8
      · have whole : formatPieces none (c :: tail) = formatPieces (some false) tail := if_pos percent
        rw [whole] at truncated
        rw [if_pos percent] at done
        obtain ⟨s1, switched, later⟩ := Option.bind_eq_some_iff.mp done
        obtain ⟨n, reads, _, _, ends⟩ := formatCharSwitch_spec (fuel + 1)
          (s := { s with buf := s.buf + 1, reads := s.buf :: s.reads }) holds.tail (by omega) false
        simp only at ends
        rcases ends with ⟨alternate, d, more, length, string, split, run⟩ | ⟨length, _, run⟩
        · rw [run] at switched
          have buf := (convert_stays switched).1
          simp only at buf
          rw [split] at truncated
          have behind := @ih { s1 with buf := s1.buf + 1 } more (by rw [buf]; exact string) (by omega)
            (by simpa using truncated) later
          have place : s1.buf + 1 + more.length + 1 = s.buf + (c :: tail).length + 1 := by
            rw [buf, List.length_cons]
            omega
          simp only [place] at behind
          exact behind
        · rw [run] at switched
          cases switched
          have first := printfLoop_reads later _ (List.mem_cons_self ..)
          have place : s.buf + 1 + n + 1 = s.buf + (c :: tail).length + 1 := by
            rw [List.length_cons]
            omega
          simp only [place] at first
          exact first
      · have whole : formatPieces none (c :: tail) = .literal c :: formatPieces none tail := if_neg percent
        rw [whole] at truncated
        rw [if_neg percent] at done
        have behind := ih holds.tail (by omega) (by simpa using truncated) done
        have place : s.buf + 1 + tail.length + 1 = s.buf + (c :: tail).length + 1 := by
          rw [List.length_cons]
          omega
        rw [← place]
        exact behind

/-- With the format `str`, `printf` comes to an end, puts out `out`, reads no
place of the format behind its NUL and returns the length. -/
def PrintsAs (p : PrintfCall) (str out : List UInt8) : Prop :=
  ∃ bound, ∀ fuel, bound ≤ fuel → ∃ s, p.printf fuel = some s ∧ s.out = out ∧ (∀ i ∈ s.reads, i ≤ str.length) ∧
    s.buf = str.length

theorem not_printsAs {str out : List UInt8} (holds : StringAt p.format 0 str)
    (truncated : .truncated ∈ formatPieces none str) : ¬ p.PrintsAs str out := by
  rintro ⟨bound, runs⟩
  obtain ⟨s, run, _, inside, _⟩ := runs (bound + str.length + 1) (by omega)
  have behind := inside _ (printfLoop_truncated holds (by omega) truncated run)
  simp only at behind
  omega

end PrintfCall

/-- For every format and all matching arguments `printf` renders the format
and stops at its end, exactly when the format does not end in a conversion:
a `%` with nothing but `#` behind it. -/
theorem printf_renders {p : PrintfCall} {str : List UInt8} (holds : StringAt p.format 0 str) {args : List Arg}
    {out : List UInt8} (renders : Renders (formatPieces none str) args out) (passes : p.Passes 0 args) :
    p.PrintsAs str out ↔ .truncated ∉ formatPieces none str := by
  constructor
  · exact fun prints truncated => PrintfCall.not_printsAs holds truncated prints
  · intro complete
    refine ⟨str.length + 1, fun fuel enough => ?_⟩
    obtain ⟨s, run, text, stop, inside⟩ := PrintfCall.printfLoop_renders (p := p) (s := ⟨0, 0, [], []⟩) holds enough
      renders passes complete
    simp only [Nat.zero_add, List.nil_append] at text stop inside
    exact ⟨s, run, text, fun i member => (inside i member).resolve_left List.not_mem_nil, stop⟩

/-- A call of `printf` with one word behind the format. -/
def sampleCall (format : String) (word : Word) : PrintfCall where
  format := cString (format.toList.map Char.toUInt8)
  args := fun _ => word
  mem := fun _ => 0
  convBuf := fun _ _ => 0

/-- The least signed number. -/
theorem printf_renders_sample : (sampleCall "%d" 0x80000000).PrintsAs ("%d".toList.map Char.toUInt8)
    (signedNumeral (-2147483648) ++ []) := by
  have parsed : formatPieces none ("%d".toList.map Char.toUInt8) = [.conversion false 'd'.toUInt8] := by
    decide +kernel
  have shown : (Arg.num 0x80000000).shown false 'd'.toUInt8 = some (signedNumeral (-2147483648)) := by
    decide +kernel
  have holds : StringAt (sampleCall "%d" 0x80000000).format 0 ("%d".toList.map Char.toUInt8) :=
    cString_stringAt (by decide +kernel)
  refine (@printf_renders _ _ holds [.num 0x80000000] _ ?_ ?_).mpr ?_
  · rw [parsed]
    exact .argument shown .nil
  · intro j inside
    obtain rfl : j = 0 := by
      rw [List.length_singleton] at inside
      omega
    rfl
  · rw [parsed]
    decide

/-- The format `%` alone. -/
theorem printf_reads_on : ¬ ∀ (p : PrintfCall) (str : List UInt8) (args : List Arg) (out : List UInt8),
    StringAt p.format 0 str → Renders (formatPieces none str) args out → p.Passes 0 args → p.PrintsAs str out := by
  intro always
  have parsed : formatPieces none ("%".toList.map Char.toUInt8) = [.truncated] := by
    decide +kernel
  have holds : StringAt (sampleCall "%" 0).format 0 ("%".toList.map Char.toUInt8) :=
    cString_stringAt (by decide +kernel)
  have prints := always (sampleCall "%" 0) _ [] [] holds (by rw [parsed]; exact .truncated .nil)
    (fun _ inside => absurd inside (Nat.not_lt_zero _))
  exact PrintfCall.not_printsAs holds (by rw [parsed]; exact List.mem_singleton_self _) prints

/-- The two formats of `handle_exception`, around the name of the exception. -/
def exceptionFormat (errCode : Word) : List Char :=
  if errCode = -1 then "EXCEPTION DETECTED      Exception: %s\n\n".toList
  else "EXCEPTION DETECTED      Exception: %s - Error Code: 0x%x\n".toList

def exceptionArgs (id : Fin 20) (errCode : Word) : List Arg :=
  .text ((exceptionMessages.get id).toList.map Char.toUInt8) :: if errCode = -1 then [] else [.num errCode]

theorem renders_literals (lits : List UInt8) {ps : List Piece} {args : List Arg} {out : List UInt8}
    (rest : Renders ps args out) : Renders (lits.map .literal ++ ps) args (lits ++ out) := by
  induction lits with
  | nil => exact rest
  | cons c lits ih => exact .literal ih

/-- The hexadecimal digits of the exception message are those of `itoa`. -/
theorem itoaHex_numeral (value : Word) : (itoaHex value).map Char.toUInt8 = numeral 16 value.toNat := by
  have digit : ∀ d : Fin 16, (Nat.digitChar d).toUpper.toUInt8 = digitChar d := by decide +kernel
  have digits (n : Nat) (positive : 0 < n) : ((Nat.toDigits 16 n).map Char.toUpper).map Char.toUInt8 =
      ((Nat.digits 16 n).map digitChar).reverse := by
    induction n using Nat.strongRecOn with
    | ind n ih =>
      rw [Nat.toDigits_eq_if (by decide), Nat.digits_def' (by decide) positive]
      by_cases small : n < 16
      · rw [if_pos small, Nat.div_eq_of_lt small, Nat.mod_eq_of_lt small, Nat.digits_zero]
        exact congrArg (fun c => [c]) (digit ⟨n, small⟩)
      · have last : ([(n % 16).digitChar].map Char.toUpper).map Char.toUInt8 = [digitChar (n % 16)] :=
          congrArg (fun c => [c]) (digit ⟨n % 16, Nat.mod_lt n (by decide)⟩)
        rw [if_neg small, List.map_append, List.map_append, ih (n / 16) (by omega) (by omega), last, List.map_cons,
          List.reverse_cons]
  unfold itoaHex numeral
  by_cases zero : value.toNat = 0
  · rw [if_pos zero, zero]
    decide +kernel
  · rw [if_neg zero]
    exact digits _ (by omega)

theorem renders_text {title msg last : List UInt8} :
    Renders (title.map .literal ++ (.conversion false 's'.toUInt8 :: last.map .literal)) [.text msg]
      (title ++ (msg ++ last)) := by
  have tail := renders_literals last .nil
  rw [List.append_nil, List.append_nil] at tail
  exact renders_literals _ (.argument rfl tail)

theorem renders_code {title msg label last : List UInt8} {value : Word} :
    Renders (title.map .literal ++ (.conversion false 's'.toUInt8 :: (label.map .literal ++
        (.conversion false 'x'.toUInt8 :: last.map .literal)))) [.text msg, .num value]
      (title ++ (msg ++ (label ++ (numeral 16 value.toNat ++ last)))) := by
  have tail := renders_literals last .nil
  rw [List.append_nil, List.append_nil] at tail
  exact renders_literals _ (.argument rfl (renders_literals _ (.argument rfl tail)))

/-- What the model of `handle_exception` puts out is what its `printf` renders. -/
theorem exceptionText_renders (id : Fin 20) (errCode : Word) :
    Renders (formatPieces none ((exceptionFormat errCode).map Char.toUInt8)) (exceptionArgs id errCode)
      ((exceptionText id errCode).map Char.toUInt8) := by
  by_cases plain : errCode = -1
  · have parsed : formatPieces none ((exceptionFormat (-1)).map Char.toUInt8) =
        ("EXCEPTION DETECTED      Exception: ".toList.map Char.toUInt8).map .literal ++
          (.conversion false 's'.toUInt8 :: ("\n\n".toList.map Char.toUInt8).map .literal) := by
      decide +kernel
    rw [plain, parsed, exceptionText_plain]
    unfold exceptionTitle
    rw [List.map_append, List.map_append, List.append_assoc]
    exact renders_text
  · have parsed :
        formatPieces none ("EXCEPTION DETECTED      Exception: %s - Error Code: 0x%x\n".toList.map Char.toUInt8) =
          ("EXCEPTION DETECTED      Exception: ".toList.map Char.toUInt8).map .literal ++
          (.conversion false 's'.toUInt8 :: ((" - Error Code: 0x".toList.map Char.toUInt8).map .literal ++
            (.conversion false 'x'.toUInt8 :: ("\n".toList.map Char.toUInt8).map .literal))) := by
      decide +kernel
    rw [exceptionFormat, exceptionArgs, if_neg plain, if_neg plain, parsed, exceptionText_coded id plain]
    unfold exceptionTitle
    rw [List.map_append, List.map_append, List.map_append, List.map_append, itoaHex_numeral,
      List.append_assoc, List.append_assoc]
    exact renders_code

end UnixLite
