import Mathlib.Logic.Function.Iterate
import UnixLite.Library.I386
import UnixLite.Library.Loops
import UnixLite.Library.Regions

namespace InlineAsm
open I386 Loops

/-- The registers, the memory byte by byte, the address at which the segment
of each selector begins, the two data selectors, and the flags that the jumps
and the string instructions look at. -/
structure Cpu where
  reg : Reg → BitVec 32
  mem : BitVec 32 → BitVec 8
  base : BitVec 16 → BitVec 32
  ds : BitVec 16
  es : BitVec 16
  zero : Bool
  carry : Bool
  direction : Bool

inductive Operand
  | imm (v : BitVec 32)
  | reg (r : Reg)
  deriving DecidableEq

/-- Instructions that go on to the next one, in the operand order of the
assembler. A byte or word move names the register whose low part it moves;
`leal d b i r` is `leal d(b, i), r`; a shift goes by one place or more. -/
inductive Op
  | testl (s : Operand) (r : Reg)
  | addl (s : Operand) (r : Reg)
  | subl (s : Operand) (r : Reg)
  | andl (s : Operand) (r : Reg)
  | shrl (count : Nat) (r : Reg)
  | cmpl (s : Operand) (r : Reg)
  | movl (s : Operand) (r : Reg)
  | leal (d : BitVec 32) (b i r : Reg)
  | movbLoad (a r : Reg)
  | movbStore (r a : Reg)
  | movwFromDs (r : Reg)
  | movwToEs (r : Reg)
  | cld
  | std
  | repStosl
  | repMovsl
  | repMovsb
  deriving DecidableEq

section Words

variable (mem : BitVec 32 → BitVec 8) (o a v : BitVec 32)

theorem update_shift (b : BitVec 8) :
    (fun x => Function.update mem (o + a) b (o + x)) = Function.update (fun x => mem (o + x)) a b := by
  funext x
  by_cases here : x = a
  · rw [here, Function.update_self, Function.update_self]
  · have other : o + x ≠ o + a := fun same => here (by simpa using same)
    rw [Function.update_of_ne here, Function.update_of_ne other]

theorem store_shift : (fun x => store mem (o + a) v (o + x)) = store (fun x => mem (o + x)) a v := by
  funext x
  have place : o + x - (o + a) = x - a := by bv_omega
  rw [store, store, place]

theorem load_shift : load mem (o + a) = load (fun x => mem (o + x)) a := by
  simp only [load, BitVec.add_assoc]

@[simp]
theorem low_half (high low : BitVec 16) : BitVec.extractLsb' 0 16 (high ++ low : BitVec 32) = low :=
  (BitVec.extractLsb'_append_eq_of_add_le (by omega)).trans BitVec.extractLsb'_eq_self

@[simp]
theorem low_quarter (high : BitVec 24) (low : BitVec 8) : BitVec.extractLsb' 0 8 (high ++ low : BitVec 32) = low :=
  (BitVec.extractLsb'_append_eq_of_add_le (by omega)).trans BitVec.extractLsb'_eq_self

theorem append_byte (b : Nat → BitVec 8) {i : Nat} (inside : i < 4) :
    (b 3 ++ b 2 ++ b 1 ++ b 0).extractLsb' (8 * i) 8 = b i := by
  obtain rfl | rfl | rfl | rfl : i = 0 ∨ i = 1 ∨ i = 2 ∨ i = 3 := by omega
  · rw [BitVec.extractLsb'_append_eq_of_add_le (by omega)]
    exact BitVec.extractLsb'_eq_self
  · rw [BitVec.extractLsb'_append_eq_of_le (by omega), BitVec.extractLsb'_append_eq_of_add_le (by omega)]
    exact BitVec.extractLsb'_eq_self
  · rw [BitVec.extractLsb'_append_eq_of_le (by omega), BitVec.extractLsb'_append_eq_of_le (by omega),
      BitVec.extractLsb'_append_eq_of_add_le (by omega)]
    exact BitVec.extractLsb'_eq_self
  · rw [BitVec.extractLsb'_append_eq_of_le (by omega), BitVec.extractLsb'_append_eq_of_le (by omega),
      BitVec.extractLsb'_append_eq_of_le (by omega)]
    exact BitVec.extractLsb'_eq_self

theorem load_byte {i : Nat} (inside : i < 4) : (load mem a).extractLsb' (8 * i) 8 = mem (a + BitVec.ofNat 32 i) := by
  have bytes := append_byte (fun i => mem (a + BitVec.ofNat 32 i)) inside
  rw [BitVec.add_zero] at bytes
  exact bytes

theorem low_byte : v &&& 0xFF = (v.setWidth 8).setWidth 32 := by
  apply BitVec.eq_of_toNat_eq
  have mask : v.toNat &&& BitVec.toNat (255 : BitVec 32) = v.toNat % 256 := Nat.and_two_pow_sub_one_eq_mod _ 8
  simp only [BitVec.toNat_and, BitVec.toNat_setWidth]
  omega

theorem shifted_byte (b : BitVec 8) {m i : Nat} (inside : i < 4) :
    (b.setWidth 32 <<< (8 * m)).extractLsb' (8 * i) 8 = if i = m then b else 0 := by
  apply BitVec.eq_of_getLsbD_eq
  intro j small
  simp only [BitVec.getLsbD_extractLsb', BitVec.getLsbD_shiftLeft, BitVec.getLsbD_setWidth]
  rcases Nat.lt_trichotomy i m with below | rfl | above
  · simp [show 8 * i + j < 8 * m by omega, show i ≠ m by omega]
  · simp [small, show 8 * i + j < 32 by omega, show j < 32 by omega]
  · simp [b.getLsbD_of_ge (8 * i + j - 8 * m) (by omega), show i ≠ m by omega]

/-- A word put together from one byte has it in every place. -/
theorem repeated_byte (b : BitVec 8) {i : Nat} (inside : i < 4) :
    (b.setWidth 32 <<< 24 ||| b.setWidth 32 <<< 16 ||| b.setWidth 32 <<< 8 ||| b.setWidth 32).extractLsb' (8 * i) 8 =
      b := by
  have first := shifted_byte (m := 0) b inside
  rw [Nat.mul_zero, BitVec.shiftLeft_zero] at first
  have second : (b.setWidth 32 <<< 8).extractLsb' (8 * i) 8 = _ := shifted_byte (m := 1) b inside
  have third : (b.setWidth 32 <<< 16).extractLsb' (8 * i) 8 = _ := shifted_byte (m := 2) b inside
  have fourth : (b.setWidth 32 <<< 24).extractLsb' (8 * i) 8 = _ := shifted_byte (m := 3) b inside
  rw [BitVec.extractLsb'_or, BitVec.extractLsb'_or, BitVec.extractLsb'_or, first, second, third, fourth]
  obtain rfl | rfl | rfl | rfl : i = 0 ∨ i = 1 ∨ i = 2 ∨ i = 3 := by omega
  all_goals simp

/-- A word whose bytes are those of `f` extends what was written by four. -/
theorem store_end {f : Nat → BitVec 8} {lo k : Nat} (lower : lo ≤ k) (small : k + 4 ≤ 2 ^ 32)
    (bytes : ∀ i < 4, v.extractLsb' (8 * i) 8 = f (k + i)) :
    store (Regions.written mem a f lo k) (a + BitVec.ofNat 32 k) v = Regions.written mem a f lo (k + 4) := by
  funext x
  have place : (x - (a + BitVec.ofNat 32 k)).toNat = ((x - a).toNat + (2 ^ 32 - k)) % 2 ^ 32 := by
    have split : x - (a + BitVec.ofNat 32 k) = x - a - BitVec.ofNat 32 k := by rw [BitVec.sub_sub]
    rw [split, BitVec.toNat_sub, BitVec.toNat_ofNat, @Nat.mod_eq_of_lt k _ (by omega), Nat.add_comm]
  have bound := (x - a).isLt
  rw [store, Regions.written, Regions.written, place]
  by_cases new : k ≤ (x - a).toNat ∧ (x - a).toNat < k + 4
  · have offset : ((x - a).toNat + (2 ^ 32 - k)) % 2 ^ 32 = (x - a).toNat - k := by omega
    rw [offset, if_pos (by omega), if_pos (by omega), bytes _ (by omega)]
    congr 1
    omega
  · rw [if_neg (by omega)]
    by_cases old : lo ≤ (x - a).toNat ∧ (x - a).toNat < k
    · rw [if_pos old, if_pos (by omega)]
    · rw [if_neg old, if_neg (by omega)]

end Words

namespace Cpu

variable (c : Cpu)

def set (r : Reg) (v : BitVec 32) : Cpu := { c with reg := Function.update c.reg r v }

def value : Operand → BitVec 32
  | .imm v => v
  | .reg r => c.reg r

/-- The flags of a result. -/
def flags (v : BitVec 32) (carry : Bool) : Cpu := { c with zero := v == 0, carry := carry }

def setEs (selector : BitVec 16) : Cpu := { c with es := selector }

def setDirection (down : Bool) : Cpu := { c with direction := down }

/-- Bytes and words at an address in the segment of a selector. -/
def byteAt (selector : BitVec 16) (a : BitVec 32) : BitVec 8 := c.mem (c.base selector + a)

def putByte (selector : BitVec 16) (a : BitVec 32) (b : BitVec 8) : Cpu :=
  { c with mem := Function.update c.mem (c.base selector + a) b }

def wordAt (selector : BitVec 16) (a : BitVec 32) : BitVec 32 := load c.mem (c.base selector + a)

def putWord (selector : BitVec 16) (a v : BitVec 32) : Cpu :=
  { c with mem := store c.mem (c.base selector + a) v }

/-- Where the segment of `ds` begins. -/
def origin : BitVec 32 := c.base c.ds

/-- The memory as the pointers of C see it, through `ds`. -/
def data (a : BitVec 32) : BitVec 8 := c.mem (c.origin + a)

section Lemmas

variable (a v : BitVec 32)

@[simp]
theorem value_imm : c.value (.imm v) = v := rfl

@[simp]
theorem value_reg (r : Reg) : c.value (.reg r) = c.reg r := rfl

section Set

variable {r q : Reg}

@[simp]
theorem set_reg_self : (c.set r v).reg r = v := by simp [set]

@[simp]
theorem set_reg_other (other : q ≠ r) : (c.set r v).reg q = c.reg q := by simp [set, other]

@[simp]
theorem set_ds : (c.set r v).ds = c.ds := by simp [set]

@[simp]
theorem set_es : (c.set r v).es = c.es := by simp [set]

@[simp]
theorem set_direction : (c.set r v).direction = c.direction := rfl

@[simp]
theorem set_origin : (c.set r v).origin = c.origin := rfl

@[simp]
theorem set_data : (c.set r v).data = c.data := rfl

end Set

section Modes

variable (carry down : Bool) (selector : BitVec 16)

@[simp]
theorem flags_reg : (c.flags v carry).reg = c.reg := rfl

@[simp]
theorem flags_ds : (c.flags v carry).ds = c.ds := by simp [flags]

@[simp]
theorem flags_es : (c.flags v carry).es = c.es := by simp [flags]

@[simp]
theorem flags_direction : (c.flags v carry).direction = c.direction := rfl

@[simp]
theorem flags_origin : (c.flags v carry).origin = c.origin := rfl

@[simp]
theorem flags_data : (c.flags v carry).data = c.data := rfl

@[simp]
theorem flags_carry : (c.flags v carry).carry = carry := rfl

@[simp]
theorem setEs_reg : (c.setEs selector).reg = c.reg := rfl

@[simp]
theorem setEs_ds : (c.setEs selector).ds = c.ds := by simp [setEs]

@[simp]
theorem setEs_direction : (c.setEs selector).direction = c.direction := rfl

@[simp]
theorem setEs_origin : (c.setEs selector).origin = c.origin := rfl

@[simp]
theorem setEs_data : (c.setEs selector).data = c.data := rfl

@[simp]
theorem setEs_es : (c.setEs selector).es = selector := rfl

@[simp]
theorem setDirection_reg : (c.setDirection down).reg = c.reg := rfl

@[simp]
theorem setDirection_ds : (c.setDirection down).ds = c.ds := by simp [setDirection]

@[simp]
theorem setDirection_es : (c.setDirection down).es = c.es := by simp [setDirection]

@[simp]
theorem setDirection_origin : (c.setDirection down).origin = c.origin := rfl

@[simp]
theorem setDirection_data : (c.setDirection down).data = c.data := rfl

@[simp]
theorem setDirection_direction : (c.setDirection down).direction = down := rfl

end Modes

section Put

variable {selector : BitVec 16} (b : BitVec 8)

@[simp]
theorem byteAt_data (through : selector = c.ds) : c.byteAt selector a = c.data a := by
  subst through
  rfl

@[simp]
theorem wordAt_data (through : selector = c.ds) : c.wordAt selector a = load c.data a := by
  subst through
  exact load_shift c.mem c.origin a

@[simp]
theorem putByte_data (through : selector = c.ds) :
    (c.putByte selector a b).data = Function.update c.data a b := by
  subst through
  exact update_shift c.mem c.origin a b

@[simp]
theorem putWord_data (through : selector = c.ds) : (c.putWord selector a v).data = store c.data a v := by
  subst through
  exact store_shift c.mem c.origin a v

@[simp]
theorem putByte_reg : (c.putByte selector a b).reg = c.reg := rfl

@[simp]
theorem putByte_ds : (c.putByte selector a b).ds = c.ds := by simp [putByte]

@[simp]
theorem putByte_es : (c.putByte selector a b).es = c.es := by simp [putByte]

@[simp]
theorem putByte_direction : (c.putByte selector a b).direction = c.direction := rfl

@[simp]
theorem putByte_origin : (c.putByte selector a b).origin = c.origin := rfl

@[simp]
theorem putWord_reg : (c.putWord selector a v).reg = c.reg := rfl

@[simp]
theorem putWord_ds : (c.putWord selector a v).ds = c.ds := by simp [putWord]

@[simp]
theorem putWord_es : (c.putWord selector a v).es = c.es := by simp [putWord]

@[simp]
theorem putWord_direction : (c.putWord selector a v).direction = c.direction := rfl

@[simp]
theorem putWord_origin : (c.putWord selector a v).origin = c.origin := rfl

end Put

end Lemmas

/-- The pointer of a string instruction moves by the size of an element. -/
def advance (r : Reg) (size : BitVec 32) : Cpu :=
  c.set r (if c.direction then c.reg r - size else c.reg r + size)

def stosl : Cpu := (c.putWord c.es (c.reg .edi) (c.reg .eax)).advance .edi 4

def movsl : Cpu := ((c.putWord c.es (c.reg .edi) (c.wordAt c.ds (c.reg .esi))).advance .esi 4).advance .edi 4

def movsb : Cpu := ((c.putByte c.es (c.reg .edi) (c.byteAt c.ds (c.reg .esi))).advance .esi 1).advance .edi 1

/-- One round of `rep` counts `ecx` down. -/
def counted (once : Cpu → Cpu) : Cpu := (once c).set .ecx ((once c).reg .ecx - 1)

def rep (once : Cpu → Cpu) : Cpu := (fun c => c.counted once)^[(c.reg .ecx).toNat] c

def exec : Op → Cpu
  | .testl s r => c.flags (c.reg r &&& c.value s) false
  | .addl s r => (c.set r (c.reg r + c.value s)).flags (c.reg r + c.value s) ((c.reg r).uaddOverflow (c.value s))
  | .subl s r => (c.set r (c.reg r - c.value s)).flags (c.reg r - c.value s) ((c.reg r).usubOverflow (c.value s))
  | .andl s r => (c.set r (c.reg r &&& c.value s)).flags (c.reg r &&& c.value s) false
  | .shrl count r => (c.set r (c.reg r >>> count)).flags (c.reg r >>> count) ((c.reg r).getLsbD (count - 1))
  | .cmpl s r => c.flags (c.reg r - c.value s) ((c.reg r).usubOverflow (c.value s))
  | .movl s r => c.set r (c.value s)
  | .leal d b i r => c.set r (d + c.reg b + c.reg i)
  | .movbLoad a r => c.set r ((c.reg r).extractLsb' 8 24 ++ c.byteAt c.ds (c.reg a))
  | .movbStore r a => c.putByte c.ds (c.reg a) ((c.reg r).extractLsb' 0 8)
  | .movwFromDs r => c.set r ((c.reg r).extractLsb' 16 16 ++ c.ds)
  | .movwToEs r => c.setEs ((c.reg r).extractLsb' 0 16)
  | .cld => c.setDirection false
  | .std => c.setDirection true
  | .repStosl => c.rep stosl
  | .repMovsl => c.rep movsl
  | .repMovsb => c.rep movsb

/-- What `rep` preserves round by round holds after as many rounds as `ecx` says. -/
theorem rep_rounds (Inv : Nat → Cpu → Prop) {once : Cpu → Cpu} {n : Nat} (count : (c.reg .ecx).toNat = n)
    (start : Inv 0 c) (round : ∀ k c', k < n → Inv k c' → Inv (k + 1) (c'.counted once)) :
    Inv n (c.rep once) := by
  have rounds (k : Nat) (inside : k ≤ n) : Inv k ((fun c' => c'.counted once)^[k] c) := by
    induction k with
    | zero => exact start
    | succ k ih =>
      rw [Function.iterate_succ_apply']
      exact round k _ inside (ih (by omega))
  rw [rep, count]
  exact rounds n (Nat.le_refl n)

end Cpu

/-- Code, with labels in their place. -/
inductive Instr (ℓ : Type)
  | label (l : ℓ)
  | op (o : Op)
  | jmp (l : ℓ)
  | jz (l : ℓ)
  | jae (l : ℓ)
  deriving DecidableEq

section Running

variable {ℓ : Type} [DecidableEq ℓ]

/-- The code from a label on. -/
def target (code : List (Instr ℓ)) (l : ℓ) : List (Instr ℓ) := code.dropWhile (· ≠ .label l)

/-- One instruction, of what is left to execute; the end of the code is left. -/
def step (code : List (Instr ℓ)) : List (Instr ℓ) × Cpu → (List (Instr ℓ) × Cpu) ⊕ Cpu
  | ([], c) => .inr c
  | (.label _ :: rest, c) => .inl (rest, c)
  | (.op o :: rest, c) => .inl (rest, c.exec o)
  | (.jmp l :: _, c) => .inl (target code l, c)
  | (.jz l :: rest, c) => .inl (if c.zero then target code l else rest, c)
  | (.jae l :: rest, c) => .inl (if c.carry then rest else target code l, c)

def run (code : List (Instr ℓ)) (fuel : Nat) (c : Cpu) : Option Cpu := loop (step code) fuel (code, c)

/-- The code that is left comes to its end, in a state with `Q`. -/
def Reaches (code rest : List (Instr ℓ)) (c : Cpu) (Q : Cpu → Prop) : Prop :=
  ∃ c', Ends (step code) (rest, c) c' ∧ Q c'

section Rules

variable {code rest : List (Instr ℓ)} {c : Cpu} {Q : Cpu → Prop} {l : ℓ}

theorem Reaches.next {rest' : List (Instr ℓ)} {c' : Cpu} (later : Reaches code rest' c' Q)
    (goes : step code (rest, c) = .inl (rest', c')) : Reaches code rest c Q := by
  obtain ⟨last, ends, holds⟩ := later
  exact ⟨last, ends.next goes, holds⟩

theorem Reaches.nil (holds : Q c) : Reaches code [] c Q := ⟨c, .done rfl, holds⟩

theorem Reaches.label (later : Reaches code rest c Q) : Reaches code (.label l :: rest) c Q := later.next rfl

theorem Reaches.op {o : Op} (later : Reaches code rest (c.exec o) Q) : Reaches code (.op o :: rest) c Q :=
  later.next rfl

theorem Reaches.jmp (later : Reaches code (target code l) c Q) : Reaches code (.jmp l :: rest) c Q := later.next rfl

theorem Reaches.jz (taken : c.zero = true → Reaches code (target code l) c Q)
    (passed : c.zero = false → Reaches code rest c Q) : Reaches code (.jz l :: rest) c Q := by
  cases zero : c.zero with
  | false => exact (passed zero).next (by simp [step, zero])
  | true => exact (taken zero).next (by simp [step, zero])

theorem Reaches.jae (taken : c.carry = false → Reaches code (target code l) c Q)
    (passed : c.carry = true → Reaches code rest c Q) : Reaches code (.jae l :: rest) c Q := by
  cases carry : c.carry with
  | false => exact (taken carry).next (by simp [step, carry])
  | true => exact (passed carry).next (by simp [step, carry])

/-- A jump behind the test of a register against zero. -/
theorem Reaches.testJz {r : Reg}
    (taken : (c.reg r).toNat = 0 → Reaches code (target code l) (c.exec (.testl (.reg r) r)) Q)
    (passed : (c.reg r).toNat ≠ 0 → Reaches code rest (c.exec (.testl (.reg r) r)) Q) :
    Reaches code (.op (.testl (.reg r) r) :: .jz l :: rest) c Q := by
  have zero : (c.exec (.testl (.reg r) r)).zero = true ↔ (c.reg r).toNat = 0 := by
    simp [Cpu.exec, Cpu.flags, Cpu.value, ← BitVec.toNat_inj]
  refine .op (.jz (fun set => taken (zero.mp set)) fun clear => passed fun none => ?_)
  rw [zero.mpr none] at clear
  cases clear

/-- A piece of straight-line code. -/
theorem Reaches.ops {ops : List Op} (later : Reaches code rest (ops.foldl Cpu.exec c) Q) :
    Reaches code (ops.map .op ++ rest) c Q := by
  induction ops generalizing c with
  | nil => exact later
  | cons o ops ih => exact Reaches.op (ih later)

theorem Reaches.imp {Q' : Cpu → Prop} (reaches : Reaches code rest c Q) (weaker : ∀ c', Q c' → Q' c') :
    Reaches code rest c Q' := by
  obtain ⟨last, ends, holds⟩ := reaches
  exact ⟨last, ends, weaker last holds⟩

theorem Reaches.run (reaches : Reaches code code c Q) :
    ∃ c', Q c' ∧ ∃ enough, ∀ fuel ≥ enough, run code fuel c = some c' := by
  obtain ⟨last, ⟨enough, ended⟩, holds⟩ := reaches
  exact ⟨last, holds, enough, fun _ more => loop_mono ended more⟩

end Rules

end Running

end InlineAsm
