import Mathlib.Algebra.Group.Nat.Defs
import Mathlib.Data.List.Basic
import Mathlib.Logic.Function.Basic

namespace I386

inductive Reg
  | eax | ebx | ecx | edx | esi | edi | ebp | esp
  deriving DecidableEq

/-- The registers, the memory byte by byte, and the flags that signed jumps
look at. -/
structure Machine where
  reg : Reg → BitVec 32
  mem : BitVec 32 → BitVec 8
  zero : Bool
  sign : Bool
  overflow : Bool

/-- The word at `a`, least byte first. -/
def load (mem : BitVec 32 → BitVec 8) (a : BitVec 32) : BitVec 32 :=
  mem (a + 3) ++ mem (a + 2) ++ mem (a + 1) ++ mem a

def store (mem : BitVec 32 → BitVec 8) (a v : BitVec 32) (x : BitVec 32) : BitVec 8 :=
  if (x - a).toNat < 4 then v.extractLsb' (8 * (x - a).toNat) 8 else mem x

theorem load_store_self (mem : BitVec 32 → BitVec 8) (a v : BitVec 32) : load (store mem a v) a = v := by
  have byte (d : BitVec 32) (small : d.toNat < 4) :
      store mem a v (a + d) = v.extractLsb' (8 * d.toNat) 8 := by
    have place : a + d - a = d := by rw [BitVec.add_comm, BitVec.add_sub_cancel]
    rw [store, place, if_pos small]
  have first : store mem a v a = v.extractLsb' 0 8 := by
    rw [store, BitVec.sub_self, if_pos (by decide)]
    rfl
  rw [load, byte 3 (by decide), byte 2 (by decide), byte 1 (by decide), first]
  apply BitVec.eq_of_getLsbD_eq
  intro i inside
  simp only [BitVec.getLsbD_append, BitVec.getLsbD_extractLsb']
  rcases Nat.lt_or_ge i 8 with low | high
  · simp [low]
  rcases Nat.lt_or_ge i 16 with low | high
  · simp [show ¬ i < 8 by omega, show i - 8 < 8 by omega, show 8 + (i - 8) = i by omega]
  rcases Nat.lt_or_ge i 24 with low | high
  · simp [show ¬ i < 8 by omega, show ¬ i - 8 < 8 by omega, show i - 8 - 8 < 8 by omega,
      show 16 + (i - 8 - 8) = i by omega]
  · simp [show ¬ i < 8 by omega, show ¬ i - 8 < 8 by omega, show ¬ i - 8 - 8 < 8 by omega,
      show i - 8 - 8 - 8 < 8 by omega, show 24 + (i - 8 - 8 - 8) = i by omega]

/-- A word is read from its four bytes. -/
theorem load_congr {mem mem' : BitVec 32 → BitVec 8} {a : BitVec 32}
    (same : ∀ d, d < 4 → mem' (a + BitVec.ofNat 32 d) = mem (a + BitVec.ofNat 32 d)) :
    load mem' a = load mem a := by
  have first := same 0 (by decide)
  rw [BitVec.add_zero] at first
  have second := same 1 (by decide)
  have third := same 2 (by decide)
  have fourth := same 3 (by decide)
  simp only [load, first]
  rw [show mem' (a + 1) = mem (a + 1) from second, show mem' (a + 2) = mem (a + 2) from third,
    show mem' (a + 3) = mem (a + 3) from fourth]

/-- A word that lies `n` bytes behind the one stored keeps its value. -/
theorem load_store_behind (mem : BitVec 32 → BitVec 8) (a v : BitVec 32) {n : Nat} (behind : 4 ≤ n)
    (short : n + 4 ≤ 2 ^ 32) : load (store mem a v) (a + BitVec.ofNat 32 n) = load mem (a + BitVec.ofNat 32 n) := by
  refine load_congr fun d small => ?_
  have place : a + BitVec.ofNat 32 n + BitVec.ofNat 32 d - a = BitVec.ofNat 32 (n + d) := by
    rw [BitVec.add_assoc, BitVec.add_comm, BitVec.add_sub_cancel, BitVec.ofNat_add]
  rw [store, place, BitVec.toNat_ofNat, if_neg (by omega)]

namespace Machine

def set (m : Machine) (r : Reg) (v : BitVec 32) : Machine := { m with reg := Function.update m.reg r v }

def push (m : Machine) (v : BitVec 32) : Machine :=
  { m.set .esp (m.reg .esp - 4) with mem := store m.mem (m.reg .esp - 4) v }

/-- The word comes from the old top of the stack, also for `popl %esp`. -/
def pop (m : Machine) (r : Reg) : Machine :=
  (m.set .esp (m.reg .esp + 4)).set r (load m.mem (m.reg .esp))

section Stack

variable (m : Machine) (v : BitVec 32) {r q : Reg}

@[simp]
theorem push_reg (other : r ≠ .esp) : (m.push v).reg r = m.reg r := by
  simp [push, set, other]

@[simp]
theorem push_esp : (m.push v).reg .esp = m.reg .esp - 4 := by
  simp [push, set]

@[simp]
theorem pop_reg (other : q ≠ r) (below : q ≠ .esp) : (m.pop r).reg q = m.reg q := by
  simp [pop, set, other, below]

@[simp]
theorem pop_esp (other : r ≠ .esp) : (m.pop r).reg .esp = m.reg .esp + 4 := by
  simp [pop, set, other.symm]

end Stack

/-- `cmpl imm, r` -/
def cmp (m : Machine) (imm : BitVec 32) (r : Reg) : Machine :=
  { m with
    zero := m.reg r - imm == 0
    sign := (m.reg r - imm).msb
    overflow := BitVec.ssubOverflow (m.reg r) imm }

/-- The condition of `jg`. -/
def greater (m : Machine) : Bool := !m.zero && (m.sign == m.overflow)

/-- The condition of `jl`. -/
def less (m : Machine) : Bool := m.sign != m.overflow

theorem cmp_less (m : Machine) (imm : BitVec 32) (r : Reg) :
    (m.cmp imm r).less = true ↔ (m.reg r).toInt < imm.toInt := by
  have difference : (m.reg r - imm).toInt = ((m.reg r).toInt - imm.toInt).bmod (2 ^ 32) := BitVec.toInt_sub
  rw [Int.bmod_def] at difference
  have upper := @BitVec.toInt_lt 32 (m.reg r)
  have lower := BitVec.le_toInt (m.reg r)
  have immUpper := @BitVec.toInt_lt 32 imm
  have immLower := BitVec.le_toInt imm
  have sign : (m.reg r - imm).msb = decide ((m.reg r - imm).toInt < 0) := BitVec.msb_eq_toInt
  have overflow : BitVec.ssubOverflow (m.reg r) imm =
      decide ((m.reg r).toInt - imm.toInt ≥ 2 ^ 31 ∨ (m.reg r).toInt - imm.toInt < -2 ^ 31) := by
    rw [BitVec.ssubOverflow, Bool.decide_or]
  simp only [less, cmp, sign, overflow, bne_iff_ne, ne_eq, decide_eq_decide]
  split at difference <;> omega

theorem cmp_greater (m : Machine) (imm : BitVec 32) (r : Reg) :
    (m.cmp imm r).greater = true ↔ imm.toInt < (m.reg r).toInt := by
  have less := m.cmp_less imm r
  have zero : (m.cmp imm r).zero = true ↔ (m.reg r).toInt = imm.toInt := by
    simp only [cmp, beq_iff_eq, BitVec.toInt_inj]
    exact BitVec.sub_eq_iff_eq_add.trans (by simp)
  simp only [Machine.less, bne_iff_ne, ne_eq] at less
  simp only [greater, Bool.and_eq_true, Bool.not_eq_true', beq_iff_eq, ← Bool.not_eq_true, zero]
  by_cases agree : (m.cmp imm r).sign = (m.cmp imm r).overflow
  · simp only [agree, not_true_eq_false, false_iff] at less
    simp only [agree, and_true]
    omega
  · simp only [agree, not_false_eq_true, true_iff] at less
    simp only [agree, and_false, false_iff]
    omega

end Machine

/-- Instructions, with labels in their place in the code. `callTable` is
`call *table(index, scaled, 4)`. -/
inductive Instr (ℓ : Type)
  | label (l : ℓ)
  | pushl (r : Reg)
  | popl (r : Reg)
  | cmpl (imm : BitVec 32) (r : Reg)
  | jg (l : ℓ)
  | jl (l : ℓ)
  | jmp (l : ℓ)
  | movl (imm : BitVec 32) (r : Reg)
  | callTable (index scaled : Reg)
  | iret
  deriving DecidableEq

/-- What is left to execute, the machine, and the calls that were made, the
last one first, each with the machine that it found. -/
structure Config (ℓ κ : Type) where
  rest : List (Instr ℓ)
  machine : Machine
  calls : List (κ × Machine)

/-- Code with a table of callees. A callee is what its code does up to its
return; `returnAddress` is what a call pushes. -/
structure Program (ℓ κ : Type) where
  code : List (Instr ℓ)
  table : List κ
  callee : κ → Machine → Machine
  returnAddress : BitVec 32

namespace Program

variable {ℓ κ : Type} [DecidableEq ℓ]

/-- The code from a label on. -/
def target (p : Program ℓ κ) (l : ℓ) : List (Instr ℓ) := p.code.dropWhile (· ≠ .label l)

/-- The callee that the table of words holds at an offset. -/
def entry (p : Program ℓ κ) (offset : BitVec 32) : Option κ :=
  if offset.toNat % 4 = 0 then p.table[offset.toNat / 4]? else none

/-- One instruction. There is none behind the end of the code, and `iret`
leaves it; a call outside the table goes nowhere. -/
def step (p : Program ℓ κ) (c : Config ℓ κ) : Option (Config ℓ κ) :=
  match c.rest with
  | [] => none
  | .label _ :: rest => some { c with rest := rest }
  | .pushl r :: rest => some { c with rest := rest, machine := c.machine.push (c.machine.reg r) }
  | .popl r :: rest => some { c with rest := rest, machine := c.machine.pop r }
  | .cmpl imm r :: rest => some { c with rest := rest, machine := c.machine.cmp imm r }
  | .jg l :: rest => some { c with rest := if c.machine.greater then p.target l else rest }
  | .jl l :: rest => some { c with rest := if c.machine.less then p.target l else rest }
  | .jmp l :: _ => some { c with rest := p.target l }
  | .movl imm r :: rest => some { c with rest := rest, machine := c.machine.set r imm }
  | .callTable index scaled :: rest =>
    (p.entry (c.machine.reg index + 4 * c.machine.reg scaled)).map fun k =>
      let called := c.machine.push p.returnAddress
      { rest := rest, machine := p.callee k called, calls := (k, called) :: c.calls }
  | .iret :: _ => none

/-- Up to `iret`, where there is fuel for it. -/
def run (p : Program ℓ κ) : Nat → Config ℓ κ → Option (Config ℓ κ)
  | 0, _ => none
  | n + 1, c =>
    match c.rest with
    | .iret :: _ => some c
    | _ => (p.step c).bind (p.run n)

/-- More fuel changes nothing. -/
theorem run_more {p : Program ℓ κ} {n : Nat} {c r : Config ℓ κ} (done : p.run n c = some r) (m : Nat) :
    p.run (n + m) c = some r := by
  induction n generalizing c with
  | zero => cases done
  | succ n ih =>
    rw [Nat.add_right_comm]
    unfold run at done ⊢
    split at done
    · exact done
    · obtain ⟨next, moved, rest⟩ := Option.bind_eq_some_iff.mp done
      rw [moved]
      exact ih rest

end Program

/-- The i386 convention for a callee with `args` words on the stack, towards a
caller whose frame takes `frame` bytes above them. -/
structure Convention (args frame : Nat) (callee : Machine → Machine) : Prop where
  saved : ∀ m r, r ∈ [Reg.ebx, .esi, .edi, .ebp] → (callee m).reg r = m.reg r
  returns : ∀ m, (callee m).reg .esp = m.reg .esp + 4
  frame : ∀ m i, i < frame → (callee m).mem (m.reg .esp + BitVec.ofNat 32 (4 + 4 * args + i)) =
    m.mem (m.reg .esp + BitVec.ofNat 32 (4 + 4 * args + i))

/-- The words from the top of the stack on. -/
def Stacked (ws : List (BitVec 32)) (m : Machine) : Prop :=
  ∀ i (inside : i < ws.length), load m.mem (m.reg .esp + BitVec.ofNat 32 (4 * i)) = ws[i]

section Stacked

variable {m m' : Machine} {ws : List (BitVec 32)} {v : BitVec 32}

theorem Stacked.same (stacked : Stacked ws m) (esp : m'.reg .esp = m.reg .esp) (mem : m'.mem = m.mem) :
    Stacked ws m' := by
  intro i inside
  rw [esp, mem]
  exact stacked i inside

theorem slot_below (a : BitVec 32) (i : Nat) :
    a - 4 + BitVec.ofNat 32 (4 * (i + 1)) = a + BitVec.ofNat 32 (4 * i) := by
  rw [Nat.mul_add, Nat.add_comm, BitVec.ofNat_add, ← BitVec.add_assoc]
  congr 1
  exact BitVec.sub_add_cancel _ _

theorem Stacked.push (stacked : Stacked ws m) (short : ws.length ≤ 1000) (v : BitVec 32) :
    Stacked (v :: ws) (m.push v) := by
  intro i inside
  have mem : (m.push v).mem = store m.mem (m.reg .esp - 4) v := rfl
  rw [m.push_esp, mem]
  cases i with
  | zero => exact (congrArg _ (BitVec.add_zero _)).trans (load_store_self _ _ _)
  | succ i =>
    rw [List.length_cons] at inside
    rw [load_store_behind _ _ _ (by omega) (by omega), slot_below]
    exact stacked i (by omega)

theorem Stacked.rest (stacked : Stacked (v :: ws) m) (esp : m'.reg .esp = m.reg .esp + 4)
    (mem : m'.mem = m.mem) : Stacked ws m' := by
  intro i inside
  have place : m.reg .esp + 4 + BitVec.ofNat 32 (4 * i) = m.reg .esp + BitVec.ofNat 32 (4 * (i + 1)) := by
    rw [Nat.mul_add, Nat.add_comm (4 * i), BitVec.ofNat_add, ← BitVec.add_assoc]
    rfl
  rw [esp, mem, place]
  exact stacked (i + 1) (by rw [List.length_cons]; omega)

theorem Stacked.top (stacked : Stacked (v :: ws) m) : load m.mem (m.reg .esp) = v := by
  have first := stacked 0 (by rw [List.length_cons]; omega)
  rw [Nat.mul_zero, BitVec.add_zero] at first
  exact first

/-- A pop into any register but the stack pointer. -/
theorem Stacked.pop (stacked : Stacked (v :: ws) m) {r : Reg} (other : r ≠ .esp) :
    Stacked ws (m.pop r) ∧ (m.pop r).reg r = v := by
  refine ⟨stacked.rest (m.pop_esp other) rfl, ?_⟩
  simp [Machine.pop, Machine.set, stacked.top]

/-- A pop into the stack pointer, of the value that it has behind the word. -/
theorem Stacked.popEsp (stacked : Stacked (v :: ws) m) (behind : v = m.reg .esp + 4) :
    Stacked ws (m.pop .esp) ∧ (m.pop .esp).reg .esp = m.reg .esp + 4 := by
  have esp : (m.pop .esp).reg .esp = m.reg .esp + 4 := by
    simp [Machine.pop, Machine.set, stacked.top, behind]
  exact ⟨stacked.rest esp rfl, esp⟩

/-- A call keeps the words of the caller's frame and may change the arguments. -/
theorem Stacked.called {args : List (BitVec 32)} {frame : Nat} {returnAddress : BitVec 32}
    (stacked : Stacked (args ++ ws) m) (returns : m'.reg .esp = (m.push returnAddress).reg .esp + 4)
    (keeps : ∀ i, i < frame → m'.mem ((m.push returnAddress).reg .esp + BitVec.ofNat 32 (4 + 4 * args.length + i)) =
      (m.push returnAddress).mem ((m.push returnAddress).reg .esp + BitVec.ofNat 32 (4 + 4 * args.length + i)))
    (inFrame : 4 * ws.length ≤ frame) (short : (args ++ ws).length ≤ 1000) :
    m'.reg .esp = m.reg .esp ∧ ∃ left, left.length = args.length ∧ Stacked (left ++ ws) m' := by
  have pushed := m.push_esp returnAddress
  have esp : m'.reg .esp = m.reg .esp := by
    rw [returns, pushed, BitVec.sub_add_cancel]
  have called := stacked.push short returnAddress
  refine ⟨esp, (List.range args.length).map fun i =>
    load m'.mem (m.reg .esp + BitVec.ofNat 32 (4 * i)), by simp, fun i inside => ?_⟩
  rw [esp]
  by_cases own : i < args.length
  · rw [List.getElem_append_left (by simpa using own), List.getElem_map, List.getElem_range]
  · have length : ((List.range args.length).map fun i =>
        load m'.mem (m.reg .esp + BitVec.ofNat 32 (4 * i))).length = args.length := by
      simp
    rw [List.length_append, length] at inside
    rw [List.getElem_append_right (by rw [length]; omega)]
    have word := called (i + 1) (by rw [List.length_cons, List.length_append]; omega)
    rw [List.getElem_cons_succ, List.getElem_append_right (by omega)] at word
    have place (d : Nat) : m.reg .esp + BitVec.ofNat 32 (4 * i) + BitVec.ofNat 32 d =
        (m.push returnAddress).reg .esp + BitVec.ofNat 32 (4 + 4 * args.length + (4 * (i - args.length) + d)) := by
      have split : 4 + 4 * args.length + (4 * (i - args.length) + d) = 4 + (4 * i + d) := by omega
      rw [pushed, split, BitVec.ofNat_add 4, ← BitVec.add_assoc, BitVec.ofNat_add, ← BitVec.add_assoc]
      congr 2
      exact (BitVec.sub_add_cancel _ _).symm
    have kept : load m'.mem (m.reg .esp + BitVec.ofNat 32 (4 * i)) =
        load (m.push returnAddress).mem (m.reg .esp + BitVec.ofNat 32 (4 * i)) := by
      refine load_congr fun d small => ?_
      rw [place]
      exact keeps _ (by omega)
    rw [pushed, slot_below] at word
    rw [kept, word]
    congr 1
    rw [length]

theorem Stacked.call {args : List (BitVec 32)} {callee : Machine → Machine} {frame : Nat}
    (stacked : Stacked (args ++ ws) m) (obeys : Convention args.length frame callee)
    (inFrame : 4 * ws.length ≤ frame) (short : (args ++ ws).length ≤ 1000) (returnAddress : BitVec 32) :
    (callee (m.push returnAddress)).reg .esp = m.reg .esp ∧
      ∃ left, left.length = args.length ∧ Stacked (left ++ ws) (callee (m.push returnAddress)) :=
  stacked.called (obeys.returns _) (obeys.frame _) inFrame short

end Stacked

end I386
