import UnixLite.Library.Gates
import UnixLite.Library.I386

namespace I386

/-- A machine with the registers that an interrupt saves. `flags` has the flags
that `Machine` has no field of its own for; its other bits do not count. -/
structure Cpu extends Machine where
  eip : BitVec 32
  flags : BitVec 32
  cs : BitVec 16
  ss : BitVec 16

/-- Where the task state segment puts the stack of level 0. -/
structure TaskStack where
  esp0 : BitVec 32
  ss0 : BitVec 16

/-- The level of a code segment, by its selector. -/
def level (cs : BitVec 16) : BitVec 2 := cs.setWidth 2

namespace Cpu

/-- The flags register: ZF, SF and OF are its bits 6, 7 and 11. -/
def eflags (p : Cpu) : BitVec 32 :=
  (p.flags &&& (0xFFFFF73F : BitVec 32)) ||| (BitVec.ofBool p.zero).setWidth 32 <<< 6 |||
    (BitVec.ofBool p.sign).setWidth 32 <<< 7 ||| (BitVec.ofBool p.overflow).setWidth 32 <<< 11

def setEflags (p : Cpu) (w : BitVec 32) : Cpu :=
  { p with flags := w, zero := w.getLsbD 6, sign := w.getLsbD 7, overflow := w.getLsbD 11 }

def push (p : Cpu) (v : BitVec 32) : Cpu := { p with toMachine := p.toMachine.push v }

/-- The way through a gate: to the stack of level 0 if the level changes, with
the words for `iret` on it and the error code if there is one. A trap gate
leaves the interrupt flag as it is. -/
def enter (tss : TaskStack) (g : Gates.Gate) (code : Option (BitVec 32)) (back : BitVec 32) (p : Cpu) : Cpu :=
  let outer : Cpu :=
    if level g.selector < level p.cs then
      ({ p with toMachine := p.toMachine.set .esp tss.esp0, ss := tss.ss0 }.push (p.ss.setWidth 32)).push (p.reg .esp)
    else p
  let saved := ((outer.push p.eflags).push (p.cs.setWidth 32)).push back
  let coded := match code with
    | none => saved
    | some c => saved.push c
  { coded with
    eip := g.offset
    cs := g.selector
    flags := coded.flags &&& (if g.trap then 0xFFFCBEFF else 0xFFFCBCFF : BitVec 32) }

/-- `iret` at level 0. -/
def iret (p : Cpu) : Cpu :=
  let word (i : Nat) : BitVec 32 := load p.mem (p.reg .esp + BitVec.ofNat 32 (4 * i))
  let back : Cpu := { p.setEflags (word 2) with eip := word 0, cs := (word 1).setWidth 16 }
  if level p.cs < level back.cs then
    { back with toMachine := back.toMachine.set .esp (word 3), ss := (word 4).setWidth 16 }
  else { back with toMachine := back.toMachine.set .esp (p.reg .esp + 12) }

end Cpu

theorem Cpu.iret_mem (p : Cpu) : p.iret.mem = p.mem := by
  unfold Cpu.iret
  dsimp only
  split
  · rfl
  · rfl

/-- Code without jumps. `addl` is to the stack pointer. -/
inductive Line (κ : Type)
  | pushi (imm : BitVec 32)
  | pushal
  | popal
  | pushfl
  | popfl
  | addl (imm : BitVec 32)
  | call (k : κ)
  deriving DecidableEq

namespace Machine

/-- The stack pointer goes in with the value from before. -/
def pushal (m : Machine) : Machine :=
  [m.reg .eax, m.reg .ecx, m.reg .edx, m.reg .ebx, m.reg .esp, m.reg .ebp, m.reg .esi, m.reg .edi].foldl push m

/-- The slot of the stack pointer is passed over. -/
def popal (m : Machine) : Machine :=
  let low := ((m.pop .edi).pop .esi).pop .ebp
  ((((low.set .esp (low.reg .esp + 4)).pop .ebx).pop .edx).pop .ecx).pop .eax

end Machine

/-- A processor and the calls it has made, the last one first, each with the
machine that the callee has found. -/
abbrev Running (κ : Type) := Cpu × List (κ × Machine)

/-- The flags behind an addition. -/
def Cpu.addFlags (p : Cpu) (a b : BitVec 32) : Cpu :=
  let carry := BitVec.ofBool (decide (2 ^ 32 ≤ a.toNat + b.toNat))
  let half := BitVec.ofBool (decide (16 ≤ a.toNat % 16 + b.toNat % 16))
  let even := BitVec.ofBool (((List.range 8).countP fun i => (a + b).getLsbD i) % 2 == 0)
  { p with
    zero := a + b == 0
    sign := (a + b).msb
    overflow := BitVec.saddOverflow a b
    flags := (p.flags &&& (0xFFFFFFEA : BitVec 32)) ||| carry.setWidth 32 ||| even.setWidth 32 <<< 2 |||
      half.setWidth 32 <<< 4 }

/-- One instruction. A callee is what its code does up to its return. -/
def Line.exec {κ : Type} (callee : κ → Cpu → Cpu) (returnAddress : BitVec 32) (s : Running κ) :
    Line κ → Running κ
  | .pushi imm => (s.1.push imm, s.2)
  | .pushal => ({ s.1 with toMachine := s.1.pushal }, s.2)
  | .popal => ({ s.1 with toMachine := s.1.popal }, s.2)
  | .pushfl => (s.1.push s.1.eflags, s.2)
  | .popfl =>
    (({ s.1 with toMachine := s.1.set .esp (s.1.reg .esp + 4) } : Cpu).setEflags (load s.1.mem (s.1.reg .esp)), s.2)
  | .addl imm =>
    (({ s.1 with toMachine := s.1.set .esp (s.1.reg .esp + imm) } : Cpu).addFlags (s.1.reg .esp) imm, s.2)
  | .call k =>
    let called := s.1.push returnAddress
    (callee k called, (k, called.toMachine) :: s.2)

def runLines {κ : Type} (callee : κ → Cpu → Cpu) (returnAddress : BitVec 32) (code : List (Line κ))
    (s : Running κ) : Running κ :=
  code.foldl (Line.exec callee returnAddress) s

/-- Not among the 80 bytes below the top of a stack. -/
def Beyond (top x : BitVec 32) : Prop := 80 ≤ (x - (top - 80)).toNat

/-- What a callee keeps on its way from `p` to `q`: the frame of its caller
above the arguments, the segments, and the memory `own`. -/
structure Returned (own : BitVec 32 → Prop) (args frame : Nat) (p q : Cpu) : Prop where
  returns : q.reg .esp = p.reg .esp + 4
  frame : ∀ i, i < frame → q.mem (p.reg .esp + BitVec.ofNat 32 (4 + 4 * args + i)) =
    p.mem (p.reg .esp + BitVec.ofNat 32 (4 + 4 * args + i))
  cs : q.cs = p.cs
  ss : q.ss = p.ss
  mem : ∀ x, own x → q.mem x = p.mem x

/-- A callee that does so when it is entered within the first 20 words of a stack. -/
def Behaves (top : BitVec 32) (own : BitVec 32 → Prop) (args frame : Nat) (callee : Cpu → Cpu) : Prop :=
  ∀ p d, p.reg .esp = top - BitVec.ofNat 32 (4 * d) → d ≤ 20 → Returned own args frame p (callee p)

namespace Cpu

section Flags

variable (p : Cpu)

theorem eflags_setEflags (w : BitVec 32) : (p.setEflags w).eflags = w := by
  have mask : ∀ i : Fin 32, (0xFFFFF73F : BitVec 32).getLsbD i = decide (i.val ≠ 6 ∧ i.val ≠ 7 ∧ i.val ≠ 11) := by
    decide
  have bit (b : Bool) (i k : Nat) :
      ((BitVec.ofBool b).setWidth 32 <<< k).getLsbD i = (decide (i < 32 ∧ i = k) && b) := by
    rw [BitVec.getLsbD_shiftLeft, BitVec.getLsbD_setWidth, BitVec.getLsbD_ofBool]
    by_cases same : i = k
    · subst same
      simp
    · by_cases below : i < k
      · simp [below, same]
      · have apart : i - k ≠ 0 := by omega
        simp [same, apart]
  refine BitVec.eq_of_getLsbD_eq fun i inside => ?_
  have kept := mask ⟨i, inside⟩
  simp only [eflags, setEflags, BitVec.getLsbD_or, BitVec.getLsbD_and, bit]
  dsimp only at kept
  rw [kept]
  by_cases zero : i = 6
  · subst zero
    simp
  by_cases sign : i = 7
  · subst sign
    simp
  by_cases overflow : i = 11
  · subst overflow
    simp
  simp [zero, sign, overflow]

end Flags

end Cpu

/-- The words of `pushal`, the last one pushed first. -/
def pushalWords (m : Machine) : List (BitVec 32) :=
  [m.reg .edi, m.reg .esi, m.reg .ebp, m.reg .esp, m.reg .ebx, m.reg .edx, m.reg .ecx, m.reg .eax]

section Pushal

variable {m n : Machine} {ws : List (BitVec 32)}

theorem Machine.set_self (m : Machine) (r : Reg) (v : BitVec 32) : (m.set r v).reg r = v := Function.update_self ..

theorem Machine.set_reg (m : Machine) (v : BitVec 32) {r q : Reg} (other : q ≠ r) : (m.set r v).reg q = m.reg q :=
  Function.update_of_ne other ..

theorem pushAll_esp (l : List (BitVec 32)) (m : Machine) :
    (l.foldl Machine.push m).reg .esp = m.reg .esp - BitVec.ofNat 32 (4 * l.length) := by
  induction l generalizing m with
  | nil => exact (BitVec.sub_zero _).symm
  | cons v l ih =>
    rw [List.foldl_cons, ih, Machine.push_esp, List.length_cons, Nat.mul_add, Nat.add_comm, BitVec.ofNat_add,
      ← BitVec.sub_sub]
    rfl

theorem Stacked.pushAll (l : List (BitVec 32)) (stacked : Stacked ws m) (short : ws.length + l.length ≤ 1000) :
    Stacked (l.reverse ++ ws) (l.foldl Machine.push m) := by
  induction l generalizing m ws with
  | nil => exact stacked
  | cons v l ih =>
    rw [List.length_cons] at short
    rw [List.reverse_cons, List.append_assoc, List.foldl_cons]
    exact ih (stacked.push (by omega) v) (by simp; omega)

theorem Stacked.pushal (stacked : Stacked ws m) (short : ws.length ≤ 900) :
    Stacked (pushalWords m ++ ws) m.pushal :=
  stacked.pushAll [m.reg .eax, m.reg .ecx, m.reg .edx, m.reg .ebx, m.reg .esp, m.reg .ebp, m.reg .esi, m.reg .edi]
    (by simp; omega)

/-- `popal` brings back what `pushal` has saved. -/
theorem Stacked.popal (stacked : Stacked (pushalWords m ++ ws) n) (esp : n.reg .esp = m.reg .esp - 32) :
    (∀ r, n.popal.reg r = m.reg r) ∧ Stacked ws n.popal := by
  obtain ⟨words, edi⟩ := stacked.pop (r := .edi) (by decide)
  obtain ⟨words, esi⟩ := words.pop (r := .esi) (by decide)
  obtain ⟨words, ebp⟩ := words.pop (r := .ebp) (by decide)
  have over_ : Stacked ([m.reg .ebx, m.reg .edx, m.reg .ecx, m.reg .eax] ++ ws)
      ((((n.pop .edi).pop .esi).pop .ebp).set .esp ((((n.pop .edi).pop .esi).pop .ebp).reg .esp + 4)) :=
    words.rest (by simp [Machine.set]) rfl
  obtain ⟨words, ebx⟩ := over_.pop (r := .ebx) (by decide)
  obtain ⟨words, edx⟩ := words.pop (r := .edx) (by decide)
  obtain ⟨words, ecx⟩ := words.pop (r := .ecx) (by decide)
  obtain ⟨words, eax⟩ := words.pop (r := .eax) (by decide)
  have back (e : BitVec 32) : e - 32 + 4 + 4 + 4 + 4 + 4 + 4 + 4 + 4 = e := by bv_omega
  refine ⟨fun r => ?_, words⟩
  cases r with
  | eax => exact eax
  | ebx =>
    simp only [Machine.popal, Machine.pop_reg, ne_eq, reduceCtorEq, not_false_eq_true]
    exact ebx
  | ecx =>
    simp only [Machine.popal, Machine.pop_reg, ne_eq, reduceCtorEq, not_false_eq_true]
    exact ecx
  | edx =>
    simp only [Machine.popal, Machine.pop_reg, ne_eq, reduceCtorEq, not_false_eq_true]
    exact edx
  | esi =>
    simp only [Machine.popal, Machine.pop_reg, Machine.set_reg, ne_eq, reduceCtorEq, not_false_eq_true]
    exact esi
  | edi =>
    simp only [Machine.popal, Machine.pop_reg, Machine.set_reg, ne_eq, reduceCtorEq, not_false_eq_true]
    simpa only [Machine.pop_reg, ne_eq, reduceCtorEq, not_false_eq_true] using edi
  | ebp =>
    simp only [Machine.popal, Machine.pop_reg, Machine.set_reg, ne_eq, reduceCtorEq, not_false_eq_true]
    exact ebp
  | esp =>
    have last : n.popal.reg .esp = n.reg .esp + 4 + 4 + 4 + 4 + 4 + 4 + 4 + 4 := by
      simp [Machine.popal, Machine.set]
    rw [last, esp, back]

end Pushal

namespace Cpu

/-- The words that the processor pushes for `iret`. -/
def iretWords (g : Gates.Gate) (back : BitVec 32) (p : Cpu) : List (BitVec 32) :=
  [back, p.cs.setWidth 32, p.eflags] ++ if level g.selector < level p.cs then [p.reg .esp, p.ss.setWidth 32] else []

/-- It goes on at `back` with all registers as they were. -/
structure Resumed (back : BitVec 32) (p q : Cpu) : Prop where
  eip : q.eip = back
  reg : ∀ r, q.reg r = p.reg r
  cs : q.cs = p.cs
  ss : q.ss = p.ss
  eflags : q.eflags = p.eflags

section Enter

variable {tss : TaskStack} {g : Gates.Gate} {code : Option (BitVec 32)} {back : BitVec 32} {p q : Cpu}

theorem iretWords_length : (iretWords g back p).length ≤ 5 := by
  unfold iretWords
  split
  · exact Nat.le_refl 5
  · exact Nat.le_of_ble_eq_true rfl

theorem enter_stacked : Stacked (code.toList ++ iretWords g back p) (enter tss g code back p).toMachine := by
  have nothing (m : Machine) : Stacked [] m := fun i inside => by cases inside
  have frame : ∃ saved : Machine, Stacked (iretWords g back p) saved ∧
      (enter tss g code back p).toMachine.mem = (match code with | none => saved | some c => saved.push c).mem ∧
      (enter tss g code back p).toMachine.reg = (match code with | none => saved | some c => saved.push c).reg := by
    unfold iretWords
    by_cases outer : level g.selector < level p.cs
    · refine ⟨((((((p.toMachine.set .esp tss.esp0).push (p.ss.setWidth 32)).push (p.reg .esp)).push p.eflags).push
        (p.cs.setWidth 32)).push back), ?_, ?_⟩
      · rw [if_pos outer]
        exact (nothing _).pushAll [p.ss.setWidth 32, p.reg .esp, p.eflags, p.cs.setWidth 32, back] (by simp)
      · simp only [enter, if_pos outer]
        cases code with
        | none => exact ⟨rfl, rfl⟩
        | some c => exact ⟨rfl, rfl⟩
    · refine ⟨((p.toMachine.push p.eflags).push (p.cs.setWidth 32)).push back, ?_, ?_⟩
      · rw [if_neg outer]
        exact (nothing _).pushAll [p.eflags, p.cs.setWidth 32, back] (by simp)
      · simp only [enter, if_neg outer]
        cases code with
        | none => exact ⟨rfl, rfl⟩
        | some c => exact ⟨rfl, rfl⟩
  obtain ⟨saved, stacked, mem, reg⟩ := frame
  have short : (iretWords g back p).length ≤ 5 := iretWords_length
  cases code with
  | none => exact stacked.same (congrFun reg .esp) mem
  | some c => exact (stacked.push (by omega) c).same (congrFun reg .esp) mem

theorem enter_reg {r : Reg} (other : r ≠ .esp) : (enter tss g code back p).reg r = p.reg r := by
  unfold enter
  split
  · cases code with
    | none | some => simp only [push, Machine.push_reg, Machine.set_reg, ne_eq, other, not_false_eq_true]
  · cases code with
    | none | some => simp only [push, Machine.push_reg, ne_eq, other, not_false_eq_true]

theorem iret_resumes (stacked : Stacked (iretWords g back p) q.toMachine) (cs : q.cs = g.selector)
    (ss : q.ss = (enter tss g none back p).ss) (esp : q.reg .esp = (enter tss g none back p).reg .esp)
    (reg : ∀ r, r ≠ .esp → q.reg r = p.reg r) : Resumed back p q.iret := by
  have segment (s : BitVec 16) : (s.setWidth 32).setWidth 16 = s := by
    rw [BitVec.setWidth_setWidth_of_le s (by decide), BitVec.setWidth_eq]
  unfold iretWords at stacked
  unfold iret
  by_cases outer : level g.selector < level p.cs
  · rw [if_pos outer] at stacked
    have word (i : Nat) (inside : i < 5) := stacked i inside
    have first : load q.mem (q.reg .esp + BitVec.ofNat 32 (4 * 0)) = back := word 0 (by decide)
    have second : load q.mem (q.reg .esp + BitVec.ofNat 32 (4 * 1)) = p.cs.setWidth 32 := word 1 (by decide)
    have third : load q.mem (q.reg .esp + BitVec.ofNat 32 (4 * 2)) = p.eflags := word 2 (by decide)
    have fourth : load q.mem (q.reg .esp + BitVec.ofNat 32 (4 * 3)) = p.reg .esp := word 3 (by decide)
    have fifth : load q.mem (q.reg .esp + BitVec.ofNat 32 (4 * 4)) = p.ss.setWidth 32 := word 4 (by decide)
    simp only [first, second, third, fourth, fifth, segment, cs, if_pos outer]
    refine ⟨rfl, fun r => ?_, rfl, rfl, eflags_setEflags q p.eflags⟩
    by_cases pointer : r = .esp
    · rw [pointer]
      exact Machine.set_self ..
    · exact (Machine.set_reg _ _ pointer).trans (reg r pointer)
  · rw [if_neg outer] at stacked
    have word (i : Nat) (inside : i < 3) := stacked i inside
    have first : load q.mem (q.reg .esp + BitVec.ofNat 32 (4 * 0)) = back := word 0 (by decide)
    have second : load q.mem (q.reg .esp + BitVec.ofNat 32 (4 * 1)) = p.cs.setWidth 32 := word 1 (by decide)
    have third : load q.mem (q.reg .esp + BitVec.ofNat 32 (4 * 2)) = p.eflags := word 2 (by decide)
    have slots (e : BitVec 32) : e - 4 - 4 - 4 + 12 = e := by bv_omega
    simp only [enter, if_neg outer, push] at ss esp
    rw [Machine.push_esp, Machine.push_esp, Machine.push_esp] at esp
    simp only [first, second, third, segment, cs, if_neg outer]
    refine ⟨rfl, fun r => ?_, rfl, ss, eflags_setEflags q p.eflags⟩
    by_cases pointer : r = .esp
    · rw [pointer, esp, slots]
      exact Machine.set_self ..
    · exact (Machine.set_reg _ _ pointer).trans (reg r pointer)

end Enter

end Cpu

/-- What a piece of code leaves as it was: the words on the stack with what
belongs to them, and the memory `own`. -/
structure Preserved (own : BitVec 32 → Prop) (ws : List (BitVec 32)) (p q : Cpu) : Prop where
  stacked : Stacked ws q.toMachine
  esp : q.reg .esp = p.reg .esp
  cs : q.cs = p.cs
  ss : q.ss = p.ss
  mem : ∀ x, own x → q.mem x = p.mem x

section Depth

variable {m : Machine} {top x : BitVec 32} {d : Nat}

theorem Beyond.far (beyond : Beyond top x) (room : d + 1 ≤ 20) :
    4 ≤ (x - (top - BitVec.ofNat 32 (4 * d) - 4)).toNat := by
  unfold Beyond at beyond
  bv_omega

theorem push_mem (esp : m.reg .esp = top - BitVec.ofNat 32 (4 * d)) (room : d + 1 ≤ 20) (beyond : Beyond top x)
    (v : BitVec 32) : (m.push v).mem x = m.mem x := by
  have far := beyond.far room
  rw [← esp] at far
  exact if_neg (Nat.not_lt.mpr far)

theorem push_depth (esp : m.reg .esp = top - BitVec.ofNat 32 (4 * d)) (v : BitVec 32) :
    (m.push v).reg .esp = top - BitVec.ofNat 32 (4 * (d + 1)) := by
  rw [Machine.push_esp, esp, Nat.mul_add, BitVec.ofNat_add, ← BitVec.sub_sub]
  rfl

theorem pushAll_mem (l : List (BitVec 32)) (esp : m.reg .esp = top - BitVec.ofNat 32 (4 * d))
    (room : d + l.length ≤ 20) (beyond : Beyond top x) : (l.foldl Machine.push m).mem x = m.mem x := by
  induction l generalizing m d with
  | nil => rfl
  | cons v l ih =>
    rw [List.length_cons] at room
    rw [List.foldl_cons, ih (push_depth esp v) (by omega), push_mem esp (by omega) beyond]

theorem pushAll_depth (l : List (BitVec 32)) (esp : m.reg .esp = top - BitVec.ofNat 32 (4 * d)) :
    (l.foldl Machine.push m).reg .esp = top - BitVec.ofNat 32 (4 * (d + l.length)) := by
  rw [pushAll_esp, esp, Nat.mul_add, BitVec.ofNat_add, ← BitVec.sub_sub]

end Depth

section Code

variable {κ : Type} {callee : κ → Cpu → Cpu} {returnAddress : BitVec 32} {p q : Cpu}
  {calls : List (κ × Machine)} {ws : List (BitVec 32)} {k : κ} {frame d : Nat} {top : BitVec 32}
  {own : BitVec 32 → Prop}

theorem runLines_append (code rest : List (Line κ)) (s : Running κ) :
    runLines callee returnAddress (code ++ rest) s = runLines callee returnAddress rest
      (runLines callee returnAddress code s) := List.foldl_append

theorem runLines_pushes (args : List (BitVec 32)) (s : Running κ) :
    runLines callee returnAddress (args.map .pushi) s =
      ({ s.1 with toMachine := args.foldl Machine.push s.1.toMachine }, s.2) := by
  induction args generalizing s with
  | nil => rfl
  | cons v args ih =>
    rw [List.map_cons, runLines, List.foldl_cons]
    exact ih (Line.exec callee returnAddress s (.pushi v))

variable (callee) (returnAddress) (calls)

/-- The words of the arguments come off. -/
theorem Stacked.drops {left : List (BitVec 32)} {n : Nat} (stacked : Stacked (left ++ ws) p.toMachine)
    (length : left.length = n) :
    Stacked ws (Line.exec callee returnAddress (p, calls) (.addl (BitVec.ofNat 32 (4 * n)))).1.toMachine ∧
      (Line.exec callee returnAddress (p, calls) (.addl (BitVec.ofNat 32 (4 * n)))).1.reg .esp =
        p.reg .esp + BitVec.ofNat 32 (4 * n) := by
  have esp : (Line.exec callee returnAddress (p, calls) (.addl (BitVec.ofNat 32 (4 * n)))).1.reg .esp =
      p.reg .esp + BitVec.ofNat 32 (4 * n) := by
    simp only [Line.exec, Cpu.addFlags]
    exact Machine.set_self ..
  refine ⟨fun i inside => ?_, esp⟩
  have word := stacked (left.length + i) (by rw [List.length_append]; omega)
  have place : p.reg .esp + BitVec.ofNat 32 (4 * n) + BitVec.ofNat 32 (4 * i) =
      p.reg .esp + BitVec.ofNat 32 (4 * (left.length + i)) := by
    rw [length, Nat.mul_add, BitVec.ofNat_add, BitVec.add_assoc]
  rw [esp, place]
  refine word.trans ?_
  rw [List.getElem_append_right (Nat.le_add_right _ _)]
  simp only [Nat.add_sub_cancel_left]

/-- A call with its arguments on the stack. -/
theorem Stacked.serves {args : List (BitVec 32)} (stacked : Stacked (args ++ ws) p.toMachine)
    (apart : ∀ x, own x → Beyond top x) (behaves : Behaves top own args.length frame (callee k))
    (esp : p.reg .esp = top - BitVec.ofNat 32 (4 * d)) (deep : d + 1 ≤ 20) (room : 4 * ws.length ≤ frame)
    (short : (args ++ ws).length ≤ 900) :
    ∃ left, left.length = args.length ∧
      Preserved own (left ++ ws) p (Line.exec callee returnAddress (p, calls) (.call k)).1 ∧
      ∃ found, (Line.exec callee returnAddress (p, calls) (.call k)).2 = (k, found) :: calls ∧
        Stacked (returnAddress :: args) found := by
  have returned := behaves (p.push returnAddress) (d + 1) (push_depth esp returnAddress) deep
  obtain ⟨back, left, length, words⟩ := stacked.called returned.returns returned.frame room (by omega)
  have found := stacked.push (by omega) returnAddress
  refine ⟨left, length, ⟨words, back, returned.cs, returned.ss, fun x mine => ?_⟩, _, rfl, fun i inside => ?_⟩
  · exact (returned.mem x mine).trans (push_mem esp deep (apart x mine) returnAddress)
  · exact (found i (by simp at inside ⊢; omega)).trans
      (@List.getElem_append_left _ i (returnAddress :: args) _ inside _)

/-- A routine is called with its arguments, the first one on top, and they are dropped. -/
def serviceLines (args : List (BitVec 32)) (k : κ) : List (Line κ) :=
  args.reverse.map .pushi ++ [.call k, .addl (BitVec.ofNat 32 (4 * args.length))]

theorem Stacked.service {args : List (BitVec 32)} (stacked : Stacked ws p.toMachine)
    (apart : ∀ x, own x → Beyond top x) (behaves : Behaves top own args.length frame (callee k))
    (depth : p.reg .esp = top - BitVec.ofNat 32 (4 * d)) (deep : d + args.length + 1 ≤ 20)
    (room : 4 * ws.length ≤ frame) (short : (args ++ ws).length ≤ 900) :
    Preserved own ws p (runLines callee returnAddress (serviceLines args k) (p, calls)).1 ∧
      ∃ found, (runLines callee returnAddress (serviceLines args k) (p, calls)).2 = (k, found) :: calls ∧
        Stacked (returnAddress :: args) found := by
  rw [List.length_append] at short
  have pushed := stacked.pushAll args.reverse (by rw [List.length_reverse]; omega)
  have below := pushAll_esp args.reverse p.toMachine
  have lower := pushAll_depth args.reverse depth
  have untouched (x : BitVec 32) (mine : own x) :=
    pushAll_mem args.reverse depth (by rw [List.length_reverse]; omega) (apart x mine)
  rw [List.reverse_reverse] at pushed
  rw [List.length_reverse] at below lower
  rw [serviceLines, runLines_append, runLines_pushes]
  generalize args.reverse.foldl Machine.push p.toMachine = m at pushed below lower untouched
  have served : Stacked (args ++ ws) ({ p with toMachine := m } : Cpu).toMachine := pushed
  obtain ⟨left, length, kept, found⟩ := served.serves callee returnAddress calls apart behaves lower deep room
    (by rw [List.length_append]; exact short)
  generalize called : Line.exec callee returnAddress (({ p with toMachine := m } : Cpu), calls) (.call k) = r
    at kept found
  obtain ⟨words, esp⟩ := kept.stacked.drops callee returnAddress r.2 length
  have all : runLines callee returnAddress [.call k, .addl (BitVec.ofNat 32 (4 * args.length))]
      (({ p with toMachine := m } : Cpu), calls) =
        Line.exec callee returnAddress r (.addl (BitVec.ofNat 32 (4 * args.length))) := by
    rw [← called]
    rfl
  rw [all]
  refine ⟨⟨words, ?_, kept.cs, kept.ss, fun x mine => (kept.mem x mine).trans (untouched x mine)⟩, found⟩
  rw [esp, kept.esp, below, BitVec.sub_add_cancel]

/-- The flags around a call without arguments. -/
theorem Stacked.flagged (stacked : Stacked ws p.toMachine) (apart : ∀ x, own x → Beyond top x)
    (behaves : Behaves top own 0 frame (callee k)) (depth : p.reg .esp = top - BitVec.ofNat 32 (4 * d))
    (deep : d + 2 ≤ 20) (room : 4 * (ws.length + 1) ≤ frame) (short : ws.length ≤ 800) :
    Preserved own ws p (runLines callee returnAddress [.pushfl, .call k, .popfl] (p, calls)).1 ∧
      ∃ found, (runLines callee returnAddress [.pushfl, .call k, .popfl] (p, calls)).2 = (k, found) :: calls ∧
        Stacked [returnAddress] found := by
  have pushed : Stacked ([] ++ (p.eflags :: ws)) (p.push p.eflags).toMachine := stacked.push (by omega) p.eflags
  have below : (p.push p.eflags).reg .esp = p.reg .esp - 4 := p.toMachine.push_esp p.eflags
  obtain ⟨left, length, kept, found⟩ := pushed.serves callee returnAddress calls apart behaves
    (push_depth depth p.eflags) deep (by simpa using room) (by simp; omega)
  obtain rfl := List.length_eq_zero_iff.mp length
  generalize called : Line.exec callee returnAddress (p.push p.eflags, calls) (.call k) = r at kept found
  have all : runLines callee returnAddress [.pushfl, .call k, .popfl] (p, calls) =
      Line.exec callee returnAddress r .popfl := by
    rw [← called]
    rfl
  have esp : (Line.exec callee returnAddress r .popfl).1.reg .esp = r.1.reg .esp + 4 := by
    simp only [Line.exec, Cpu.setEflags]
    exact Machine.set_self ..
  have words : Stacked (p.eflags :: ws) r.1.toMachine := kept.stacked
  rw [all]
  refine ⟨⟨words.rest esp rfl, ?_, kept.cs, kept.ss, fun x mine => ?_⟩, found⟩
  · rw [esp, kept.esp, below, BitVec.sub_add_cancel]
  · exact (kept.mem x mine).trans (push_mem depth (by omega) (apart x mine) p.eflags)

/-- Code between `pushal` and `popal`. -/
def savedAll (body : List (Line κ)) : List (Line κ) := .pushal :: body ++ [.popal]

theorem Stacked.savedAll {body : List (Line κ)} (stacked : Stacked ws p.toMachine)
    (apart : ∀ x, own x → Beyond top x)
    (depth : p.reg .esp = top - BitVec.ofNat 32 (4 * d)) (deep : d + 8 ≤ 20) (short : ws.length ≤ 900)
    (keeps : ∀ q : Cpu, q.reg .esp = top - BitVec.ofNat 32 (4 * (d + 8)) →
      Stacked (pushalWords p.toMachine ++ ws) q.toMachine →
      Preserved own (pushalWords p.toMachine ++ ws) q (runLines callee returnAddress body (q, calls)).1) :
    Preserved own ws p (runLines callee returnAddress (I386.savedAll body) (p, calls)).1 ∧
      (∀ r, (runLines callee returnAddress (I386.savedAll body) (p, calls)).1.reg r = p.reg r) ∧
        (runLines callee returnAddress (I386.savedAll body) (p, calls)).2 =
          (runLines callee returnAddress body ({ p with toMachine := p.pushal }, calls)).2 := by
  have kept := keeps { p with toMachine := p.pushal } (pushAll_depth _ depth) (stacked.pushal short)
  have below : p.pushal.reg .esp = p.reg .esp - 32 := pushAll_esp _ p.toMachine
  have all : runLines callee returnAddress (I386.savedAll body) (p, calls) =
      Line.exec callee returnAddress (runLines callee returnAddress body ({ p with toMachine := p.pushal }, calls))
        .popal := by
    rw [I386.savedAll, runLines_append]
    rfl
  rw [all]
  generalize runLines callee returnAddress body ({ p with toMachine := p.pushal }, calls) = r at kept ⊢
  have esp : r.1.reg .esp = p.reg .esp - 32 := kept.esp.trans below
  obtain ⟨restored, words⟩ := kept.stacked.popal esp
  exact ⟨⟨words, restored .esp, kept.cs, kept.ss, fun x mine =>
    (kept.mem x mine).trans (pushAll_mem _ depth deep (apart x mine))⟩, restored, rfl⟩

end Code

section Level

variable {p : Cpu} {tss : TaskStack} {g : Gates.Gate} {code : Option (BitVec 32)} {back x : BitVec 32}
  {own : BitVec 32 → Prop}

/-- Behind code that keeps the stack `iret` takes what the processor has
pushed: an error code if there is one, and all of the interrupted program otherwise. -/
theorem Preserved.iret {tss : TaskStack} {g : Gates.Gate} {code : Option (BitVec 32)} {back : BitVec 32} {q : Cpu}
    (kept : Preserved own (code.toList ++ Cpu.iretWords g back p) (Cpu.enter tss g code back p) q)
    (reg : ∀ r, r ≠ .esp → q.reg r = p.reg r) :
    q.iret.eip = code.getD back ∧ (code = none → Cpu.Resumed back p q.iret) := by
  have cs : q.cs = g.selector := kept.cs
  have top : q.iret.eip = load q.mem (q.reg .esp) := by
    have first : q.reg .esp + BitVec.ofNat 32 (4 * 0) = q.reg .esp := BitVec.add_zero _
    unfold Cpu.iret
    dsimp only
    split
    · exact congrArg (load q.mem) first
    · exact congrArg (load q.mem) first
  cases code with
  | some c =>
    have words : Stacked (c :: Cpu.iretWords g back p) q.toMachine := kept.stacked
    exact ⟨top.trans words.top, fun none => by cases none⟩
  | none =>
    have resumed := Cpu.iret_resumes kept.stacked cs kept.ss kept.esp reg
    exact ⟨resumed.eip, fun _ => resumed⟩

/-- The way into the kernel from outside. -/
theorem Cpu.enter_outer (outer : level g.selector < level p.cs) :
    (Cpu.enter tss g none back p).mem =
      ([p.ss.setWidth 32, p.reg .esp, p.eflags, p.cs.setWidth 32, back].foldl Machine.push
        (p.toMachine.set .esp tss.esp0)).mem ∧
    (Cpu.enter tss g none back p).reg =
      ([p.ss.setWidth 32, p.reg .esp, p.eflags, p.cs.setWidth 32, back].foldl Machine.push
        (p.toMachine.set .esp tss.esp0)).reg := by
  simp only [Cpu.enter, if_pos outer]
  exact ⟨rfl, rfl⟩

theorem Machine.set_top (m : Machine) (top : BitVec 32) :
    (m.set .esp top).reg .esp = top - BitVec.ofNat 32 (4 * 0) := by
  rw [Machine.set_self]
  exact (BitVec.sub_zero _).symm

theorem Cpu.enter_depth (outer : level g.selector < level p.cs) :
    (Cpu.enter tss g none back p).reg .esp = tss.esp0 - BitVec.ofNat 32 (4 * 5) := by
  rw [(Cpu.enter_outer outer).2]
  exact pushAll_depth _ (p.toMachine.set_top tss.esp0)

theorem Cpu.enter_mem (outer : level g.selector < level p.cs) (beyond : Beyond tss.esp0 x) :
    (Cpu.enter tss g none back p).mem x = p.mem x := by
  rw [(Cpu.enter_outer outer).1]
  exact pushAll_mem _ (p.toMachine.set_top tss.esp0) (by simp) beyond

end Level

/-- What a program sees of the processor, with the memory that is its own. -/
structure SameView (own : BitVec 32 → Prop) (p q : Cpu) : Prop where
  reg : ∀ r, q.reg r = p.reg r
  eip : q.eip = p.eip
  cs : q.cs = p.cs
  ss : q.ss = p.ss
  eflags : q.eflags = p.eflags
  mem : ∀ x, own x → q.mem x = p.mem x

/-- A program that stays in its segment and goes by what it sees. -/
structure Unprivileged (own : BitVec 32 → Prop) (step : Cpu → Cpu) : Prop where
  sees : ∀ p q, SameView own p q → SameView own (step p) (step q)
  cs : ∀ p, (step p).cs = p.cs

/-- A program with interrupts among its steps. -/
def interrupted {ι : Type} (step : Cpu → Cpu) (interrupt : ι → Cpu → Option Cpu) :
    List (Option ι) → Cpu → Option Cpu
  | [], p => some p
  | none :: rest, p => interrupted step interrupt rest (step p)
  | some i :: rest, p => (interrupt i p).bind (interrupted step interrupt rest)

section Programs

variable {own : BitVec 32 → Prop} {p q r : Cpu} {step : Cpu → Cpu}

theorem SameView.refl (own : BitVec 32 → Prop) (p : Cpu) : SameView own p p :=
  ⟨fun _ => rfl, rfl, rfl, rfl, rfl, fun _ _ => rfl⟩

theorem SameView.trans (first : SameView own p q) (second : SameView own q r) : SameView own p r :=
  ⟨fun s => (second.reg s).trans (first.reg s), second.eip.trans first.eip, second.cs.trans first.cs,
    second.ss.trans first.ss, second.eflags.trans first.eflags,
    fun x mine => (second.mem x mine).trans (first.mem x mine)⟩

/-- Interrupts that are not seen one by one are not seen in a whole run. -/
theorem Unprivileged.interrupted {ι : Type} {interrupt : ι → Cpu → Option Cpu} {c : BitVec 16}
    (program : Unprivileged own step)
    (unseen : ∀ i q, q.cs = c → ∃ q', interrupt i q = some q' ∧ SameView own q q') (events : List (Option ι))
    (same : SameView own p q) (segment : q.cs = c) :
    ∃ q', I386.interrupted step interrupt events q = some q' ∧
      SameView own (step^[events.countP Option.isNone] p) q' := by
  induction events generalizing p q with
  | nil => exact ⟨q, rfl, same⟩
  | cons event rest ih =>
    cases event with
    | none =>
      rw [List.countP_cons_of_pos rfl, Function.iterate_succ_apply]
      exact ih (program.sees p q same) ((program.cs q).trans segment)
    | some i =>
      obtain ⟨q', served, view⟩ := unseen i q segment
      rw [List.countP_cons_of_neg (by simp), I386.interrupted, served]
      exact ih (same.trans view) (view.cs.trans segment)

end Programs

end I386
