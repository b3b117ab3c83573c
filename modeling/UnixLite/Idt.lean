import UnixLite.FileSystem
import UnixLite.Library.Gates

namespace UnixLite

open Gates

/-- An entry of the interrupt table, by its bit fields. -/
structure IdtDesc where
  offset15to00 : BitVec 16
  segSelector : BitVec 16
  reserved4 : BitVec 8
  reserved3 : BitVec 1
  reserved2 : BitVec 1
  reserved1 : BitVec 1
  size : BitVec 1
  reserved0 : BitVec 1
  dpl : BitVec 2
  present : BitVec 1
  offset31to16 : BitVec 16

/-- The eight bytes of the union, the first field lowest. -/
def IdtDesc.val (e : IdtDesc) : BitVec 64 :=
  e.offset31to16 ++ (e.present ++ (e.dpl ++ (e.reserved0 ++ (e.size ++ (e.reserved1 ++ (e.reserved2 ++
    (e.reserved3 ++ (e.reserved4 ++ (e.segSelector ++ e.offset15to00)))))))))

/-- The routines that gates lead to. -/
inductive Routine
  | exception (id : Fin 20)
  | pit
  | keyboard
  | rtc
  | sysCall
  deriving DecidableEq

/-- `SET_IDT_ENTRY` -/
def setIdtEntry (e : IdtDesc) (handler : Word) : IdtDesc :=
  { e with offset31to16 := ((handler &&& 0xFFFF0000) >>> 16).setWidth 16
           offset15to00 := (handler &&& 0xFFFF).setWidth 16 }

/-- The entries that are set; exception 15 has none. -/
def routineAt (i : Nat) : Option Routine :=
  if inside : i < 20 ∧ i ≠ 15 then some (.exception ⟨i, inside.1⟩)
  else if i = 0x21 then some .keyboard
  else if i = 0x28 then some .rtc
  else if i = 0x20 then some .pit
  else if i = 0x80 then some .sysCall
  else none

/-- `initialize_idt`, with the routines at these addresses. Its calls of
`SET_IDT_ENTRY` are for different entries, so their order does not matter. -/
def initializeIdt (addr : Routine → Word) (idt : Fin 256 → IdtDesc) (i : Fin 256) : IdtDesc :=
  let e := { idt i with segSelector := 0x0010
                        dpl := if i.val = 0x80 then 3 else 0
                        present := if (i.val < 32 ∨ i.val = 0x80 ∨ i.val = 0x21 ∨ i.val = 0x28 ∨ i.val = 0x20) ∧ i.val ≠ 0x0F
                          then 1 else 0
                        reserved0 := 0
                        reserved1 := 1
                        reserved2 := 1
                        reserved3 := if i.val ≥ 32 then 1 else 0
                        reserved4 := 0
                        size := 1 }
  match routineAt i with
  | some r => setIdtEntry e (addr r)
  | none => e

/-- Both halves of an address are put where the processor looks for them. -/
theorem setIdtEntry_offset (e : IdtDesc) (handler : Word) :
    (setIdtEntry e handler).offset31to16 ++ (setIdtEntry e handler).offset15to00 = handler := by
  have low : ∀ i : Fin 32, (0xFFFF : Word).getLsbD i = decide (i.val < 16) := by decide
  have high : ∀ i : Fin 32, (0xFFFF0000 : Word).getLsbD i = decide (16 ≤ i.val) := by decide
  refine BitVec.eq_of_getLsbD_eq fun i inside => ?_
  simp only [setIdtEntry, BitVec.getLsbD_append, BitVec.getLsbD_setWidth, BitVec.getLsbD_ushiftRight, BitVec.getLsbD_and]
  split
  · rename_i below
    rw [low ⟨i, inside⟩]
    simp [below]
  · rename_i above
    rw [show 16 + (i - 16) = i by omega, high ⟨i, inside⟩]
    have place : i - 16 < 16 := by omega
    simp [place, Nat.not_lt.mp above]

theorem decode_val (e : IdtDesc) (gate : e.reserved0 = 0 ∧ e.size = 1 ∧ e.reserved1 = 1 ∧ e.reserved2 = 1) :
    decode e.val = some ⟨e.offset31to16 ++ e.offset15to00, e.segSelector, e.reserved3.getLsbD 0, e.dpl,
      e.present.getLsbD 0⟩ := by
  obtain ⟨r0, size, r1, r2⟩ := gate
  have bits : e.val.getLsbD 41 = true ∧ e.val.getLsbD 42 = true ∧ e.val.getLsbD 43 = true ∧ e.val.getLsbD 44 = false ∧
      e.val.getLsbD 40 = e.reserved3.getLsbD 0 ∧ e.val.getLsbD 47 = e.present.getLsbD 0 := by
    simp only [IdtDesc.val, BitVec.getLsbD_append]
    simp only [Nat.reduceAdd, Nat.reduceLT, Nat.reduceSub, if_true, if_false, r0, size, r1, r2]
    decide
  have fields : e.val.extractLsb' 48 16 = e.offset31to16 ∧ e.val.extractLsb' 0 16 = e.offset15to00 ∧
      e.val.extractLsb' 16 16 = e.segSelector ∧ e.val.extractLsb' 45 2 = e.dpl := by
    unfold IdtDesc.val
    simp (disch := omega) only [BitVec.extractLsb'_append_eq_of_le, BitVec.extractLsb'_append_eq_of_add_le]
    simp only [Nat.reduceAdd, Nat.reduceSub, BitVec.extractLsb'_eq_self, and_self]
  obtain ⟨one, two, three, zero, trap, present⟩ := bits
  obtain ⟨high, low, selector, dpl⟩ := fields
  rw [decode, one, two, three, zero, trap, present, high, low, selector, dpl]
  rfl

/-- The level that an `int` has to come from. -/
def gateLevel (v : Fin 256) : BitVec 2 := if v.val = 0x80 then 3 else 0

/-- The gate of vector `v`, if it is present: to its routine, or to where the
memory of the table pointed before where no routine has been set. -/
def routineGate (addr : Routine → Word) (idt : Fin 256 → IdtDesc) (v : Fin 256) : Gate :=
  ⟨match routineAt v with | some r => addr r | none => (idt v).offset31to16 ++ (idt v).offset15to00, 0x10,
    decide (32 ≤ v.val), gateLevel v, true⟩

/-- Vectors without a gate. -/
def Absent (v : Fin 256) : Prop := v.val = 15 ∨ (32 ≤ v.val ∧ routineAt v = none)

instance (v : Fin 256) : Decidable (Absent v) := inferInstanceAs (Decidable (_ ∨ _))

section Table

variable (addr : Routine → Word) (idt : Fin 256 → IdtDesc)

/-- The table as the processor reads it. -/
def idtTable (i : Fin 256) : BitVec 64 := (initializeIdt addr idt i).val

theorem idtTable_decode (v : Fin 256) :
    decode (idtTable addr idt v) = some { routineGate addr idt v with present := decide (¬ Absent v) } := by
  have present : ∀ v : Fin 256, (if (v.val < 32 ∨ v.val = 0x80 ∨ v.val = 0x21 ∨ v.val = 0x28 ∨ v.val = 0x20) ∧ v.val ≠ 0x0F
      then (1 : BitVec 1) else 0).getLsbD 0 = decide (¬ Absent v) := by
    decide +kernel
  have trap : ∀ v : Fin 256, (if v.val ≥ 32 then (1 : BitVec 1) else 0).getLsbD 0 = decide (32 ≤ v.val) := by
    decide +kernel
  unfold idtTable initializeIdt routineGate gateLevel
  rw [← present, ← trap]
  cases routineAt v with
  | none => exact decode_val _ ⟨rfl, rfl, rfl, rfl⟩
  | some r =>
    dsimp only
    rw [decode_val _ ⟨rfl, rfl, rfl, rfl⟩, setIdtEntry_offset]
    rfl

/-- The level from which a cause comes. -/
def calledFrom : Cause → BitVec 2
  | .software cpl => cpl
  | _ => 0

theorem refuses_iff (g : Gate) (cause : Cause) : g.refuses cause = true ↔ g.dpl < calledFrom cause := by
  cases cause with
  | software cpl => exact decide_eq_true_iff
  | device | exception => simp [Gate.refuses, calledFrom, BitVec.lt_def]

theorem idtTable_enter (cause : Cause) (v : Fin 256) : enter (idtTable addr idt) cause v =
    if gateLevel v < calledFrom cause then .inr .generalProtection
    else if Absent v then .inr .notPresent
    else .inl (routineGate addr idt v) := by
  rw [enter, idtTable_decode]
  dsimp only
  by_cases refused : gateLevel v < calledFrom cause
  · rw [if_pos refused, if_pos ((refuses_iff _ _).mpr refused)]
  · rw [if_neg refused, if_neg fun h => refused ((refuses_iff _ _).mp h)]
    by_cases absent : Absent v
    · simp [absent]
    · simp only [absent, not_false_eq_true, decide_true, if_true, if_false]
      rfl

/-- Every vector from every cause ends in one of the gates: an `int` from too
high a level in that of exception 13, a vector without a gate in that of
exception 11, and 20 to 31 in gates without a routine of their own. No fault on
the way faults again. -/
theorem idt_dispatches (cause : Cause) (v : Fin 256) : arrive (idtTable addr idt) cause v =
    if gateLevel v < calledFrom cause then some (13, routineGate addr idt 13)
    else if Absent v then some (11, routineGate addr idt 11)
    else some (v, routineGate addr idt v) := by
  have faults (f : Fault) :
      enter (idtTable addr idt) .exception f.vector = .inl (routineGate addr idt f.vector) := by
    have fine : ¬ gateLevel f.vector < calledFrom .exception ∧ ¬ Absent f.vector := by cases f <;> decide
    rw [idtTable_enter, if_neg fine.1, if_neg fine.2]
  rw [arrive, idtTable_enter]
  by_cases refused : gateLevel v < calledFrom cause
  · simp only [if_pos refused, faults]
    rfl
  · by_cases absent : Absent v
    · simp only [if_neg refused, if_pos absent, faults]
      rfl
    · simp only [if_neg refused, if_neg absent]

end Table

end UnixLite
