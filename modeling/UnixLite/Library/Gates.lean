import Mathlib.Data.Fin.Basic
import Mathlib.Logic.Function.Basic

namespace Gates

/-- A gate of the interrupt table as the processor reads it. -/
structure Gate where
  offset : BitVec 32
  selector : BitVec 16
  trap : Bool
  dpl : BitVec 2
  present : Bool
  deriving DecidableEq

/-- The gate in the eight bytes of an entry: a 32-bit interrupt gate or trap
gate. Task gates and 16-bit gates are taken for none. -/
def decode (w : BitVec 64) : Option Gate :=
  if w.getLsbD 41 && w.getLsbD 42 && w.getLsbD 43 && !w.getLsbD 44 then
    some ⟨w.extractLsb' 48 16 ++ w.extractLsb' 0 16, w.extractLsb' 16 16, w.getLsbD 40, w.extractLsb' 45 2, w.getLsbD 47⟩
  else none

/-- What asks for a vector: a device, an exception, or an `int` at a privilege level. -/
inductive Cause
  | device
  | exception
  | software (cpl : BitVec 2)

/-- What the processor raises instead of entering a gate. -/
inductive Fault
  | generalProtection
  | notPresent

def Fault.vector : Fault → Fin 256
  | generalProtection => 13
  | notPresent => 11

/-- Only `int` is measured by the level of the gate. -/
def Gate.refuses (g : Gate) : Cause → Bool
  | .software cpl => decide (g.dpl < cpl)
  | _ => false

/-- The gate that a cause is let through, or the fault that it makes. -/
def enter (idt : Fin 256 → BitVec 64) (cause : Cause) (v : Fin 256) : Gate ⊕ Fault :=
  match decode (idt v) with
  | none => .inr .generalProtection
  | some g =>
    if g.refuses cause then .inr .generalProtection
    else if g.present then .inl g else .inr .notPresent

/-- Where the processor gets to in the end; nowhere if the fault itself faults. -/
def arrive (idt : Fin 256 → BitVec 64) (cause : Cause) (v : Fin 256) : Option (Fin 256 × Gate) :=
  match enter idt cause v with
  | .inl g => some (v, g)
  | .inr f =>
    match enter idt .exception f.vector with
    | .inl g => some (f.vector, g)
    | .inr _ => none

end Gates
