import UnixLite.FileSystem
import UnixLite.Library.Pics
import UnixLite.Library.Run

namespace UnixLite

open Pics Transition

/-- The masks of i8259.c and the two controllers. -/
structure I8259 where
  masterMask : BitVec 8
  slaveMask : BitVec 8
  pics : Pair

namespace I8259

/-- A byte at one of the four ports. -/
def outb (data : BitVec 8) (port : Nat) (s : I8259) : I8259 :=
  if port = 0x20 then { s with pics.master := s.pics.master.command data }
  else if port = 0x21 then { s with pics.master := s.pics.master.data data }
  else if port = 0xA0 then { s with pics.slave := s.pics.slave.command data }
  else if port = 0xA1 then { s with pics.slave := s.pics.slave.data data }
  else s

def enableIrq (irqNum : Word) (s : I8259) : I8259 :=
  if irqNum ≥ 16 then s
  else if irqNum < 8 then
    let mask := (~~~((1 : Word) <<< irqNum.toNat)).setWidth 8
    let s := { s with masterMask := s.masterMask &&& mask }
    s.outb s.masterMask 0x21
  else
    let mask := (~~~((1 : Word) <<< (irqNum - 8).toNat)).setWidth 8
    let s := { s with slaveMask := s.slaveMask &&& mask }
    s.outb s.slaveMask 0xA1

def disableIrq (irqNum : Word) (s : I8259) : I8259 :=
  if irqNum ≥ 16 then s
  else if irqNum < 8 then
    let mask := ((1 : Word) <<< irqNum.toNat).setWidth 8
    let s := { s with masterMask := s.masterMask ||| mask }
    s.outb s.masterMask 0x21
  else
    let mask := ((1 : Word) <<< (irqNum - 8).toNat).setWidth 8
    let s := { s with slaveMask := s.slaveMask ||| mask }
    s.outb s.slaveMask 0xA1

def sendEoi (irqNum : Word) (s : I8259) : I8259 :=
  if irqNum ≥ 16 then s
  else if irqNum ≥ 8 then
    (s.outb (0x60 ||| (irqNum - 8).setWidth 8) 0xA0).outb (0x60 ||| 0x02) 0x20
  else s.outb ((0x60 ||| irqNum).setWidth 8) 0x20

def i8259Init (s : I8259) : I8259 :=
  let s := (((s.outb 0x11 0x20).outb 0x20 0x21).outb 0x04 0x21).outb 0x01 0x21
  let s := (((s.outb 0x11 0xA0).outb 0x28 0xA1).outb 0x02 0xA1).outb 0x01 0xA1
  enableIrq 0x02 ((s.outb 0xFF 0x21).outb 0xFF 0xA1)

end I8259

/-- What happens at the controllers: a device asks for interrupt `irq`, the
processor acknowledges what is next, or one of the three routines is called. -/
inductive PicAct
  | raise (irq : Fin 16)
  | acknowledge (irq : Option (Fin 16)) (vector : BitVec 8)
  | enableIrq (irqNum : Word)
  | disableIrq (irqNum : Word)
  | sendEoi (irqNum : Word)

def PicStep (s : I8259) (a : PicAct) (s' : I8259) : Prop :=
  match a with
  | .raise irq => s' = { s with pics := s.pics.raise irq }
  | .acknowledge irq vector =>
    irq = s.pics.next ∧ vector = s.pics.acknowledge.1 ∧ s' = { s with pics := s.pics.acknowledge.2 }
  | .enableIrq irqNum => s' = s.enableIrq irqNum
  | .disableIrq irqNum => s' = s.disableIrq irqNum
  | .sendEoi irqNum => s' = s.sendEoi irqNum

namespace I8259

/-- The bits of the masks over the 16 lines. -/
def maskBit (s : I8259) (n : Fin 16) : Bool :=
  if n.val < 8 then s.masterMask.getLsbD n else s.slaveMask.getLsbD (n - 8)

/-- Set up, with the masks of the driver in the mask registers. -/
structure Ready (s : I8259) : Prop where
  wired : s.pics.Wired 0x20 0x28
  mirrored : ∀ n, s.pics.reg Chip.imr n = s.maskBit n

variable {s : I8259}

/-- The bits of the bytes that the routines compute. -/
theorem mask_bits : ∀ n i : Fin 8,
    ((~~~((1 : Word) <<< n.val)).setWidth 8 : BitVec 8).getLsbD i = decide (i ≠ n) ∧
      (((1 : Word) <<< n.val).setWidth 8 : BitVec 8).getLsbD i = decide (i = n) := by
  decide

theorem command_eoi (n : Fin 8) (c : Chip) : c.command (0x60 ||| BitVec.ofNat 8 n) = c.finish n := by
  have bits : ∀ n : Fin 8, ¬ (0x60 ||| BitVec.ofNat 8 n : BitVec 8).getLsbD 4 = true ∧
      ¬ (0x60 ||| BitVec.ofNat 8 n : BitVec 8).getLsbD 3 = true ∧ (0x60 ||| BitVec.ofNat 8 n : BitVec 8).toNat / 32 = 3 ∧
      Fin.ofNat 8 (0x60 ||| BitVec.ofNat 8 n : BitVec 8).toNat = n := by
    decide
  obtain ⟨notIcw1, notOcw3, specific, line⟩ := bits n
  rw [Chip.command, if_neg notIcw1, if_neg notOcw3, if_pos specific, line]

theorem data_ready {c : Chip} (ready : c.phase = .ready) (b : BitVec 8) :
    c.data b = { c with imr := fun i => b.getLsbD i } := by
  simp [Chip.data, ready]

/-- A number of a line as a word, or a word that the routines return on. -/
theorem word_cases (irqNum : Word) : (∃ n : Fin 16, irqNum = BitVec.ofNat 32 n) ∨ irqNum ≥ 16 := by
  by_cases line : irqNum.toNat < 16
  · exact Or.inl ⟨⟨irqNum.toNat, line⟩, by simp⟩
  · exact Or.inr (by rw [ge_iff_le, BitVec.le_def]; exact Nat.not_lt.mp line)

theorem word_low : ∀ n : Fin 8, ¬ BitVec.ofNat 32 (n.castAdd 8 : Fin 16) ≥ (16 : Word) ∧
    BitVec.ofNat 32 (n.castAdd 8 : Fin 16) < (8 : Word) ∧ ¬ BitVec.ofNat 32 (n.castAdd 8 : Fin 16) ≥ (8 : Word) ∧
    (BitVec.ofNat 32 (n.castAdd 8 : Fin 16)).toNat = n.val ∧
    ((0x60 : Word) ||| BitVec.ofNat 32 (n.castAdd 8 : Fin 16)).setWidth 8 = 0x60 ||| BitVec.ofNat 8 n := by
  decide

theorem word_high : ∀ n : Fin 8, ¬ BitVec.ofNat 32 (n.natAdd 8 : Fin 16) ≥ (16 : Word) ∧
    ¬ BitVec.ofNat 32 (n.natAdd 8 : Fin 16) < (8 : Word) ∧ BitVec.ofNat 32 (n.natAdd 8 : Fin 16) ≥ (8 : Word) ∧
    (BitVec.ofNat 32 (n.natAdd 8 : Fin 16) - 8).toNat = n.val ∧
    (0x60 : BitVec 8) ||| (BitVec.ofNat 32 (n.natAdd 8 : Fin 16) - 8).setWidth 8 = 0x60 ||| BitVec.ofNat 8 n := by
  decide

/-- `send_eoi` ends the interrupt on its lines. -/
theorem sendEoi_line (n : Fin 16) : s.sendEoi (BitVec.ofNat 32 n) = { s with pics := s.pics.finish n } := by
  rcases Pair.line_cases n with ⟨i, rfl⟩ | ⟨i, rfl⟩
  · obtain ⟨line, _, low, _, byte⟩ := word_low i
    rw [sendEoi, if_neg line, if_neg low, byte, Pair.finish_low, ← command_eoi]
    rfl
  · obtain ⟨line, _, high, _, byte⟩ := word_high i
    rw [sendEoi, if_neg line, if_pos high, byte, Pair.finish_high, ← command_eoi, ← command_eoi]
    rfl

theorem sendEoi_outside {irqNum : Word} (outside : irqNum ≥ 16) : s.sendEoi irqNum = s := if_pos outside

/-- What setting one bit of the masks comes to. -/
structure Masks (s : I8259) (n : Fin 16) (b : Bool) (s' : I8259) : Prop where
  ready : s'.Ready
  bit : s'.maskBit = Function.update s.maskBit n b
  irr : s'.pics.reg Chip.irr = s.pics.reg Chip.irr
  isr : s'.pics.reg Chip.isr = s.pics.reg Chip.isr

/-- The bits of the masks, chip by chip. -/
theorem maskBit_low (i : Fin 8) : s.maskBit (i.castAdd 8) = s.masterMask.getLsbD i := if_pos i.isLt

theorem maskBit_high (i : Fin 8) : s.maskBit (i.natAdd 8) = s.slaveMask.getLsbD i := by
  have outside : ¬ (i.natAdd 8 : Fin 16).val < 8 := by simp
  rw [maskBit, if_neg outside]
  simp

theorem Ready.master (ready : s.Ready) {mask : BitVec 8} {n : Fin 8} {b : Bool}
    (bits : ∀ i : Fin 8, mask.getLsbD i = if i = n then b else s.masterMask.getLsbD i) :
    Masks s (n.castAdd 8) b (({ s with masterMask := mask } : I8259).outb mask 0x21) := by
  have written : ({ s with masterMask := mask } : I8259).outb mask 0x21 =
      ⟨mask, s.slaveMask, { s.pics.master with imr := fun i => mask.getLsbD i }, s.pics.slave⟩ := by
    unfold outb
    rw [if_neg (by decide), if_pos rfl, data_ready ready.wired.ready.1]
  rw [written]
  refine ⟨⟨⟨ready.wired.ready, ready.wired.base, ready.wired.cascade, ready.wired.manual⟩, fun m => ?_⟩, ?_, ?_, ?_⟩
  · rcases Pair.line_cases m with ⟨i, rfl⟩ | ⟨i, rfl⟩
    · rw [Pair.reg_low, maskBit_low]
    · have old := ready.mirrored (i.natAdd 8)
      rw [Pair.reg_high, maskBit_high] at old ⊢
      exact old
  · funext m
    rcases Pair.line_cases m with ⟨i, rfl⟩ | ⟨i, rfl⟩
    · rw [maskBit_low, bits i, Function.update_apply, maskBit_low]
      simp only [(Fin.castAdd_injective 8 8).eq_iff]
    · have other : i.natAdd 8 ≠ n.castAdd 8 := by
        intro same
        have values := congrArg Fin.val same
        simp only [Fin.val_natAdd, Fin.val_castAdd] at values
        omega
      rw [Function.update_of_ne other, maskBit_high, maskBit_high]
  · funext m
    unfold Pair.reg
    split <;> rfl
  · funext m
    unfold Pair.reg
    split <;> rfl

theorem Ready.slave (ready : s.Ready) {mask : BitVec 8} {n : Fin 8} {b : Bool}
    (bits : ∀ i : Fin 8, mask.getLsbD i = if i = n then b else s.slaveMask.getLsbD i) :
    Masks s (n.natAdd 8) b (({ s with slaveMask := mask } : I8259).outb mask 0xA1) := by
  have written : ({ s with slaveMask := mask } : I8259).outb mask 0xA1 =
      ⟨s.masterMask, mask, s.pics.master, { s.pics.slave with imr := fun i => mask.getLsbD i }⟩ := by
    unfold outb
    rw [if_neg (by decide), if_neg (by decide), if_neg (by decide), if_pos rfl, data_ready ready.wired.ready.2]
  rw [written]
  refine ⟨⟨⟨ready.wired.ready, ready.wired.base, ready.wired.cascade, ready.wired.manual⟩, fun m => ?_⟩, ?_, ?_, ?_⟩
  · rcases Pair.line_cases m with ⟨i, rfl⟩ | ⟨i, rfl⟩
    · have old := ready.mirrored (i.castAdd 8)
      rw [Pair.reg_low, maskBit_low] at old ⊢
      exact old
    · rw [Pair.reg_high, maskBit_high]
  · funext m
    rcases Pair.line_cases m with ⟨i, rfl⟩ | ⟨i, rfl⟩
    · have other : i.castAdd 8 ≠ n.natAdd 8 := by
        intro same
        have values := congrArg Fin.val same
        simp only [Fin.val_natAdd, Fin.val_castAdd] at values
        omega
      rw [Function.update_of_ne other, maskBit_low, maskBit_low]
    · rw [maskBit_high, bits i, Function.update_apply, maskBit_high]
      simp only [(Fin.natAdd_injective 8 8).eq_iff]
  · funext m
    unfold Pair.reg
    split <;> rfl
  · funext m
    unfold Pair.reg
    split <;> rfl

theorem Ready.enableIrq (ready : s.Ready) (n : Fin 16) : Masks s n false (s.enableIrq (BitVec.ofNat 32 n)) := by
  rcases Pair.line_cases n with ⟨j, rfl⟩ | ⟨j, rfl⟩
  · obtain ⟨line, low, _, number, _⟩ := word_low j
    rw [I8259.enableIrq, if_neg line, if_pos low, number]
    refine ready.master fun i => ?_
    rw [BitVec.getLsbD_and, (mask_bits j i).1]
    by_cases same : i = j <;> simp [same]
  · obtain ⟨line, low, _, number, _⟩ := word_high j
    rw [I8259.enableIrq, if_neg line, if_neg low, number]
    refine ready.slave fun i => ?_
    rw [BitVec.getLsbD_and, (mask_bits j i).1]
    by_cases same : i = j <;> simp [same]

theorem Ready.disableIrq (ready : s.Ready) (n : Fin 16) : Masks s n true (s.disableIrq (BitVec.ofNat 32 n)) := by
  rcases Pair.line_cases n with ⟨j, rfl⟩ | ⟨j, rfl⟩
  · obtain ⟨line, low, _, number, _⟩ := word_low j
    rw [I8259.disableIrq, if_neg line, if_pos low, number]
    refine ready.master fun i => ?_
    rw [BitVec.getLsbD_or, (mask_bits j i).2]
    by_cases same : i = j <;> simp [same]
  · obtain ⟨line, low, _, number, _⟩ := word_high j
    rw [I8259.disableIrq, if_neg line, if_neg low, number]
    refine ready.slave fun i => ?_
    rw [BitVec.getLsbD_or, (mask_bits j i).2]
    by_cases same : i = j <;> simp [same]

/-- What `i8259_init` leaves, whatever the chips were in before. -/
theorem i8259Init_eq (p : Pair) : i8259Init ⟨0xFF, 0xFF, p⟩ = ⟨0xFB, 0xFF,
    ⟨⟨fun _ => false, fun _ => false, fun i => (0xFB : BitVec 8).getLsbD i, 0x20, 4, .ready, false, true, false⟩,
      ⟨fun _ => false, fun _ => false, fun i => (0xFF : BitVec 8).getLsbD i, 0x28, 2, .ready, false, true, false⟩⟩⟩ := by
  simp [i8259Init, outb, enableIrq, Chip.command, Chip.data]

theorem i8259Init_ready (p : Pair) : (i8259Init ⟨0xFF, 0xFF, p⟩).Ready ∧
    (∀ n, (i8259Init ⟨0xFF, 0xFF, p⟩).maskBit n = decide (n ≠ 2)) ∧
    ∀ n, (i8259Init ⟨0xFF, 0xFF, p⟩).pics.reg Chip.irr n = false ∧
      (i8259Init ⟨0xFF, 0xFF, p⟩).pics.reg Chip.isr n = false := by
  rw [i8259Init_eq]
  refine ⟨⟨⟨⟨rfl, rfl⟩, ⟨rfl, rfl⟩, ⟨rfl, rfl⟩, ⟨rfl, rfl⟩⟩, fun n => ?_⟩, by decide, fun n => ?_⟩
  · rcases Pair.line_cases n with ⟨i, rfl⟩ | ⟨i, rfl⟩
    · rw [Pair.reg_low, maskBit_low]
    · rw [Pair.reg_high, maskBit_high]
  · unfold Pair.reg
    split
    · exact ⟨rfl, rfl⟩
    · exact ⟨rfl, rfl⟩

end I8259

/-- What follows from the calls and events alone: the interrupts enabled, those
asked for, and those taken and not yet ended. -/
structure Ledger where
  enabled : Fin 16 → Bool
  requested : Fin 16 → Bool
  serving : Fin 16 → Bool

namespace Ledger

/-- After `i8259_init` only the line of the second controller is enabled. -/
def start : Ledger := ⟨fun n => decide (n = 2), fun _ => false, fun _ => false⟩

/-- The line that a word names, if it names one. -/
def line (irqNum : Word) (n : Fin 16) : Prop := irqNum.toNat = n.val

instance (irqNum : Word) (n : Fin 16) : Decidable (line irqNum n) := inferInstanceAs (Decidable (_ = _))

def record (l : Ledger) : PicAct → Ledger
  | .raise irq => { l with requested := Function.update l.requested irq true }
  | .acknowledge none _ => l
  | .acknowledge (some irq) _ =>
    { l with requested := fun n => if Pair.Takes irq n then false else l.requested n,
             serving := fun n => if Pair.Takes irq n then true else l.serving n }
  | .enableIrq irqNum => { l with enabled := fun n => if line irqNum n then true else l.enabled n }
  | .disableIrq irqNum => { l with enabled := fun n => if line irqNum n then false else l.enabled n }
  | .sendEoi irqNum =>
    { l with serving := fun n => if ∃ irq, line irqNum irq ∧ Pair.Takes irq n then false else l.serving n }

/-- The ledger of a history, the newest event first. -/
def after : List PicAct → Ledger
  | [] => start
  | a :: past => (after past).record a

/-- Interrupt `n` may be taken. -/
structure Deliverable (l : Ledger) (n : Fin 16) : Prop where
  device : n ≠ 2
  requested : l.requested n = true
  enabled : ∀ m, Pair.Takes n m → l.enabled m = true
  free : ∀ m, Pair.KeepsOut m n → l.serving m = false

/-- What an acknowledgement gives: the first interrupt that may be taken with
its vector, or that of a spurious interrupt where there is none. -/
def Gives (l : Ledger) : Option (Fin 16) → BitVec 8 → Prop
  | none, vector => vector = 0x27 ∧ ∀ n, ¬ l.Deliverable n
  | some irq, vector => vector = 0x20 + BitVec.ofNat 8 irq ∧ l.Deliverable irq ∧
      ∀ n, l.Deliverable n → Pair.rank irq ≤ Pair.rank n

end Ledger

/-- The controllers are as the ledger has it. -/
structure Kept (l : Ledger) (s : I8259) : Prop where
  ready : s.Ready
  enabled : ∀ n, s.maskBit n = !l.enabled n
  requested : ∀ n, s.pics.reg Chip.irr n = l.requested n
  serving : ∀ n, s.pics.reg Chip.isr n = l.serving n

namespace Kept

variable {l : Ledger} {s s' : I8259} {a : PicAct}

theorem deliverable (kept : Kept l s) (n : Fin 16) : s.pics.Deliverable n ↔ l.Deliverable n := by
  have masks (m : Fin 16) : s.pics.reg Chip.imr m = false ↔ l.enabled m = true := by
    rw [kept.ready.mirrored, kept.enabled]
    simp
  constructor
  · rintro ⟨device, requested, enabled, free⟩
    exact ⟨device, by rw [← kept.requested]; exact requested, fun m takes => (masks m).mp (enabled m takes),
      fun m keeps => by rw [← kept.serving]; exact free m keeps⟩
  · rintro ⟨device, requested, enabled, free⟩
    exact ⟨device, by rw [kept.requested]; exact requested, fun m takes => (masks m).mpr (enabled m takes),
      fun m keeps => by rw [kept.serving]; exact free m keeps⟩

theorem gives (kept : Kept l s) : l.Gives s.pics.next s.pics.acknowledge.1 := by
  rcases kept.ready.wired.acknowledge with ⟨none, answer⟩ | ⟨n, some_, answer⟩
  · rw [none, answer]
    exact ⟨rfl, fun n fine => Pair.next_eq_none_iff.mp none n ((kept.deliverable n).mpr fine)⟩
  · rw [some_, answer]
    obtain ⟨fine, least⟩ := Pair.next_iff.mp some_
    have vectors : ∀ n, Pair.vector 0x20 0x28 n = 0x20 + BitVec.ofNat 8 n := by decide
    exact ⟨vectors n, (kept.deliverable n).mp fine, fun m other => least m ((kept.deliverable m).mpr other)⟩

theorem line_ofNat (n m : Fin 16) : Ledger.line (BitVec.ofNat 32 n) m ↔ m = n := by
  revert n m
  decide

theorem not_line {irqNum : Word} (outside : irqNum ≥ 16) (m : Fin 16) : ¬ Ledger.line irqNum m := by
  intro same
  have above : 16 ≤ irqNum.toNat := outside
  have inside := m.isLt
  rw [Ledger.line] at same
  omega

/-- Every event and every call keeps to the ledger. -/
theorem step (kept : Kept l s) (move : PicStep s a s') : Kept (l.record a) s' := by
  have masked {n : Fin 16} {b : Bool} {l' : Ledger} (masks : I8259.Masks s n b s') (requested : l'.requested = l.requested)
      (serving : l'.serving = l.serving) (enabled : ∀ m, l'.enabled m = if m = n then !b else l.enabled m) : Kept l' s' := by
    refine ⟨masks.ready, fun m => ?_, fun m => ?_, fun m => ?_⟩
    · rw [masks.bit, Function.update_apply, enabled]
      split
      · simp
      · exact kept.enabled m
    · rw [masks.irr, requested]
      exact kept.requested m
    · rw [masks.isr, serving]
      exact kept.serving m
  cases a with
  | raise irq =>
    cases move
    obtain ⟨irr, isr, imr⟩ := Pair.raise_reg (p := s.pics) (n := irq)
    refine ⟨⟨kept.ready.wired.raise, fun n => ?_⟩, kept.enabled, fun n => ?_, fun n => ?_⟩
    · exact (congrFun imr n).trans (kept.ready.mirrored n)
    · change _ = Function.update l.requested irq true n
      rw [irr, Function.update_apply, Function.update_apply, kept.requested]
    · exact (congrFun isr n).trans (kept.serving n)
  | acknowledge irq vector =>
    obtain ⟨rfl, _, rfl⟩ := move
    rcases kept.ready.wired.acknowledge with ⟨none, answer⟩ | ⟨n, some_, answer⟩
    · rw [none, answer]
      exact kept
    · rw [some_, answer]
      obtain ⟨isr, irr, imr⟩ := Pair.serve_reg (n := n) kept.ready.wired
      refine ⟨⟨kept.ready.wired.serve, fun m => ?_⟩, kept.enabled, fun m => ?_, fun m => ?_⟩
      · exact (congrFun imr m).trans (kept.ready.mirrored m)
      · rw [irr, kept.requested]
        rfl
      · rw [isr, kept.serving]
        rfl
  | enableIrq irqNum =>
    cases move
    rcases I8259.word_cases irqNum with ⟨n, rfl⟩ | outside
    · refine masked (kept.ready.enableIrq n) rfl rfl fun m => ?_
      simp only [Ledger.record, line_ofNat, Bool.not_false]
    · rw [show s.enableIrq irqNum = s from if_pos outside]
      refine ⟨kept.ready, fun m => ?_, kept.requested, kept.serving⟩
      simp only [Ledger.record, not_line outside, if_false]
      exact kept.enabled m
  | disableIrq irqNum =>
    cases move
    rcases I8259.word_cases irqNum with ⟨n, rfl⟩ | outside
    · refine masked (kept.ready.disableIrq n) rfl rfl fun m => ?_
      simp only [Ledger.record, line_ofNat, Bool.not_true]
    · rw [show s.disableIrq irqNum = s from if_pos outside]
      refine ⟨kept.ready, fun m => ?_, kept.requested, kept.serving⟩
      simp only [Ledger.record, not_line outside, if_false]
      exact kept.enabled m
  | sendEoi irqNum =>
    cases move
    rcases I8259.word_cases irqNum with ⟨n, rfl⟩ | outside
    · rw [I8259.sendEoi_line]
      obtain ⟨isr, irr, imr⟩ := Pair.finish_reg (p := s.pics) (n := n)
      refine ⟨⟨kept.ready.wired.finish, fun m => ?_⟩, kept.enabled, fun m => ?_, fun m => ?_⟩
      · exact (congrFun imr m).trans (kept.ready.mirrored m)
      · exact (congrFun irr m).trans (kept.requested m)
      · simp only [Ledger.record, line_ofNat, exists_eq_left]
        rw [isr, kept.serving]
    · rw [I8259.sendEoi_outside outside]
      refine ⟨kept.ready, kept.enabled, kept.requested, fun m => ?_⟩
      simp only [Ledger.record, not_line outside, false_and, exists_false, if_false]
      exact kept.serving m

end Kept

/-- From `i8259_init` on, whatever devices ask for, whenever the processor
acknowledges and however the three routines are called, the two controllers
are one controller for 15 interrupts that the calls and events determine. -/
theorem controllers_follow (p : Pair) {history : List (Event I8259 PicAct)} {s : I8259}
    (run : Run PicStep (I8259.i8259Init ⟨0xFF, 0xFF, p⟩) history s) :
    Kept (Ledger.after (history.map Event.act)) s ∧
      ∀ past e, (e :: past) <:+ history → ∀ irq vector, e.act = .acknowledge irq vector →
        (Ledger.after (past.map Event.act)).Gives irq vector := by
  have follows {past : List (Event I8259 PicAct)} {s : I8259}
      (run : Run PicStep (I8259.i8259Init ⟨0xFF, 0xFF, p⟩) past s) : Kept (Ledger.after (past.map Event.act)) s := by
    refine run.history_invariant (fun past s => Kept (Ledger.after (past.map Event.act)) s) ?_
      fun past s a s' _ kept move => kept.step move
    obtain ⟨ready, masks, idle⟩ := I8259.i8259Init_ready p
    exact ⟨ready, fun n => by rw [masks, List.map_nil, Ledger.after, Ledger.start, decide_not], fun n => (idle n).1,
      fun n => (idle n).2⟩
  refine ⟨follows run, fun past e tail irq vector act => ?_⟩
  obtain ⟨reached, move⟩ := run.event_of_suffix tail
  rw [act] at move
  obtain ⟨rfl, rfl, _⟩ := move
  exact (follows reached).gives

/-- Chips that have not been set up. -/
def blankPair : Pair :=
  ⟨⟨fun _ => true, fun _ => true, fun _ => false, 8, 0, .ready, true, false, true⟩,
    ⟨fun _ => true, fun _ => true, fun _ => false, 0x70, 0, .icw3, true, false, true⟩⟩

theorem PicStep.taken (s : I8259) :
    PicStep s (.acknowledge s.pics.next s.pics.acknowledge.1) { s with pics := s.pics.acknowledge.2 } :=
  ⟨rfl, rfl, rfl⟩

/-- The keyboard asks and is masked, the clock asks and is taken. -/
theorem controllers_follow_sample : ∃ (history : List (Event I8259 PicAct)) (s : I8259),
    history.map Event.act = [.acknowledge (some 8) 0x28, .raise 8, .raise 1, .enableIrq 8] ∧
      Kept (Ledger.after (history.map Event.act)) s := by
  obtain ⟨s1, enabled⟩ : ∃ s, s = (I8259.i8259Init ⟨0xFF, 0xFF, blankPair⟩).enableIrq 8 := ⟨_, rfl⟩
  obtain ⟨s2, first⟩ : ∃ s, s = { s1 with pics := s1.pics.raise 1 } := ⟨_, rfl⟩
  obtain ⟨s3, second⟩ : ∃ s, s = { s2 with pics := s2.pics.raise 8 } := ⟨_, rfl⟩
  have one : PicStep (I8259.i8259Init ⟨0xFF, 0xFF, blankPair⟩) (.enableIrq 8) s1 := enabled
  have two : PicStep s1 (.raise 1) s2 := first
  have three : PicStep s2 (.raise 8) s3 := second
  have run := (((Run.start.next one).next two).next three).next (PicStep.taken s3)
  have answer : s3.pics.next = some 8 ∧ s3.pics.acknowledge.1 = 0x28 := by
    rw [second, first, enabled]
    decide
  rw [answer.1, answer.2] at run
  exact ⟨_, _, rfl, (controllers_follow blankPair run).1⟩

end UnixLite
