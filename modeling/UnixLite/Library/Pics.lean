import Mathlib.Algebra.GroupWithZero.Nat
import Mathlib.Data.List.FinRange
import Mathlib.Logic.Function.Basic

namespace Pics

/-- The control word that a write to the data port is taken for. -/
inductive Phase
  | icw2 | icw3 | icw4 | ready
  deriving DecidableEq

/-- An 8259A in fully nested mode: its request, in-service and mask registers
and what its initialization words have set. It has no rotation, no polling and
no special modes. -/
structure Chip where
  irr : Fin 8 → Bool
  isr : Fin 8 → Bool
  imr : Fin 8 → Bool
  base : BitVec 8
  cascade : BitVec 8
  phase : Phase
  single : Bool
  fourth : Bool
  autoEoi : Bool

namespace Chip

variable (c : Chip)

/-- Line `i` asks, is not masked, and neither it nor a line above it is in service. -/
def asks (i : Fin 8) : Bool :=
  c.irr i && !c.imr i && (List.finRange 8).all fun j => decide (i < j) || !c.isr j

/-- The line that is to be served next. -/
def winner : Option (Fin 8) := (List.finRange 8).find? c.asks

/-- The line above all others that is in service. -/
def current : Option (Fin 8) := (List.finRange 8).find? c.isr

def raise (i : Fin 8) : Chip := { c with irr := Function.update c.irr i true }

/-- The end of the interrupt on line `i`. -/
def finish (i : Fin 8) : Chip := { c with isr := Function.update c.isr i false }

def serve (i : Fin 8) : Chip :=
  { c with irr := Function.update c.irr i false, isr := if c.autoEoi then c.isr else Function.update c.isr i true }

/-- A byte at the command port: the first initialization word, or an operation
of which the two that end an interrupt are meant here. -/
def command (b : BitVec 8) : Chip :=
  if b.getLsbD 4 then
    { c with irr := fun _ => false, isr := fun _ => false, imr := fun _ => false, phase := .icw2,
             single := b.getLsbD 1, fourth := b.getLsbD 0, autoEoi := false }
  else if b.getLsbD 3 then c
  else if b.toNat / 32 = 3 then c.finish (Fin.ofNat 8 b.toNat)
  else if b.toNat / 32 = 1 then
    match c.current with
    | some i => c.finish i
    | none => c
  else c

/-- A byte at the data port. -/
def data (b : BitVec 8) : Chip :=
  match c.phase with
  | .icw2 => { c with base := b &&& 0xF8, phase := if !c.single then .icw3 else if c.fourth then .icw4 else .ready }
  | .icw3 => { c with cascade := b, phase := if c.fourth then .icw4 else .ready }
  | .icw4 => { c with autoEoi := b.getLsbD 1, phase := .ready }
  | .ready => { c with imr := fun i => b.getLsbD i }

variable {c} {i : Fin 8}

theorem asks_iff : c.asks i = true ↔ c.irr i = true ∧ c.imr i = false ∧ ∀ j ≤ i, c.isr j = false := by
  simp only [asks, Bool.and_eq_true, Bool.not_eq_true', List.all_eq_true, List.mem_finRange, true_implies,
    Bool.or_eq_true, decide_eq_true_eq, and_assoc]
  refine and_congr_right fun _ => and_congr_right fun _ => forall_congr' fun j => ?_
  rw [← not_le]
  exact imp_iff_not_or.symm

theorem asks_of_winner (wins : c.winner = some i) : c.asks i = true := List.find?_some wins

theorem winner_none (quiet : c.winner = none) (i : Fin 8) : c.asks i = false := by
  have silent := List.find?_eq_none.mp quiet i (List.mem_finRange i)
  simpa using silent

/-- Of two lines that ask the upper one wins. -/
theorem winner_le {j : Fin 8} (wins : c.winner = some i) (asks : c.asks j = true) : i ≤ j := by
  obtain ⟨_, place, inside, at_, before⟩ := List.find?_eq_some_iff_getElem.mp wins
  rw [List.getElem_finRange] at at_
  by_contra above
  rw [not_le] at above
  have less : j.val < place := by
    have same := congrArg Fin.val at_
    simp only [Fin.val_cast] at same
    have lower : j.val < i.val := above
    omega
  have silent := before j.val less
  rw [List.getElem_finRange] at silent
  simp [asks] at silent

end Chip

/-- For the numbers of the lines of both chips. -/
scoped instance neZero_lines : NeZero 16 := ⟨by decide⟩

/-- Two chips, the output of the second on line 2 of the first. -/
structure Pair where
  master : Chip
  slave : Chip

namespace Pair

variable (p : Pair)

/-- The master with what its line 2 brings. -/
def joined : Chip := { p.master with irr := Function.update p.master.irr 2 p.slave.winner.isSome }

/-- The lines of interrupt `n` are in service. -/
def serve (n : Fin 16) : Pair :=
  if n.val < 8 then { p with master := p.master.serve (Fin.ofNat 8 n) }
  else ⟨p.master.serve 2, p.slave.serve (Fin.ofNat 8 n)⟩

/-- They no longer are. -/
def finish (n : Fin 16) : Pair :=
  if n.val < 8 then { p with master := p.master.finish (Fin.ofNat 8 n) }
  else ⟨p.master.finish 2, p.slave.finish (Fin.ofNat 8 n)⟩

/-- The interrupt that would be taken next. -/
def next : Option (Fin 16) :=
  p.joined.winner.bind fun i => if i = 2 then p.slave.winner.map (·.natAdd 8) else some (i.castAdd 8)

def raise (n : Fin 16) : Pair :=
  if n.val < 8 then { p with master := p.master.raise (Fin.ofNat 8 n) }
  else { p with slave := p.slave.raise (Fin.ofNat 8 n) }

/-- The processor acknowledges: the vector on the bus, and the chips behind
it. Without a request the vector is that of line 7. -/
def acknowledge : BitVec 8 × Pair :=
  match p.joined.winner with
  | none => (p.master.base + 7, p)
  | some i =>
    if p.master.cascade.getLsbD i then
      if p.slave.cascade = BitVec.ofNat 8 i then
        match p.slave.winner with
        | none => (p.slave.base + 7, ⟨p.master.serve i, p.slave⟩)
        | some j => (p.slave.base + BitVec.ofNat 8 j, ⟨p.master.serve i, p.slave.serve j⟩)
      else (0xFF, ⟨p.master.serve i, p.slave⟩)
    else (p.master.base + BitVec.ofNat 8 i, ⟨p.master.serve i, p.slave⟩)

/-- A register of the two chips over all 16 lines. -/
def reg (f : Chip → Fin 8 → Bool) (n : Fin 16) : Bool :=
  f (if n.val < 8 then p.master else p.slave) (Fin.ofNat 8 n)

/-- Initialized as two chips at these vectors, the second one on line 2. -/
structure Wired (low high : BitVec 8) : Prop where
  ready : p.master.phase = .ready ∧ p.slave.phase = .ready
  base : p.master.base = low ∧ p.slave.base = high
  cascade : p.master.cascade = 4 ∧ p.slave.cascade = 2
  manual : p.master.autoEoi = false ∧ p.slave.autoEoi = false

/-- The register lines that serving interrupt `n` takes: its own, and the one
that the second chip hangs on. -/
def Takes (n m : Fin 16) : Prop := m = n ∨ (m = 2 ∧ 8 ≤ n.val)

/-- Interrupt `m` in service keeps interrupt `n` out: on one chip by its
number, on the two by the line of the second. -/
def KeepsOut (m n : Fin 16) : Prop :=
  (m.val ≤ n.val ∧ (n.val < 8 ∨ 8 ≤ m.val)) ∨ (m.val ≤ 2 ∧ 8 ≤ n.val)

instance (n m : Fin 16) : Decidable (Takes n m) := inferInstanceAs (Decidable (_ ∨ _))

instance (m n : Fin 16) : Decidable (KeepsOut m n) := inferInstanceAs (Decidable (_ ∨ _))

variable {p}

theorem reg_low {f : Chip → Fin 8 → Bool} (i : Fin 8) : p.reg f (i.castAdd 8) = f p.master i := by
  have low : (i.castAdd 8 : Fin 16).val < 8 := i.isLt
  rw [reg, if_pos low]
  congr
  exact Fin.ext (Nat.mod_eq_of_lt low)

theorem reg_high {f : Chip → Fin 8 → Bool} (i : Fin 8) : p.reg f (i.natAdd 8) = f p.slave i := by
  have high : ¬ (i.natAdd 8 : Fin 16).val < 8 := by simp
  rw [reg, if_neg high]
  congr
  refine Fin.ext ?_
  simp only [Fin.val_ofNat, Fin.val_natAdd]
  omega

/-- A line is one of the first chip or one of the second. -/
theorem line_cases (n : Fin 16) : (∃ i : Fin 8, n = i.castAdd 8) ∨ ∃ i : Fin 8, n = i.natAdd 8 := by
  by_cases low : n.val < 8
  · exact Or.inl ⟨⟨n.val, low⟩, rfl⟩
  · refine Or.inr ⟨⟨n.val - 8, by omega⟩, Fin.ext ?_⟩
    simp only [Fin.val_natAdd]
    omega

/-- What is taken next has the line free for it on both chips. -/
theorem next_cases {n : Fin 16} (taken : p.next = some n) :
    (∃ i : Fin 8, n = i.castAdd 8 ∧ i ≠ 2 ∧ p.joined.winner = some i) ∨
      ∃ i : Fin 8, n = i.natAdd 8 ∧ p.joined.winner = some 2 ∧ p.slave.winner = some i := by
  obtain ⟨i, wins, rest⟩ := Option.bind_eq_some_iff.mp taken
  by_cases two : i = 2
  · subst two
    rw [if_pos rfl] at rest
    obtain ⟨j, second, rfl⟩ := Option.map_eq_some_iff.mp rest
    exact Or.inr ⟨j, rfl, wins, second⟩
  · rw [if_neg two] at rest
    cases rest
    exact Or.inl ⟨i, rfl, two, wins⟩

theorem next_none (quiet : p.next = none) : p.joined.winner = none := by
  rw [Option.eq_none_iff_forall_ne_some]
  intro i wins
  rw [next, wins, Option.bind_some] at quiet
  by_cases two : i = 2
  · subst two
    rw [if_pos rfl, Option.map_eq_none_iff] at quiet
    have asks := (Chip.asks_iff.mp (Chip.asks_of_winner wins)).1
    simp only [joined, Function.update_self, quiet] at asks
    cases asks
  · rw [if_neg two] at quiet
    cases quiet

/-- Interrupt `n` has been requested, is not masked, and is kept out by nothing
that is in service. -/
structure Deliverable (p : Pair) (n : Fin 16) : Prop where
  device : n ≠ 2
  requested : p.reg Chip.irr n = true
  enabled : ∀ m, Takes n m → p.reg Chip.imr m = false
  free : ∀ m, KeepsOut m n → p.reg Chip.isr m = false

theorem two_low : (2 : Fin 16) = (2 : Fin 8).castAdd 8 := rfl

theorem joined_asks {i : Fin 8} (other : i ≠ 2) : p.joined.asks i = p.master.asks i := by
  simp only [Chip.asks, joined, Function.update_of_ne other]

theorem joined_asks_two : p.joined.asks 2 = true ↔
    (∃ j, p.slave.asks j = true) ∧ p.master.imr 2 = false ∧ ∀ j ≤ 2, p.master.isr j = false := by
  rw [Chip.asks_iff]
  refine and_congr ?_ Iff.rfl
  simp only [joined, Function.update_self, Option.isSome_iff_exists]
  constructor
  · rintro ⟨j, wins⟩
    exact ⟨j, Chip.asks_of_winner wins⟩
  · rintro ⟨j, asks⟩
    cases none : p.slave.winner with
    | some i => exact ⟨i, rfl⟩
    | none =>
      rw [Chip.winner_none none j] at asks
      cases asks

theorem deliverable_low {i : Fin 8} (other : i ≠ 2) : p.Deliverable (i.castAdd 8) ↔ p.joined.asks i = true := by
  have low (j : Fin 8) : (j.castAdd 8 : Fin 16).val = j.val ∧ j.val < 8 := ⟨rfl, j.isLt⟩
  have high (j : Fin 8) : (j.natAdd 8 : Fin 16).val = 8 + j.val := rfl
  have number := low i
  rw [joined_asks other, Chip.asks_iff]
  constructor
  · rintro ⟨_, requested, enabled, free⟩
    rw [reg_low] at requested
    have unmasked := enabled _ (Or.inl rfl)
    rw [reg_low] at unmasked
    refine ⟨requested, unmasked, fun j below => ?_⟩
    have kept := free (j.castAdd 8) (Or.inl ⟨below, Or.inl number.2⟩)
    rwa [reg_low] at kept
  · rintro ⟨requested, unmasked, free⟩
    refine ⟨fun same => other (Fin.castAdd_injective 8 8 same), by rw [reg_low]; exact requested, fun m takes => ?_,
      fun m keeps => ?_⟩
    · rcases takes with rfl | ⟨_, above⟩
      · rw [reg_low]
        exact unmasked
      · omega
    · rw [KeepsOut] at keeps
      rcases line_cases m with ⟨j, rfl⟩ | ⟨j, rfl⟩
      · have lower := low j
        rw [reg_low]
        exact free j (Fin.le_def.mpr (by omega))
      · have upper := high j
        omega

theorem deliverable_high {i : Fin 8} :
    p.Deliverable (i.natAdd 8) ↔ p.slave.asks i = true ∧ p.joined.asks 2 = true := by
  have low (j : Fin 8) : (j.castAdd 8 : Fin 16).val = j.val ∧ j.val < 8 := ⟨rfl, j.isLt⟩
  have high (j : Fin 8) : (j.natAdd 8 : Fin 16).val = 8 + j.val := rfl
  have number := high i
  have two : (2 : Fin 8).val = 2 := rfl
  rw [joined_asks_two]
  constructor
  · rintro ⟨_, requested, enabled, free⟩
    rw [reg_high] at requested
    have unmasked := enabled _ (Or.inl rfl)
    rw [reg_high] at unmasked
    have gate := enabled 2 (Or.inr ⟨rfl, by omega⟩)
    rw [two_low, reg_low] at gate
    have asks : p.slave.asks i = true := by
      refine Chip.asks_iff.mpr ⟨requested, unmasked, fun j below => ?_⟩
      have kept := free (j.natAdd 8) (Or.inl ⟨by simpa using below, Or.inr (Nat.le_add_right _ _)⟩)
      rwa [reg_high] at kept
    refine ⟨asks, ⟨i, asks⟩, gate, fun j below => ?_⟩
    have kept := free (j.castAdd 8) (Or.inr ⟨below, by omega⟩)
    rwa [reg_low] at kept
  · rintro ⟨asks, _, gate, clear⟩
    obtain ⟨requested, unmasked, free⟩ := Chip.asks_iff.mp asks
    refine ⟨fun same => ?_, by rw [reg_high]; exact requested, fun m takes => ?_, fun m keeps => ?_⟩
    · have value : 8 + i.val = 2 := number.symm.trans (congrArg Fin.val same)
      omega
    · rcases takes with rfl | ⟨rfl, _⟩
      · rw [reg_high]
        exact unmasked
      · rw [two_low, reg_low]
        exact gate
    · rw [KeepsOut] at keeps
      rcases line_cases m with ⟨j, rfl⟩ | ⟨j, rfl⟩
      · have lower := low j
        rw [reg_low]
        exact clear j (Fin.le_def.mpr (by omega))
      · have upper := high j
        rw [reg_high]
        exact free j (Fin.le_def.mpr (by omega))

/-- The place of an interrupt in the order of the two chips: 0 and 1, the eight
of the second chip, 3 to 7. -/
def rank (n : Fin 16) : Nat := if n.val < 3 then n.val else if n.val < 8 then n.val + 8 else n.val - 6

/-- The two chips are one controller for 15 interrupts: of those that are
deliverable they take the first in their order. -/
theorem next_iff {n : Fin 16} :
    p.next = some n ↔ p.Deliverable n ∧ ∀ m, p.Deliverable m → rank n ≤ rank m := by
  have low (j : Fin 8) : (j.castAdd 8 : Fin 16).val = j.val ∧ j.val < 8 := ⟨rfl, j.isLt⟩
  have high (j : Fin 8) : (j.natAdd 8 : Fin 16).val = 8 + j.val ∧ j.val < 8 := ⟨rfl, j.isLt⟩
  have two : (2 : Fin 8).val = 2 := rfl
  have notTwo (j : Fin 8) (device : (j.castAdd 8 : Fin 16) ≠ 2) : j ≠ 2 ∧ j.val ≠ 2 := by
    have other : j ≠ 2 := fun same => device (by rw [same]; rfl)
    exact ⟨other, fun value => other (Fin.ext value)⟩
  have first {n : Fin 16} (taken : p.next = some n) :
      p.Deliverable n ∧ ∀ m, p.Deliverable m → rank n ≤ rank m := by
    rcases next_cases taken with ⟨i, rfl, other, wins⟩ | ⟨i, rfl, wins, second⟩
    · have number := low i
      have different : i.val ≠ 2 := fun value => other (Fin.ext value)
      refine ⟨(deliverable_low other).mpr (Chip.asks_of_winner wins), fun m fine => ?_⟩
      rcases line_cases m with ⟨j, rfl⟩ | ⟨j, rfl⟩
      · have lower := low j
        have device := notTwo j fine.device
        have order := Fin.le_def.mp (Chip.winner_le wins ((deliverable_low device.1).mp fine))
        unfold rank
        split_ifs <;> omega
      · have upper := high j
        have order := Fin.le_def.mp (Chip.winner_le wins (deliverable_high.mp fine).2)
        unfold rank
        split_ifs <;> omega
    · have number := high i
      refine ⟨deliverable_high.mpr ⟨Chip.asks_of_winner second, Chip.asks_of_winner wins⟩, fun m fine => ?_⟩
      rcases line_cases m with ⟨j, rfl⟩ | ⟨j, rfl⟩
      · have lower := low j
        have device := notTwo j fine.device
        have order := Fin.le_def.mp (Chip.winner_le wins ((deliverable_low device.1).mp fine))
        unfold rank
        split_ifs <;> omega
      · have upper := high j
        have order := Fin.le_def.mp (Chip.winner_le second (deliverable_high.mp fine).1)
        unfold rank
        split_ifs <;> omega
  refine ⟨first, fun ⟨fine, least⟩ => ?_⟩
  cases taken : p.next with
  | none =>
    have quiet := next_none taken
    rcases line_cases n with ⟨i, rfl⟩ | ⟨i, rfl⟩
    · have asks := (deliverable_low (notTwo i fine.device).1).mp fine
      rw [Chip.winner_none quiet i] at asks
      cases asks
    · have asks := (deliverable_high.mp fine).2
      rw [Chip.winner_none quiet 2] at asks
      cases asks
  | some m =>
    obtain ⟨fine', least'⟩ := first taken
    have same := Nat.le_antisymm (least' n fine) (least m fine')
    congr 1
    refine Fin.ext ?_
    have device : n.val ≠ 2 := fun value => fine.device (Fin.ext value)
    have device' : m.val ≠ 2 := fun value => fine'.device (Fin.ext value)
    unfold rank at same
    split_ifs at same <;> omega

theorem next_eq_none_iff : p.next = none ↔ ∀ n, ¬ p.Deliverable n := by
  constructor
  · intro quiet n fine
    have silent := next_none quiet
    rcases line_cases n with ⟨i, rfl⟩ | ⟨i, rfl⟩
    · have other : i ≠ 2 := fun same => fine.device (by rw [same]; rfl)
      have asks := (deliverable_low other).mp fine
      rw [Chip.winner_none silent i] at asks
      cases asks
    · have asks := (deliverable_high.mp fine).2
      rw [Chip.winner_none silent 2] at asks
      cases asks
  · intro none
    cases taken : p.next with
    | none => rfl
    | some n => exact absurd (next_iff.mp taken).1 (none n)

/-- Where a register of both chips changes in one place. -/
theorem reg_update {f : Chip → Fin 8 → Bool} {q : Pair} {n : Fin 16} {b : Bool}
    (low : ∀ i, n = i.castAdd 8 → f q.master = Function.update (f p.master) i b ∧ f q.slave = f p.slave)
    (high : ∀ i, n = i.natAdd 8 → f q.master = f p.master ∧ f q.slave = Function.update (f p.slave) i b) :
    q.reg f = Function.update (p.reg f) n b := by
  funext m
  rcases line_cases n with ⟨i, rfl⟩ | ⟨i, rfl⟩
  · obtain ⟨first, second⟩ := low i rfl
    rcases line_cases m with ⟨j, rfl⟩ | ⟨j, rfl⟩
    · by_cases same : j = i
      · rw [same, reg_low, first, Function.update_self, Function.update_self]
      · have other : j.castAdd 8 ≠ i.castAdd 8 := fun h => same (Fin.castAdd_injective 8 8 h)
        rw [Function.update_of_ne other, reg_low, reg_low, first, Function.update_of_ne same]
    · have other : j.natAdd 8 ≠ i.castAdd 8 := by
        intro h
        have values := congrArg Fin.val h
        simp only [Fin.val_natAdd, Fin.val_castAdd] at values
        omega
      rw [Function.update_of_ne other, reg_high, reg_high, second]
  · obtain ⟨first, second⟩ := high i rfl
    rcases line_cases m with ⟨j, rfl⟩ | ⟨j, rfl⟩
    · have other : j.castAdd 8 ≠ i.natAdd 8 := by
        intro h
        have values := congrArg Fin.val h
        simp only [Fin.val_natAdd, Fin.val_castAdd] at values
        omega
      rw [Function.update_of_ne other, reg_low, reg_low, first]
    · by_cases same : j = i
      · rw [same, reg_high, second, Function.update_self, Function.update_self]
      · have other : j.natAdd 8 ≠ i.natAdd 8 := fun h => same (Fin.natAdd_injective 8 8 h)
        rw [Function.update_of_ne other, reg_high, reg_high, second, Function.update_of_ne same]

theorem ofNat_low (i : Fin 8) : (i.castAdd 8 : Fin 16).val < 8 ∧ Fin.ofNat 8 (i.castAdd 8 : Fin 16) = i :=
  ⟨i.isLt, Fin.ext (Nat.mod_eq_of_lt i.isLt)⟩

theorem ofNat_high (i : Fin 8) : ¬ (i.natAdd 8 : Fin 16).val < 8 ∧ Fin.ofNat 8 (i.natAdd 8 : Fin 16) = i := by
  refine ⟨by simp, Fin.ext ?_⟩
  simp only [Fin.val_ofNat, Fin.val_natAdd]
  omega

section Effects

variable {n : Fin 16} {low high : BitVec 8}

theorem raise_low (i : Fin 8) : p.raise (i.castAdd 8) = ⟨p.master.raise i, p.slave⟩ := by
  obtain ⟨inside, number⟩ := ofNat_low i
  rw [raise, if_pos inside, number]

theorem raise_high (i : Fin 8) : p.raise (i.natAdd 8) = ⟨p.master, p.slave.raise i⟩ := by
  obtain ⟨outside, number⟩ := ofNat_high i
  rw [raise, if_neg outside, number]

theorem serve_low (i : Fin 8) : p.serve (i.castAdd 8) = ⟨p.master.serve i, p.slave⟩ := by
  obtain ⟨inside, number⟩ := ofNat_low i
  rw [serve, if_pos inside, number]

theorem serve_high (i : Fin 8) : p.serve (i.natAdd 8) = ⟨p.master.serve 2, p.slave.serve i⟩ := by
  obtain ⟨outside, number⟩ := ofNat_high i
  rw [serve, if_neg outside, number]

theorem finish_low (i : Fin 8) : p.finish (i.castAdd 8) = ⟨p.master.finish i, p.slave⟩ := by
  obtain ⟨inside, number⟩ := ofNat_low i
  rw [finish, if_pos inside, number]

theorem finish_high (i : Fin 8) : p.finish (i.natAdd 8) = ⟨p.master.finish 2, p.slave.finish i⟩ := by
  obtain ⟨outside, number⟩ := ofNat_high i
  rw [finish, if_neg outside, number]

/-- Where a register of both chips changes in the lines of one interrupt. -/
theorem reg_takes {f : Chip → Fin 8 → Bool} {q : Pair} {b : Bool}
    (low : ∀ i, n = i.castAdd 8 → f q.master = Function.update (f p.master) i b ∧ f q.slave = f p.slave)
    (high : ∀ i, n = i.natAdd 8 →
      f q.master = Function.update (f p.master) 2 b ∧ f q.slave = Function.update (f p.slave) i b) (m : Fin 16) :
    q.reg f m = if Takes n m then b else p.reg f m := by
  rcases line_cases n with ⟨i, rfl⟩ | ⟨i, rfl⟩
  · have one : q.reg f = Function.update (p.reg f) (i.castAdd 8) b := by
      refine reg_update (fun j same => ?_) fun j same => ?_
      · exact low j same
      · have values := congrArg Fin.val same
        simp only [Fin.val_natAdd, Fin.val_castAdd] at values
        omega
    have only : Takes (i.castAdd 8) m ↔ m = i.castAdd 8 :=
      or_iff_left fun both => absurd both.2 (Nat.not_le.mpr i.isLt)
    rw [one]
    simp only [Function.update_apply, only]
  · obtain ⟨first, second⟩ := high i rfl
    have one : (⟨q.master, p.slave⟩ : Pair).reg f = Function.update (p.reg f) ((2 : Fin 8).castAdd 8) b := by
      refine reg_update (fun j same => ?_) fun j same => ?_
      · rw [← Fin.castAdd_injective 8 8 same]
        exact ⟨first, rfl⟩
      · have values := congrArg Fin.val same
        simp only [Fin.val_natAdd, Fin.val_castAdd] at values
        have two : (2 : Fin 8).val = 2 := rfl
        omega
    have both : q.reg f = Function.update ((⟨q.master, p.slave⟩ : Pair).reg f) (i.natAdd 8) b := by
      refine reg_update (fun j same => ?_) fun j same => ?_
      · have values := congrArg Fin.val same
        simp only [Fin.val_natAdd, Fin.val_castAdd] at values
        omega
      · rw [← Fin.natAdd_injective 8 8 same]
        exact ⟨rfl, second⟩
    have above : 8 ≤ (i.natAdd 8 : Fin 16).val := Nat.le_add_right 8 _
    rw [both, one]
    simp only [Function.update_apply, Takes, above, and_true]
    split <;> rename_i here
    · simp [here]
    · simp only [here, false_or]
      rfl

theorem raise_reg : (p.raise n).reg Chip.irr = Function.update (p.reg Chip.irr) n true ∧
    (p.raise n).reg Chip.isr = p.reg Chip.isr ∧ (p.raise n).reg Chip.imr = p.reg Chip.imr := by
  refine ⟨reg_update (fun i same => ?_) fun i same => ?_, ?_⟩
  · rw [same, raise_low]
    exact ⟨rfl, rfl⟩
  · rw [same, raise_high]
    exact ⟨rfl, rfl⟩
  · unfold raise
    split
    · exact ⟨funext fun m => by unfold reg; split <;> rfl, funext fun m => by unfold reg; split <;> rfl⟩
    · exact ⟨funext fun m => by unfold reg; split <;> rfl, funext fun m => by unfold reg; split <;> rfl⟩

theorem finish_reg : (∀ m, (p.finish n).reg Chip.isr m = if Takes n m then false else p.reg Chip.isr m) ∧
    (p.finish n).reg Chip.irr = p.reg Chip.irr ∧ (p.finish n).reg Chip.imr = p.reg Chip.imr := by
  refine ⟨reg_takes (fun i same => ?_) fun i same => ?_, ?_⟩
  · rw [same, finish_low]
    exact ⟨rfl, rfl⟩
  · rw [same, finish_high]
    exact ⟨rfl, rfl⟩
  · unfold finish
    split
    · exact ⟨funext fun m => by unfold reg; split <;> rfl, funext fun m => by unfold reg; split <;> rfl⟩
    · exact ⟨funext fun m => by unfold reg; split <;> rfl, funext fun m => by unfold reg; split <;> rfl⟩

theorem serve_reg (wired : p.Wired low high) :
    (∀ m, (p.serve n).reg Chip.isr m = if Takes n m then true else p.reg Chip.isr m) ∧
      (∀ m, (p.serve n).reg Chip.irr m = if Takes n m then false else p.reg Chip.irr m) ∧
      (p.serve n).reg Chip.imr = p.reg Chip.imr := by
  obtain ⟨first, second⟩ := wired.manual
  refine ⟨reg_takes (fun i same => ?_) fun i same => ?_, reg_takes (fun i same => ?_) fun i same => ?_, ?_⟩
  · rw [same, serve_low]
    simp [Chip.serve, first]
  · rw [same, serve_high]
    simp [Chip.serve, first, second]
  · rw [same, serve_low]
    exact ⟨rfl, rfl⟩
  · rw [same, serve_high]
    exact ⟨rfl, rfl⟩
  · unfold serve
    split
    · exact funext fun m => by unfold reg; split <;> rfl
    · exact funext fun m => by unfold reg; split <;> rfl

theorem Wired.raise (wired : p.Wired low high) : (p.raise n).Wired low high := by
  obtain ⟨⟩ := wired
  unfold Pair.raise
  split
  · constructor <;> assumption
  · constructor <;> assumption

theorem Wired.serve (wired : p.Wired low high) : (p.serve n).Wired low high := by
  obtain ⟨⟩ := wired
  unfold Pair.serve
  split
  · constructor <;> assumption
  · constructor <;> assumption

theorem Wired.finish (wired : p.Wired low high) : (p.finish n).Wired low high := by
  obtain ⟨⟩ := wired
  unfold Pair.finish
  split
  · constructor <;> assumption
  · constructor <;> assumption

/-- The vector of interrupt `n`. -/
def vector (low high : BitVec 8) (n : Fin 16) : BitVec 8 :=
  if n.val < 8 then low + BitVec.ofNat 8 n else high + BitVec.ofNat 8 (n - 8)

/-- An acknowledgement takes the next interrupt, if there is one. -/
theorem Wired.acknowledge (wired : p.Wired low high) :
    (p.next = none ∧ p.acknowledge = (low + 7, p)) ∨
      ∃ n, p.next = some n ∧ p.acknowledge = (vector low high n, p.serve n) := by
  obtain ⟨first, second⟩ := wired.cascade
  cases taken : p.next with
  | none =>
    refine Or.inl ⟨rfl, ?_⟩
    rw [Pair.acknowledge, next_none taken, ← wired.base.1]
  | some n =>
    refine Or.inr ⟨n, rfl, ?_⟩
    unfold Pair.acknowledge
    rcases next_cases taken with ⟨i, rfl, other, wins⟩ | ⟨i, rfl, wins, chosen⟩
    · have direct : ¬ (4 : BitVec 8).getLsbD i = true := by
        have single : ∀ i : Fin 8, i ≠ 2 → ¬ (4 : BitVec 8).getLsbD i = true := by decide
        exact single i other
      have inside : (i.castAdd 8 : Fin 16).val < 8 := i.isLt
      rw [wins, serve_low, vector, if_pos inside, ← wired.base.1]
      simp only [first, direct]
      rfl
    · have marked : (4 : BitVec 8).getLsbD (2 : Fin 8) = true := by decide
      have named : (2 : BitVec 8) = BitVec.ofNat 8 (2 : Fin 8) := rfl
      have outside : ¬ (i.natAdd 8 : Fin 16).val < 8 := by simp
      have number : (i.natAdd 8 : Fin 16).val - 8 = i.val := by simp
      rw [wins, serve_high, vector, if_neg outside, number, ← wired.base.2]
      simp only [first, second, marked, ← named, chosen, if_true]

end Effects

end Pair

end Pics
