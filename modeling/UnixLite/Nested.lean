import Mathlib.Data.List.Infix
import UnixLite.I8259
import UnixLite.Idt
import UnixLite.Library.Nesting

namespace UnixLite

open Pics Nesting Transition

/-- What devices do at the controllers, and the three calls of `enable_irq`
behind `i8259_init`. -/
inductive PicInput
  | raise (irq : Fin 16)
  | pitInit
  | keyboardInit
  | rtcInit
  deriving DecidableEq

def PicInput.act : PicInput → PicAct
  | raise irq => .raise irq
  | pitInit => .enableIrq 0
  | keyboardInit => .enableIrq 1
  | rtcInit => .enableIrq 8

namespace I8259

variable {s s' : I8259} {a : PicAct}

/-- The registers as a ledger. -/
def ledger (s : I8259) : Ledger := ⟨fun n => !s.maskBit n, s.pics.reg Chip.irr, s.pics.reg Chip.isr⟩

theorem Ready.kept (ready : s.Ready) : Kept s.ledger s :=
  ⟨ready, fun _ => (Bool.not_not _).symm, fun _ => rfl, fun _ => rfl⟩

def device (s : I8259) : PicInput → I8259
  | .raise irq => { s with pics := s.pics.raise irq }
  | .pitInit => s.enableIrq 0
  | .keyboardInit => s.enableIrq 1
  | .rtcInit => s.enableIrq 8

theorem device_step (s : I8259) (d : PicInput) : PicStep s d.act (s.device d) := by
  cases d <;> rfl

/-- The lines in service; line 2 has no device of its own. -/
def inService (s : I8259) (n : Fin 16) : Bool := if n = 2 then false else s.pics.reg Chip.isr n

/-- Taking or ending an interrupt sets its own line, next to line 2. -/
theorem takes_line {n : Fin 16} {b : Bool} {f : Fin 16 → Bool} (device : n = 2 → b = false) (m : Fin 16) :
    (if m = 2 then false else if Pair.Takes n m then b else f m) =
      Function.update (fun m => if m = 2 then false else f m) n b m := by
  rw [Function.update_apply]
  by_cases two : m = 2
  · subst two
    by_cases same : n = 2
    · simp [same, device same]
    · rw [if_pos rfl, if_neg fun h : 2 = n => same h.symm, if_pos rfl]
  · have only : Pair.Takes n m ↔ m = n := or_iff_left fun both => two both.1
    simp only [only, two, if_false]

/-- No line but these is let through. -/
def FewLines (s : I8259) : Prop := ∀ n, s.maskBit n = false → n = 0 ∨ n = 1 ∨ n = 2 ∨ n = 8

theorem FewLines.step (few : s.FewLines) (ready : s.Ready) (move : PicStep s a s')
    (calls : ∀ irqNum, a = .enableIrq irqNum → irqNum = 0 ∨ irqNum = 1 ∨ irqNum = 8) : s'.FewLines := by
  intro n through
  have mask := (ready.kept.step move).enabled n
  rw [through] at mask
  cases a with
  | enableIrq irqNum =>
    simp only [Ledger.record] at mask
    split at mask
    · rename_i named
      have number : irqNum.toNat = n.val := named
      rcases calls irqNum rfl with rfl | rfl | rfl
      · exact Or.inl (Fin.ext number.symm)
      · exact Or.inr (Or.inl (Fin.ext number.symm))
      · exact Or.inr (Or.inr (Or.inr (Fin.ext number.symm)))
    · exact few n (by simpa [ledger] using mask.symm)
  | disableIrq irqNum =>
    simp only [Ledger.record] at mask
    split at mask
    · cases mask
    · exact few n (by simpa [ledger] using mask.symm)
  | acknowledge irq vector =>
    refine few n ?_
    cases irq <;> simpa [Ledger.record, ledger] using mask.symm
  | raise | sendEoi => exact few n (by simpa [Ledger.record, ledger] using mask.symm)

theorem FewLines.next (few : s.FewLines) (ready : s.Ready) {n : Fin 16} (taken : s.pics.next = some n) :
    n = 0 ∨ n = 1 ∨ n = 8 := by
  obtain ⟨fine, _⟩ := Pair.next_iff.mp taken
  have through := fine.enabled n (Or.inl rfl)
  rw [ready.mirrored n] at through
  rcases few n through with zero | one | two | eight
  · exact Or.inl zero
  · exact Or.inr (Or.inl one)
  · exact absurd two fine.device
  · exact Or.inr (Or.inr eight)

end I8259

/-- The controllers, set up, as the processor and the handlers use them. -/
def controller : Controller {s : I8259 // s.Ready} PicInput (Fin 16) where
  next s := s.val.pics.next
  take s := ⟨{ s.val with pics := s.val.pics.acknowledge.2 }, (s.property.kept.step (PicStep.taken s.val)).ready⟩
  finish s n := ⟨s.val.sendEoi (BitVec.ofNat 32 n), (s.property.kept.step (a := .sendEoi (BitVec.ofNat 32 n)) rfl).ready⟩
  device s d := ⟨s.val.device d, (s.property.kept.step (s.val.device_step d)).ready⟩
  serving s := s.val.inService
  keepsOut := Pair.KeepsOut
  free s n taken := by
    obtain ⟨fine, _⟩ := Pair.next_iff.mp taken
    have inside := n.isLt
    refine ⟨Or.inl ⟨Nat.le_refl _, by omega⟩, fun m keeps => ?_⟩
    rw [I8259.inService, fine.free m keeps, ite_self]
  takes s n taken := by
    have kept := (s.property.kept.step (PicStep.taken s.val)).serving
    rw [taken] at kept
    funext m
    rw [I8259.inService, kept]
    exact I8259.takes_line (fun two => absurd two (Pair.next_iff.mp taken).1.device) m
  finishes s n := by
    have kept := (s.property.kept.step (a := .sendEoi (BitVec.ofNat 32 n)) rfl).serving
    funext m
    rw [I8259.inService, kept]
    simp only [Ledger.record, Kept.line_ofNat, exists_eq_left]
    exact I8259.takes_line (fun _ => rfl) m
  leaves s d := by
    funext m
    rw [I8259.inService, I8259.inService, (s.property.kept.step (s.val.device_step d)).serving]
    cases d <;> rfl

/-- The vectors behind `i8259_init`. -/
def irqVector (n : Fin 16) : Fin 256 := ⟨0x20 + n.val, by omega⟩

/-- Whether an interrupt enters its handler with interrupts off, by the table
that `initialize_idt` sets up. -/
def clearsFlag (addr : Routine → Word) (idt : Fin 256 → IdtDesc) (n : Fin 16) : Bool :=
  match Gates.arrive (idtTable addr idt) .device (irqVector n) with
  | some (_, g) => !g.trap
  | none => false

/-- All gates of devices are trap gates. -/
theorem clearsFlag_eq (addr : Routine → Word) (idt : Fin 256 → IdtDesc) (n : Fin 16)
    (routine : routineAt (irqVector n).val ≠ none) : clearsFlag addr idt n = false := by
  have high : 32 ≤ (irqVector n).val := Nat.le_add_right 32 _
  have level : ¬ gateLevel (irqVector n) < calledFrom .device := by simp [calledFrom, BitVec.lt_def]
  have here : ¬ Absent (irqVector n) := by
    rintro (fifteen | ⟨_, none⟩)
    · omega
    · exact routine none
  have entered : Gates.enter (idtTable addr idt) .device (irqVector n) = .inl (routineGate addr idt (irqVector n)) := by
    rw [idtTable_enter, if_neg level, if_neg here]
  rw [clearsFlag, Gates.arrive, entered]
  simp [routineGate, high]

/-- `terminal_switch` sets the flag where it shows another terminal. -/
def terminalSwitchOps (shows : Bool) : List (Op (Fin 16)) := .cli :: if shows then [.sti] else []

/-- `pit_handler` with its linkage. While the terminals are set up it enters a
shell, if `sys_execute` finds one, instead of the next process; a stack that was
left is gone back to behind the place where the others are loaded. -/
def pitOps (terminalInit : Nat) (shows starts : Bool) : List (Op (Fin 16)) :=
  .cli :: ((if terminalInit < 3 then
      terminalSwitchOps shows ++ .eoi 0 :: .cli :: if starts then [.switch] else []
    else (if terminalInit = 3 then terminalSwitchOps shows else []) ++ [.eoi 0, .switch]) ++ [.sti, .popfl])

/-- `keyboard_handler`: with Alt held and no other key of its own it ends its
interrupt twice. `alt` tells whether a function key goes with it, and whether
that shows another terminal. -/
def keyboardOps (alt : Option (Option Bool)) : List (Op (Fin 16)) :=
  .cli :: ((match alt with
    | none => []
    | some none => [.eoi 1]
    | some (some shows) => .eoi 1 :: terminalSwitchOps shows) ++ [.eoi 1, .sti])

def rtcOps : List (Op (Fin 16)) := [.cli, .eoi 8, .sti]

/-- The ways through the handlers. -/
def handlers (n : Fin 16) : List (List (Op (Fin 16))) :=
  if n = 0 then
    [1, 2, 3, 4].flatMap fun terminalInit =>
      [false, true].flatMap fun shows => [false, true].map (pitOps terminalInit shows)
  else if n = 1 then [none, some none, some (some false), some (some true)].map keyboardOps
  else if n = 8 then [rtcOps]
  else []

/-- Behind the first values of `terminal_init` there is no other way. -/
theorem pitOps_mem (terminalInit : Nat) (positive : 1 ≤ terminalInit) (shows starts : Bool) :
    pitOps terminalInit shows starts ∈ handlers 0 := by
  have early : ∀ first ∈ [1, 2, 3, 4], ∀ shows starts, pitOps first shows starts ∈ handlers 0 := by decide
  by_cases listed : terminalInit ∈ [1, 2, 3, 4]
  · exact early terminalInit listed shows starts
  · simp only [List.mem_cons, List.not_mem_nil, or_false, not_or] at listed
    have notInit : ¬ terminalInit < 3 := by omega
    have notLast : terminalInit ≠ 3 := by omega
    have late : pitOps terminalInit shows starts = pitOps 4 shows starts := by simp [pitOps, notInit, notLast]
    rw [late]
    exact early 4 (by decide) shows starts

/-- A stack for each process; a program runs on the first. -/
abbrev Processor := Machine {s : I8259 // s.Ready} (Fin 16) (Fin 6)

/-- Behind `i8259_init`, with interrupts off. -/
def setUp (p : Pair) : Processor :=
  ⟨⟨I8259.i8259Init ⟨0xFF, 0xFF, p⟩, (I8259.i8259Init_ready p).1⟩, false, 0, fun _ => []⟩

abbrev ProcessorAct := Act PicInput (Fin 16) (Fin 6)

/-- A way through a handler on which the interrupt of the keyboard is not ended twice. -/
def endsOnce (path : List (Op (Fin 16))) : Bool := path.count (.eoi 1) ≤ 1

section Runs

variable {gate : Fin 16 → Bool} {p : Pair} {s s' : Processor} {a : ProcessorAct}
  {history : List (Event Processor ProcessorAct)}

theorem disciplined_pit : Disciplined handlers 0 := by
  constructor
  · decide
  · decide

theorem disciplined_rtc : Disciplined handlers 8 := by
  constructor
  · decide
  · decide

theorem foremost_pit : Foremost controller handlers 0 := by
  have before : ∀ path ∈ handlers 0, ∀ tail ∈ path.tails, tail.head? = some .switch → .eoi 0 ∉ tail := by decide
  refine ⟨fun m => ?_, fun path known left tail => ?_⟩
  · show Pair.KeepsOut 0 m
    revert m
    decide
  · exact List.not_mem_of_not_mem_cons (before path known _ ((List.mem_tails _ _).mpr tail) rfl)

theorem disciplined_keyboard : Disciplined (fun n => (handlers n).filter endsOnce) 1 := by
  constructor
  · decide
  · decide

theorem setUp_idle (p : Pair) {n : Fin 16} : controller.serving (setUp p).pic n = false := by
  have idle := ((I8259.i8259Init_ready p).2.2 n).2
  show (if n = 2 then false else (I8259.i8259Init ⟨0xFF, 0xFF, p⟩).pics.reg Chip.isr n) = false
  rw [idle, ite_self]

/-- Of the lines that can have a handler, none is the second chip's own. -/
theorem accounted_line {n : Fin 16} (other : n ≠ 2) (accounted : Accounted controller n s) :
    total n s = if s.pic.val.pics.reg Chip.isr n then 1 else 0 := by
  rw [accounted]
  show (if (if n = 2 then false else s.pic.val.pics.reg Chip.isr n) = true then 1 else 0) = _
  rw [if_neg other]

theorem fewLines_run (run : Run (fun s a s' => s.perform controller handlers gate a = some s') (setUp p) history s) :
    s.pic.val.FewLines := by
  refine run.invariant (fun s => s.pic.val.FewLines) ?_ fun s a s' few done => ?_
  · intro n through
    have masked : (setUp p).pic.val.maskBit n = decide (n ≠ 2) := (I8259.i8259Init_ready p).2.1 n
    rw [masked, decide_eq_false_iff_not, not_not] at through
    exact Or.inr (Or.inr (Or.inl through))
  · refine perform_pic (P := fun t => t.val.FewLines) (fun t few => ?_) (fun t n few => ?_) (fun t d few => ?_) few done
    · exact few.step t.property (PicStep.taken t.val) (by simp)
    · exact few.step (a := .sendEoi (BitVec.ofNat 32 n)) t.property rfl (by simp)
    · exact few.step t.property (t.val.device_step d) (by cases d <;> simp [PicInput.act])

/-- The three interrupts of the system from `i8259_init` on, with every order
of devices, handlers and processes. All handlers are entered with interrupts on,
so each can be interrupted before its `cli`, and behind `terminal_switch`. Yet
an interrupt is in service exactly as long as one activation on all the stacks
has still to end it, for the keyboard if it is ended once; and until
`pit_handler` has ended its own nothing but it runs. -/
theorem handlers_exclude (addr : Routine → Word) (idt : Fin 256 → IdtDesc) (p : Pair)
    {history : List (Event Processor ProcessorAct)} {s : Processor}
    (run : Run (fun s a s' => s.perform controller handlers (clearsFlag addr idt) a = some s') (setUp p) history s) :
    (∀ path s', s.perform controller handlers (clearsFlag addr idt) (.deliver path) = some s' →
      s'.flag = true ∧ ∃ n, (n = 0 ∨ n = 1 ∨ n = 8) ∧ s.pic.val.pics.next = some n ∧ path ∈ handlers n) ∧
    total 0 s = (if s.pic.val.pics.reg Chip.isr 0 then 1 else 0) ∧
    total 8 s = (if s.pic.val.pics.reg Chip.isr 8 then 1 else 0) ∧
    ((∀ e ∈ history, ∀ path, e.act = .deliver path → endsOnce path = true) →
      total 1 s = if s.pic.val.pics.reg Chip.isr 1 then 1 else 0) ∧
    (total 0 s ≠ 0 → ∀ a s', s.perform controller handlers (clearsFlag addr idt) a = some s' →
      (∃ d, a = .device d) ∨ ∃ target b rest, a = .run target ∧ s.stack s.running = b :: rest ∧ b.awaits 0) := by
  have zero := accounted_run disciplined_pit (fun _ => rfl) (setUp_idle p) run
  have eight := accounted_run disciplined_rtc (fun _ => rfl) (setUp_idle p) run
  have ahead := ahead_run disciplined_pit foremost_pit (fun _ => rfl) (setUp_idle p) run
  refine ⟨fun path s' done => ?_, accounted_line (by decide) zero.2, accounted_line (by decide) eight.2,
    fun once => ?_, fun busy a s' done => ahead.alone foremost_pit zero.2 busy done⟩
  · cases perform_effect done with
    | @deliver n _ on next known =>
      have device := (fewLines_run run).next s.pic.property next
      have routine : routineAt (irqVector n).val ≠ none := by
        rcases device with rfl | rfl | rfl <;> decide
      refine ⟨?_, n, device, next, known⟩
      show (!clearsFlag addr idt n) = true
      rw [clearsFlag_eq addr idt n routine]
      rfl
  · have filtered : Run (fun s a s' => s.perform controller (fun n => (handlers n).filter endsOnce)
        (clearsFlag addr idt) a = some s') (setUp p) history s :=
      run.change fun e member done => perform_filter (once e member) done
    exact accounted_line (by decide) (accounted_run disciplined_keyboard (fun _ => rfl) (setUp_idle p) filtered).2

end Runs

def blankIdt (_ : Fin 256) : IdtDesc := ⟨0, 0, 0, 0, 0, 0, 0, 0, 0, 0, 0⟩

def moveBlank (s : Processor) (a : ProcessorAct) : Option (ProcessorAct × Processor) :=
  (s.perform controller handlers (clearsFlag (fun _ => 0) blankIdt) a).map fun s' => (a, s')

theorem moveBlank_run {inputs : List ProcessorAct} {r : List (Event Processor ProcessorAct) × Processor}
    (done : replay moveBlank inputs ([], setUp blankPair) = some r) :
    Run (fun s a s' => s.perform controller handlers (clearsFlag (fun _ => 0) blankIdt) a = some s') (setUp blankPair)
      r.1 r.2 := by
  refine replay_run (fun s a b s' moved => ?_) .start done
  obtain ⟨t, taken, same⟩ := Option.map_eq_some_iff.mp moved
  cases same
  exact taken

/-- The clock comes before the `cli` of the keyboard's handler. -/
def clockInKeyboard : List ProcessorAct :=
  [.device .pitInit, .device .keyboardInit, .program true 0, .device (.raise 1), .deliver (keyboardOps none),
    .device (.raise 0), .deliver (pitOps 4 false false)]

theorem handlers_exclude_sample : ∃ (history : List (Event Processor ProcessorAct)) (s : Processor),
    history.map Event.act = clockInKeyboard.reverse ∧ total 0 s = 1 ∧ total 1 s = 1 ∧ total 8 s = 0 := by
  have once : ∀ a ∈ clockInKeyboard, ∀ path, a = .deliver path → endsOnce path = true := by
    intro a listed path same
    subst same
    simp only [clockInKeyboard, List.mem_cons, reduceCtorEq, Act.deliver.injEq, false_or, List.not_mem_nil,
      or_false] at listed
    rcases listed with rfl | rfl <;> decide
  have fine : (replay moveBlank clockInKeyboard ([], setUp blankPair)).any (fun r =>
      decide (r.1.map Event.act = clockInKeyboard.reverse ∧
        ∀ n ∈ [0, 1, 8], r.2.pic.val.pics.reg Chip.isr n = decide (n ≠ 8))) = true := by
    decide +kernel
  obtain ⟨⟨history, s⟩, done, facts⟩ := (Option.any_eq_true _ _).mp fine
  obtain ⟨acts, lines⟩ := of_decide_eq_true facts
  obtain ⟨_, clock, time, keyboard, _⟩ := handlers_exclude (fun _ => 0) blankIdt blankPair (moveBlank_run done)
  refine ⟨history, s, acts, ?_, ?_, ?_⟩
  · rw [clock, lines 0 (by decide)]
    rfl
  · rw [keyboard fun e member path delivered => ?_, lines 1 (by decide)]
    · rfl
    · have listed : e.act ∈ history.map Event.act := List.mem_map_of_mem member
      rw [acts, List.mem_reverse] at listed
      exact once _ listed path delivered
  · rw [time, lines 8 (by decide)]
    rfl

/-- Behind the first end of its interrupt the keyboard's handler with Alt can
lose the processor in `terminal_switch`; the second end is then told while
another activation of it waits, and the keyboard is let through once more. -/
def keyboardTwice : List ProcessorAct :=
  [.device .pitInit, .device .keyboardInit, .program true 0, .device (.raise 1),
    .deliver (keyboardOps (some (some true)))] ++ List.replicate 4 (.run 0) ++
  [.device (.raise 0), .deliver (pitOps 1 true true)] ++ List.replicate 6 (.run 1) ++
  [.program true 1, .device (.raise 1), .deliver (keyboardOps none),
    .device (.raise 0), .deliver (pitOps 2 true true)] ++ List.replicate 6 (.run 2) ++
  [.program true 2, .device (.raise 0), .deliver (pitOps 3 true false)] ++ List.replicate 7 (.run 0) ++
  [.leave, .run 0, .run 0, .leave, .device (.raise 1), .deliver (keyboardOps none)]

theorem keyboard_twice : ∃ (history : List (Event Processor ProcessorAct)) (s : Processor),
    Run (fun s a s' => s.perform controller handlers (clearsFlag (fun _ => 0) blankIdt) a = some s') (setUp blankPair)
      history s ∧ total 1 s = 2 := by
  have fine : (replay moveBlank keyboardTwice ([], setUp blankPair)).any (fun r => total 1 r.2 == 2) = true := by
    decide +kernel
  obtain ⟨⟨history, s⟩, done, two⟩ := (Option.any_eq_true _ _).mp fine
  exact ⟨history, s, moveBlank_run done, eq_of_beq two⟩

end UnixLite
