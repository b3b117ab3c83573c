import UnixLite.Idt
import UnixLite.Library.Traps

namespace UnixLite

open I386 Gates

/-- What the stubs call. -/
inductive Service
  | handleException
  | pitHandler
  | keyboardHandler
  | rtcHandler
  deriving DecidableEq

/-- The second argument for `handle_exception`: that of `EXCEPTION`, or the one
that exception.S gives to `EXCEPTION_ERROR_CODE`. It is never what the
processor has pushed. -/
def errCode (id : Fin 20) : Word := if id.val ∈ [8, 10, 11, 12, 13, 14, 17] then 0 else -1

/-- The code up to `iret`; that of `sys_call` is `sysCall`. -/
def stub : Routine → Option (List (Line Service))
  | .exception id =>
    some [.pushal, .pushi (errCode id), .pushi (BitVec.ofNat 32 id.val), .call .handleException, .addl 8, .popal]
  | .pit => some [.pushal, .pushfl, .call .pitHandler, .popfl, .popal]
  | .keyboard => some [.pushal, .pushi 0x21, .call .keyboardHandler, .addl 4, .popal]
  | .rtc => some [.pushal, .pushi 0x28, .call .rtcHandler, .addl 4, .popal]
  | .sysCall => none

/-- What a stub calls, with the arguments. -/
def served : Routine → Option (Service × List Word)
  | .exception id => some (.handleException, [BitVec.ofNat 32 id.val, errCode id])
  | .pit => some (.pitHandler, [])
  | .keyboard => some (.keyboardHandler, [0x21])
  | .rtc => some (.rtcHandler, [0x28])
  | .sysCall => none

/-- How many words a stub pushes for its service. -/
def Service.args : Service → Nat
  | handleException => 2
  | pitHandler => 0
  | keyboardHandler | rtcHandler => 1

section Stubs

variable {callee : Service → Cpu → Cpu} (returnAddress : Word) {p : Cpu} {ws : List Word}
  {r : Routine} {code : List (Line Service)} {top : Word} {mine : Word → Prop} {d : Nat}

/-- A stub calls its service with the arguments, and keeps all registers, the stack and memory that
is apart from it. -/
theorem stub_keeps (apart : ∀ x, mine x → Beyond top x)
    (behaves : ∀ s args, served r = some (s, args) → Behaves top mine s.args 60 (callee s))
    (own : stub r = some code) (depth : p.reg .esp = top - BitVec.ofNat 32 (4 * d)) (deep : d ≤ 6)
    (stacked : Stacked ws p.toMachine) (short : ws.length ≤ 6) :
    Preserved mine ws p (runLines callee returnAddress code (p, [])).1 ∧
      (∀ q, (runLines callee returnAddress code (p, [])).1.reg q = p.reg q) ∧
        ∃ k args found, served r = some (k, args) ∧
          (runLines callee returnAddress code (p, [])).2 = [(k, found)] ∧
            Stacked (returnAddress :: args) found := by
  have length : (pushalWords p.toMachine ++ ws).length ≤ 14 := by
    have eight : (pushalWords p.toMachine).length = 8 := rfl
    rw [List.length_append]
    omega
  have inner (k : Service) (args : List Word) (many : args.length = k.args) (few : args.length ≤ 2)
      (serves : served r = some (k, args)) (shape : code = savedAll (serviceLines args k)) :
      Preserved mine ws p (runLines callee returnAddress code (p, [])).1 ∧
        (∀ q, (runLines callee returnAddress code (p, [])).1.reg q = p.reg q) ∧
          ∃ k args found, served r = some (k, args) ∧
            (runLines callee returnAddress code (p, [])).2 = [(k, found)] ∧
              Stacked (returnAddress :: args) found := by
    have body (q : Cpu) (lower : q.reg .esp = top - BitVec.ofNat 32 (4 * (d + 8)))
        (words : Stacked (pushalWords p.toMachine ++ ws) q.toMachine) :=
      words.service callee returnAddress [] (k := k)
        apart (by rw [many]; exact behaves k args serves) lower (by omega) (by omega) (by rw [List.length_append]; omega)
    obtain ⟨kept, regs, calls⟩ := stacked.savedAll callee returnAddress [] apart depth (by omega)
      (by omega) fun q lower words => (body q lower words).1
    obtain ⟨found, called, onTop⟩ := (body { p with toMachine := p.pushal } (pushAll_depth _ depth)
      (stacked.pushal (by omega))).2
    rw [shape]
    exact ⟨kept, regs, k, args, found, serves, calls.trans called, onTop⟩
  cases r with
  | exception id =>
    cases own
    exact inner .handleException [BitVec.ofNat 32 id.val, errCode id] rfl (Nat.le_refl 2) rfl rfl
  | keyboard =>
    cases own
    exact inner .keyboardHandler [0x21] rfl (by decide) rfl rfl
  | rtc =>
    cases own
    exact inner .rtcHandler [0x28] rfl (by decide) rfl rfl
  | pit =>
    cases own
    have body (q : Cpu) (lower : q.reg .esp = top - BitVec.ofNat 32 (4 * (d + 8)))
        (words : Stacked (pushalWords p.toMachine ++ ws) q.toMachine) :=
      words.flagged callee returnAddress [] (k := .pitHandler)
        apart (behaves .pitHandler [] rfl) lower (by omega) (by omega) (by omega)
    obtain ⟨kept, regs, calls⟩ := stacked.savedAll callee returnAddress [] apart depth (by omega)
      (by omega) fun q lower words => (body q lower words).1
    obtain ⟨found, called, onTop⟩ := (body { p with toMachine := p.pushal } (pushAll_depth _ depth)
      (stacked.pushal (by omega))).2
    exact ⟨kept, regs, .pitHandler, [], found, rfl, calls.trans called, onTop⟩
  | sysCall => cases own

/-- Through a gate into a stub and back. No stub takes the processor's error
code off, so it is where `iret` goes to if there is one. -/
theorem stub_resumes (apart : ∀ x, mine x → Beyond top x)
    (behaves : ∀ s args, served r = some (s, args) → Behaves top mine s.args 60 (callee s))
    (own : stub r = some code) (tss : TaskStack) (g : Gate) (err : Option Word) (back : Word) (p : Cpu)
    (depth : (p.enter tss g err back).reg .esp = top - BitVec.ofNat 32 (4 * d)) (deep : d ≤ 6) :
    (runLines callee returnAddress code (p.enter tss g err back, [])).1.iret.eip = err.getD back ∧
      (err = none → Cpu.Resumed back p
        (runLines callee returnAddress code (p.enter tss g err back, [])).1.iret) ∧
      ∀ x, mine x → (runLines callee returnAddress code (p.enter tss g err back, [])).1.iret.mem x =
        (p.enter tss g err back).mem x := by
  have words : Stacked (err.toList ++ Cpu.iretWords g back p) (p.enter tss g err back).toMachine :=
    Cpu.enter_stacked
  have short : (err.toList ++ Cpu.iretWords g back p).length ≤ 6 := by
    have frame : (Cpu.iretWords g back p).length ≤ 5 := Cpu.iretWords_length
    have one : err.toList.length ≤ 1 := by
      cases err with
      | none => exact Nat.zero_le 1
      | some c => exact Nat.le_refl 1
    rw [List.length_append]
    omega
  obtain ⟨kept, regs, -⟩ := stub_keeps returnAddress apart behaves own depth deep words short
  obtain ⟨eip, resumed⟩ := kept.iret fun r other => (regs r).trans (Cpu.enter_reg other)
  exact ⟨eip, resumed, fun x hers => (congrFun (Cpu.iret_mem _) x).trans (kept.mem x hers)⟩

end Stubs

/-- The devices whose interrupts are let through. -/
inductive Device
  | pit
  | keyboard
  | rtc

def Device.vector : Device → Fin 256
  | pit => ⟨0x20, by decide⟩
  | keyboard => ⟨0x21, by decide⟩
  | rtc => ⟨0x28, by decide⟩

def Device.routine : Device → Routine
  | pit => .pit
  | keyboard => .keyboard
  | rtc => .rtc

/-- An interrupt of a device: through the gate of its vector to the stub there, and back with `iret`. -/
def interrupt (addr : Routine → Word) (idt : Fin 256 → IdtDesc) (callee : Service → Cpu → Cpu)
    (returnAddress : Word) (tss : TaskStack) (d : Device) (p : Cpu) : Option Cpu :=
  (arrive (idtTable addr idt) .device d.vector).bind fun w =>
    ((routineAt w.1).bind stub).map fun code =>
      (runLines callee returnAddress code (p.enter tss w.2 none p.eip, [])).1.iret

/-- What the handlers promise on the kernel stack: they keep to the convention, and they leave the
memory of the program alone, of which nothing is on that stack. `handle_exception`, which ends the
program, promises nothing. -/
structure Handlers (tss : TaskStack) (mine : Word → Prop) (callee : Service → Cpu → Cpu) : Prop where
  behaves : ∀ s, s ≠ .handleException → Behaves tss.esp0 mine s.args 60 (callee s)
  apart : ∀ x, mine x → Beyond tss.esp0 x

section Devices

variable (addr : Routine → Word) (idt : Fin 256 → IdtDesc) {callee : Service → Cpu → Cpu}
  {tss : TaskStack} {mine : Word → Prop}

theorem device_arrives (d : Device) :
    arrive (idtTable addr idt) .device d.vector = some (d.vector, routineGate addr idt d.vector) ∧
      routineAt d.vector = some d.routine := by
  have open_ : ¬ gateLevel d.vector < calledFrom .device ∧ ¬ Absent d.vector := by cases d <;> decide
  refine ⟨?_, by cases d <;> rfl⟩
  rw [arrive, idtTable_enter, if_neg open_.1, if_neg open_.2]

/-- One interrupt. -/
theorem interrupt_unseen (handlers : Handlers tss mine callee) (returnAddress : Word) (d : Device) (p : Cpu)
    (outer : level 0x10 < level p.cs) :
    ∃ q, interrupt addr idt callee returnAddress tss d p = some q ∧ SameView mine p q := by
  obtain ⟨way, routine⟩ := device_arrives addr idt d
  obtain ⟨code, own⟩ : ∃ code, stub d.routine = some code := by cases d <;> exact ⟨_, rfl⟩
  have runs : interrupt addr idt callee returnAddress tss d p =
      some (runLines callee returnAddress code
        (p.enter tss (routineGate addr idt d.vector) none p.eip, [])).1.iret := by
    simp only [interrupt, way, Option.bind_some, routine, own, Option.map_some]
  have outside : level (routineGate addr idt d.vector).selector < level p.cs := outer
  have depth : (p.enter tss (routineGate addr idt d.vector) none p.eip).reg .esp = tss.esp0 - BitVec.ofNat 32 (4 * 5) :=
    Cpu.enter_depth outside
  have behaves (s : Service) (args : List Word) (serves : served d.routine = some (s, args)) :
      Behaves tss.esp0 mine s.args 60 (callee s) := by
    refine handlers.behaves s fun ends => ?_
    subst ends
    cases d with
    | pit | keyboard | rtc => cases serves
  obtain ⟨-, resumed, mem⟩ :=
    stub_resumes returnAddress handlers.apart behaves own tss _ none p.eip p depth (by decide)
  obtain ⟨eip, regs, cs, ss, eflags⟩ := resumed rfl
  refine ⟨_, runs, regs, eip, cs, ss, eflags, fun x hers => ?_⟩
  exact (mem x hers).trans (Cpu.enter_mem outside (handlers.apart x hers))

/-- Whenever the devices interrupt a program, it does the same steps on the same
memory as without them, if the handlers keep to the calling convention. Of the
segments that is cs and ss; ds and es are no part of a `Cpu` here. -/
theorem interrupts_unseen {step : Cpu → Cpu} (handlers : Handlers tss mine callee)
    (program : Unprivileged mine step) (returnAddress : Word) (events : List (Option Device)) (p : Cpu)
    (outer : level 0x10 < level p.cs) :
    ∃ q, interrupted step (interrupt addr idt callee returnAddress tss) events p = some q ∧
      SameView mine (step^[events.countP Option.isNone] p) q := by
  have each (d : Device) (q : Cpu) (segment : q.cs = p.cs) :
      ∃ q', interrupt addr idt callee returnAddress tss d q = some q' ∧ SameView mine q q' := by
    rw [← segment] at outer
    exact interrupt_unseen addr idt handlers returnAddress d q outer
  exact program.interrupted each events (SameView.refl mine p) rfl

end Devices

/-- A handler that puts a letter on the screen and returns. -/
def sampleHandler (_ : Service) (p : Cpu) : Cpu :=
  { p with toMachine := { (p.set .eax 0).set .esp (p.reg .esp + 4) with mem := Function.update p.mem 0xB8000 0x4B } }

/-- A program that counts in its memory. -/
def sampleStep (p : Cpu) : Cpu :=
  { p with toMachine := { p.toMachine with mem := Function.update p.mem 0x8048000 (p.mem 0x8048000 + 1) }
           eip := p.eip + 3 }

def sampleTask : TaskStack := ⟨0x800000, 0x18⟩

/-- The page of a program. -/
def samplePage (x : Word) : Prop := 0x8000000 ≤ x.toNat ∧ x.toNat < 0x8400000

theorem sampleHandler_handlers : Handlers sampleTask samplePage sampleHandler where
  behaves s _ p d depth deep :=
    { returns := Machine.set_self (p.set .eax 0) .esp (p.reg .esp + 4)
      frame := fun i inside => by
        have few : s.args ≤ 2 := by cases s <;> decide
        refine Function.update_of_ne ?_ ..
        rw [depth, sampleTask]
        dsimp only
        bv_omega
      cs := rfl
      ss := rfl
      mem := fun x mine => by
        refine Function.update_of_ne ?_ ..
        intro same
        subst same
        exact absurd mine.1 (by decide) }
  apart x mine := by
    obtain ⟨low, high⟩ := mine
    unfold Beyond sampleTask
    dsimp only
    bv_omega

theorem sampleStep_unprivileged : Unprivileged samplePage sampleStep where
  sees p q same :=
    { reg := same.reg
      eip := congrArg (· + 3) same.eip
      cs := same.cs
      ss := same.ss
      eflags := same.eflags
      mem := fun x mine => by
        simp only [sampleStep, Function.update_apply]
        rw [same.mem x mine, same.mem 0x8048000 (by unfold samplePage; decide)] }
  cs _ := rfl

/-- A program at level 3, before its first step. -/
def sampleProgram : Cpu :=
  { reg := fun _ => 0
    mem := fun _ => 0
    zero := false
    sign := false
    overflow := false
    eip := 0x8048100
    flags := 0x202
    cs := 0x23
    ss := 0x2B }

theorem interrupts_unseen_sample :
    ∃ q, interrupted sampleStep (interrupt (fun _ => 0x400000) (fun _ => ⟨0, 0, 0, 0, 0, 0, 0, 0, 0, 0, 0⟩)
        sampleHandler 0x400010 sampleTask)
        [none, some .pit, some .keyboard, none, some .rtc] sampleProgram = some q ∧
      q.mem 0x8048000 = 2 ∧ q.eip = 0x8048106 ∧ q.reg .eax = 0 := by
  obtain ⟨q, runs, view⟩ := interrupts_unseen (fun _ => 0x400000) (fun _ => ⟨0, 0, 0, 0, 0, 0, 0, 0, 0, 0, 0⟩)
    sampleHandler_handlers sampleStep_unprivileged 0x400010
    [none, some .pit, some .keyboard, none, some .rtc] sampleProgram (by decide)
  refine ⟨q, runs, (view.mem _ (by unfold samplePage; decide)).trans ?_, view.eip, view.reg .eax⟩
  decide

end UnixLite
