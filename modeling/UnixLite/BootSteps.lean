import UnixLite.Startup

namespace UnixLite

open Transition

/-- What is left of the switch to the next terminal in `pit_handler`: the
number of that terminal is read and stored, then the rest is put in place
after it, up to the loading of the saved pointers. -/
inductive Switching
  | reading | storing (t : Fin 3) | curPid | prevPid | program | video | stack | context
  deriving DecidableEq

/-- Where the processor is: behind the `sti` of `entry`, behind its call of
`sys_execute` with interrupts off, in a program, or in `pit_handler` behind its
`send_eoi`. There interrupts are on if `terminal_switch` has put them on, and a
set-up that starts nothing goes back to what the tick has come upon. -/
inductive Thread
  | entry | spinning | process
  | launching (on : Bool) (under : Thread)
  | switching (on : Bool) (next : Switching)
  deriving DecidableEq

namespace Thread

def enabled : Thread → Bool
  | entry | process => true
  | spinning => false
  | launching on _ | switching on _ => on

def inTick : Thread → Bool
  | launching _ _ | switching _ _ => true
  | entry | spinning | process => false

end Thread

/-- The kernel while it boots, with what the saved pointers in each PCB lead
back to. They are kept as that place, though the frames of a tick may be
overwritten before anything gets back to them. -/
structure Boot where
  kernel : Kernel
  thread : Thread
  saved : Int → Thread

/-- The call of `sys_execute` in `entry`; a tick up to its `send_eoi`; the
call of `sys_execute` in a tick; another statement of the switch; and
everything else that can happen. -/
inductive BootAct
  | start (regs : Regs)
  | tick (regs : Regs)
  | launch (regs : Regs)
  | go
  | act (a : Act)

namespace Boot

/-- The process that the next tick takes for the running one. -/
def active (s : Boot) : Int := (s.kernel.terminals s.kernel.ta).activePid

def tick (s : Boot) (regs : Regs) : Boot :=
  let k := s.kernel.saveContext regs
  let saved := Function.update s.saved s.active s.thread
  if inSetup : k.terminalInit < 3 then
    ⟨k.launchTerminal ⟨k.terminalInit, inSetup⟩,
      .launching ((k.terminalSwitch (k.terminalInit + 1)).2 == 0) s.thread, saved⟩
  else ⟨k.finishInit, .switching (k.terminalInit == 3 && (k.terminalSwitch 1).2 == 0) .reading, saved⟩

def go (s : Boot) (on : Bool) : Switching → Boot
  | .reading => { s with thread := .switching on (.storing (s.kernel.ta + 1)) }
  | .storing t => ⟨{ s.kernel with ta := t }, .switching on .curPid, s.saved⟩
  | .curPid => ⟨{ s.kernel with curPid := s.active }, .switching on .prevPid, s.saved⟩
  | .prevPid => ⟨{ s.kernel with prevPid := (s.kernel.pcb s.active).parentPid }, .switching on .program, s.saved⟩
  | .program => ⟨s.kernel.mapProgram s.active, .switching on .video, s.saved⟩
  | .video => ⟨s.kernel.mapVideo, .switching on .stack, s.saved⟩
  | .stack => ⟨{ s.kernel with tssEsp0 := kernelStack s.active }, .switching on .context, s.saved⟩
  | .context => { s with thread := s.saved s.active }

/-- A program is entered with its stack empty, or `under` goes on. -/
def replied (s : Boot) (under : Thread) (k : Kernel) : Reply → Boot
  | .entered _ => ⟨k, .process, Function.update s.saved k.curPid .process⟩
  | .value _ _ | .resumed _ _ | .loaded _ _ => ⟨k, under, s.saved⟩

/-- The running program can do anything but a tick, and between its steps and
wherever else interrupts are on there are those of the keyboard. -/
def able (s : Boot) (a : Act) : Bool :=
  !a.isTick && (s.thread == .process || (s.thread.enabled && a.isInterrupt))

def perform (fs : FsImage) (s : Boot) : BootAct → Option (Boot × Option Reply)
  | .start regs =>
    if s.thread = .entry then
      (s.kernel.sysExecute fs shell regs).outcome.map fun r => (s.replied .spinning r.1 r.2, some r.2)
    else none
  | .tick regs => if s.thread.enabled then some (s.tick regs, none) else none
  | .launch regs =>
    match s.thread with
    | .launching _ under =>
      (s.kernel.sysExecute fs shell regs).outcome.map fun r => (s.replied under r.1 r.2, some r.2)
    | .entry | .spinning | .process | .switching _ _ => none
  | .go =>
    match s.thread with
    | .switching on next => some (s.go on next, none)
    | .entry | .spinning | .process | .launching _ _ => none
  | .act a =>
    if s.able a then
      (UnixLite.perform fs s.kernel a).map fun r => (s.replied s.thread r.1 r.2, some r.2)
    else none

/-- The state in which the `sys_execute` of an act faults, if it does. -/
def faultOf (fs : FsImage) (s : Boot) : BootAct → Option Kernel
  | .start regs => if s.thread = .entry then (s.kernel.sysExecute fs shell regs).fault else none
  | .launch regs =>
    match s.thread with
    | .launching _ _ => (s.kernel.sysExecute fs shell regs).fault
    | .entry | .spinning | .process | .switching _ _ => none
  | .act a => if s.able a then UnixLite.faultOf fs s.kernel a else none
  | .tick _ | .go => none

/-- An image that is too long for its page is executed in the act. -/
def Overlong (fs : FsImage) (s : Boot) : BootAct → Prop
  | .start _ | .launch _ => s.kernel.Overruns fs shell
  | .act a => UnixLite.Overlong fs s.kernel a
  | .tick _ | .go => False

/-- The steps of the boot, those among them that fault on the way: where the
page fault handler gets to is left open. -/
inductive Turn (fs : FsImage) (s : Boot) : BootAct × Option Reply → Boot → Prop
  | step {l s'} : s.perform fs l.1 = some (s', l.2) → Turn fs s l s'
  | fault {act k1 k' r thread saved} : s.faultOf fs act = some k1 → Handled fs k1 k' r →
      Turn fs s (act, some r) ⟨k', thread, saved⟩

/-- The acts performed one after the other, with the steps recorded. -/
def performAll (fs : FsImage) (acts : List BootAct) (first : Boot) :
    Option (List (Event Boot (BootAct × Option Reply)) × Boot) :=
  replay (fun s act => (s.perform fs act).map fun r => ((act, r.2), r.1)) acts ([], first)

theorem performAll_run {fs : FsImage} {acts : List BootAct} {first : Boot}
    {result : List (Event Boot (BootAct × Option Reply)) × Boot}
    (done : performAll fs acts first = some result) : Run (Turn fs) first result.1 result.2 := by
  refine (replay_run_answers .start done).change fun e _ move => ?_
  exact .step move

/-- The kernel at the `sti` of `entry`, with anything in the PCBs. -/
def first (pcbs : Int → Pcb) (ram : Nat → UInt8) (ptFrame ptUserFrame : BitVec 20) (saved : Int → Thread) : Boot :=
  ⟨entryState pcbs ram ptFrame ptUserFrame, .entry, saved⟩

end Boot

abbrev BootEvent := Event Boot (BootAct × Option Reply)

/-- What a step does that does not fault, by its act. -/
inductive BootEffect (fs : FsImage) (s : Boot) : BootAct × Option Reply → Boot → Prop
  | start {regs k r} : s.thread = .entry → (s.kernel.sysExecute fs shell regs).outcome = some (k, r) →
      BootEffect fs s (.start regs, some r) (s.replied .spinning k r)
  | tick {regs} : s.thread.enabled = true → BootEffect fs s (.tick regs, none) (s.tick regs)
  | launch {regs on under k r} : s.thread = .launching on under →
      (s.kernel.sysExecute fs shell regs).outcome = some (k, r) →
      BootEffect fs s (.launch regs, some r) (s.replied under k r)
  | go {on next} : s.thread = .switching on next → BootEffect fs s (.go, none) (s.go on next)
  | act {a k r} : a.isTick = false → s.thread = .process ∨ a.isInterrupt = true →
      Step fs s.kernel (a, r) k → BootEffect fs s (.act a, some r) (s.replied s.thread k r)

namespace Boot

variable {fs : FsImage} {s s' : Boot}

theorem able_iff {a : Act} : s.able a = true ↔
    a.isTick = false ∧ (s.thread = .process ∨ (s.thread.enabled = true ∧ a.isInterrupt = true)) := by
  simp [able]

theorem perform_effect {l : BootAct × Option Reply} (done : s.perform fs l.1 = some (s', l.2)) :
    BootEffect fs s l s' := by
  obtain ⟨act, r⟩ := l
  cases act with
  | start regs =>
    simp only [perform] at done
    split at done
    · rename_i waiting
      obtain ⟨r1, run, same⟩ := Option.map_eq_some_iff.mp done
      cases same
      exact .start waiting run
    · cases done
  | tick regs =>
    simp only [perform] at done
    split at done
    · rename_i on
      cases done
      exact .tick on
    · cases done
  | launch regs =>
    simp only [perform] at done
    split at done
    · rename_i on under window
      obtain ⟨r1, run, same⟩ := Option.map_eq_some_iff.mp done
      cases same
      exact .launch window run
    all_goals cases done
  | go =>
    simp only [perform] at done
    split at done
    · rename_i on next window
      cases done
      exact .go window
    all_goals cases done
  | act a =>
    simp only [perform] at done
    split at done
    · rename_i able
      obtain ⟨r1, run, same⟩ := Option.map_eq_some_iff.mp done
      cases same
      obtain ⟨notTick, running | ⟨_, interrupt⟩⟩ := able_iff.mp able
      · exact .act notTick (Or.inl running) run
      · exact .act notTick (Or.inr interrupt) run
    · cases done

/-- An act faults only where it executes an image that is too long. -/
theorem faultOf_overlong {act : BootAct} {k1 : Kernel} (faults : s.faultOf fs act = some k1) : s.Overlong fs act := by
  have overruns {regs : Regs} (call : (s.kernel.sysExecute fs shell regs).fault = some k1) :
      s.kernel.Overruns fs shell := Kernel.sysExecute_faulted (ExecResult.fault_eq_some.mp call)
  cases act with
  | start regs =>
    simp only [faultOf] at faults
    split at faults
    · exact overruns faults
    · cases faults
  | launch regs =>
    simp only [faultOf] at faults
    split at faults
    · exact overruns faults
    all_goals cases faults
  | act a =>
    simp only [faultOf] at faults
    split at faults
    · exact faultOf_iff.mp ⟨k1, faults⟩
    · cases faults
  | tick | go => cases faults

/-- Without an image that is too long a turn has its effect. -/
theorem Turn.effect {l : BootAct × Option Reply} (turn : Turn fs s l s') (fits : ¬ s.Overlong fs l.1) :
    BootEffect fs s l s' := by
  cases turn with
  | step done => exact perform_effect done
  | fault faults => exact absurd (faultOf_overlong faults) fits

/-- Where all files are short no image is too long. -/
theorem no_overlong (short : ∀ inode, inode < fs.numInodes → (fs.fileLength inode).toNat ≤ 0x3B8000) (s : Boot)
    (act : BootAct) : ¬ s.Overlong fs act := by
  cases act with
  | start regs | launch regs => exact UnixLite.no_overlong short s.kernel (.execute shell regs)
  | act a => exact UnixLite.no_overlong short s.kernel a
  | tick | go => exact not_false

/-- The switch is made one statement at a time. -/
theorem go_nextTerminal (s : Boot) (on : Bool) : ((((((((s.go on .reading).go on (.storing (s.kernel.ta + 1))).go on
    .curPid).go on .prevPid).go on .program).go on .video).go on .stack).go on .context).kernel =
      s.kernel.nextTerminal := by
  have keeps (k : Kernel) : (k.mapVideo.terminals k.mapVideo.ta).activePid = (k.terminals k.ta).activePid := by
    unfold Kernel.mapVideo
    split <;> rfl
  simp only [go, active, keeps]
  rfl

end Boot

/-- With nothing in between, the steps of a tick are `pit_handler`: its
set-up and the call of `sys_execute`, or what comes before the switch. -/
theorem Boot.tick_pitHandler (fs : FsImage) (s : Boot) (regs execRegs : Regs) :
    s.kernel.pitHandler fs regs execRegs =
      if s.kernel.terminalInit < 3 then .launched ((s.tick regs).kernel.sysExecute fs shell execRegs)
      else
        let k := (s.tick regs).kernel.nextTerminal
        .switched k (k.pcb k.curPid).curEbp (k.pcb k.curPid).curEsp := by
  have same : (s.kernel.saveContext regs).terminalInit = s.kernel.terminalInit := rfl
  by_cases inSetup : s.kernel.terminalInit < 3
  · simp only [Kernel.pitHandler, Boot.tick, same, inSetup, dite_true, if_true]
  · simp only [Kernel.pitHandler, Boot.tick, same, inSetup, dite_false, if_false]

end UnixLite
