import UnixLite.BootSteps

namespace UnixLite

open Transition

/-- A tick has come to its end: its call of `sys_execute` is made, or the
saved pointers of the next process are loaded. -/
def BootEvent.handlesTick (e : BootEvent) : Bool :=
  match e.act.1, e.pre.thread with
  | .launch _, _ | .go, .switching _ .context => true
  | _, _ => false

/-- The ticks handled so far. -/
def handledTicks (history : List BootEvent) : Nat := history.countP BootEvent.handlesTick

/-- A shell has been started, by `entry` or by a tick. -/
def BootEvent.startsShell (e : BootEvent) : Bool :=
  match e.act with
  | (.start _, some (.entered _)) | (.launch _, some (.entered _)) => true
  | _ => false

/-- A program started by a process has that process as its parent. -/
def ParentIsCaller (e : BootEvent) : Prop :=
  ∀ command regs eip, e.act = (.act (.execute command regs), some (.entered eip)) →
    (e.post.kernel.pcb e.post.kernel.curPid).parentPid = e.pre.kernel.curPid

/-- Every terminal's chain ends in its own base shell, and every program was
given the process that called for it as its parent. -/
structure OwnShells (history : List BootEvent) (k : Kernel) : Prop where
  chains : ∀ t : Fin 3, ∃ chain, Lineage k (k.terminals t).activePid chain ∧
    chain.getLast? = some (t.val : Int)
  shells : ∀ t : Fin 3, k.pidArray t.val = 1 ∧ (k.pcb t.val).parentPid = -1
  parents : ∀ e ∈ history, ParentIsCaller e

/-- The act is not a tick inside another one. -/
def Boot.Alone (s : Boot) : BootAct → Prop
  | .tick _ => s.thread.inTick = false
  | .start _ | .launch _ | .go | .act _ => True

/-- The order that the pids rely on: no tick before the first shell is started,
and no program until all three shells are. -/
def InOrder (fs : FsImage) (s : Boot) : BootAct → Prop
  | .tick _ => s.thread ≠ .entry
  | .act (.execute command _) =>
    3 ≤ s.kernel.terminalInit ∨ findProgram fs (parseCommand (cString command)).1 = none
  | _ => True

instance Boot.Alone.decidable (s : Boot) : (act : BootAct) → Decidable (s.Alone act)
  | .tick _ => inferInstanceAs (Decidable (s.thread.inTick = false))
  | .start _ | .launch _ | .go | .act _ => isTrue trivial

instance InOrder.decidable (fs : FsImage) (s : Boot) : (act : BootAct) → Decidable (InOrder fs s act)
  | .tick _ => inferInstanceAs (Decidable (s.thread ≠ .entry))
  | .act (.execute command _) =>
    inferInstanceAs (Decidable
      (3 ≤ s.kernel.terminalInit ∨ findProgram fs (parseCommand (cString command)).1 = none))
  | .start _ | .launch _ | .go | .act (.halt _ _) | .act (.tick _ _) | .act (.read _ _ _) | .act (.write _ _ _ _)
  | .act (.openFile _) | .act (.close _) | .act (.putc _) | .act (.vidStore _ _) | .act (.key _)
  | .act (.switchTo _) => isTrue trivial

/-- Two states agree on the processes, whichever of them is running. -/
structure SameSlots (k k' : Kernel) : Prop where
  pidArray : k'.pidArray = k.pidArray
  parentPid : ∀ p, (k'.pcb p).parentPid = (k.pcb p).parentPid
  activePid : ∀ t, (k'.terminals t).activePid = (k.terminals t).activePid

theorem SameSlots.trans {a b c : Kernel} (first : SameSlots a b) (second : SameSlots b c) : SameSlots a c where
  pidArray := second.pidArray.trans first.pidArray
  parentPid p := (second.parentPid p).trans (first.parentPid p)
  activePid t := (second.activePid t).trans (first.activePid t)

theorem SameProcesses.slots {k k' : Kernel} (same : SameProcesses k k') : SameSlots k k' :=
  ⟨same.pidArray, same.parentPid, same.activePid⟩

/-- Terminal `t` is being set up: `sys_execute` is yet to be called for it. -/
structure SettingUp (k : Kernel) (t : Fin 3) (k' : Kernel) : Prop where
  ta : k'.ta = t
  curPid : k'.curPid = k.curPid
  pidArray : k'.pidArray = k.pidArray
  parentPid : ∀ p, (k'.pcb p).parentPid = (k.pcb p).parentPid
  otherActive : ∀ u, u ≠ t → (k'.terminals u).activePid = (k.terminals u).activePid
  terminalInit : k'.terminalInit = k.terminalInit + 1

namespace SettingUp

variable {fs : FsImage} {c k k' : Kernel} {t : Fin 3}

theorem same (window : SettingUp c t k) (same : SameProcesses k k') : SettingUp c t k' where
  ta := same.ta.trans window.ta
  curPid := same.curPid.trans window.curPid
  pidArray := same.pidArray.trans window.pidArray
  parentPid p := (same.parentPid p).trans (window.parentPid p)
  otherActive u other := (same.activePid u).trans (window.otherActive u other)
  terminalInit := same.terminalInit.trans window.terminalInit

/-- The call gives the terminal its shell. -/
theorem placed (window : SettingUp c t k) {regs : Regs} {pid : Int} (run : k.Started fs shell regs pid k') :
    c.Placed t pid k' := by
  have ta := window.ta
  constructor
  case ta => exact run.ta.trans ta
  case curPid => exact run.curPid
  case pidArray => rw [run.pidArray, window.pidArray]
  case parentPid => rw [run.parentPid, window.curPid]
  case otherParent =>
    intro q other
    rw [run.otherPcb q other]
    exact window.parentPid q
  case activePid => rw [← ta]; exact run.activePid
  case otherActive =>
    intro u other
    rw [run.otherTerminal u (by rw [ta]; exact other)]
    exact window.otherActive u other
  case terminalInit => rw [run.terminalInit, window.terminalInit]

end SettingUp

namespace Boot

variable {fs : FsImage} {s s' : Boot}

/-- A tick with terminals left begins to set up the next one. -/
theorem tick_settingUp (s : Boot) (regs : Regs) (inSetup : s.kernel.terminalInit < 3) :
    (∃ on, (s.tick regs).thread = .launching on s.thread) ∧
      SettingUp s.kernel ⟨s.kernel.terminalInit, inSetup⟩ (s.tick regs).kernel := by
  have early : (s.kernel.saveContext regs).terminalInit < 3 := inSetup
  simp only [tick, early, dite_true, Thread.launching.injEq, and_true, exists_eq']
  obtain ⟨ta, curPid, pidArray, _, others, terminalInit, _⟩ :=
    (s.kernel.saveContext regs).launchTerminal_parts ⟨s.kernel.terminalInit, inSetup⟩
  exact ⟨trivial, ta, curPid, pidArray, s.kernel.launchTerminal_field regs _ Pcb.parentPid fun _ => rfl, others,
    terminalInit⟩

/-- With all terminals set up it begins to switch to the next one. -/
theorem tick_switching (s : Boot) (regs : Regs) (ready : 3 ≤ s.kernel.terminalInit) :
    (∃ on, (s.tick regs).thread = .switching on .reading) ∧ SameSlots s.kernel (s.tick regs).kernel ∧
      3 ≤ (s.tick regs).kernel.terminalInit := by
  have late : ¬ (s.kernel.saveContext regs).terminalInit < 3 := Nat.not_lt.mpr ready
  simp only [tick, late, dite_false, Thread.switching.injEq, and_true, exists_eq']
  obtain ⟨frame, counted, _⟩ := (s.kernel.saveContext regs).finishInit_parts ready
  refine ⟨trivial, ⟨frame.pidArray, fun p => ?_, frame.activePid⟩, by omega⟩
  have pcb : (s.kernel.saveContext regs).finishInit.pcb = (s.kernel.saveContext regs).pcb := frame.pcb
  rw [pcb]
  exact s.kernel.saveContext_field regs Pcb.parentPid (fun _ => rfl) p

theorem tick_saved (s : Boot) (regs : Regs) : (s.tick regs).saved = Function.update s.saved s.active s.thread ∧
    (s.tick regs).kernel.pidArray = s.kernel.pidArray := by
  by_cases inSetup : s.kernel.terminalInit < 3
  · have early : (s.kernel.saveContext regs).terminalInit < 3 := inSetup
    refine ⟨?_, (s.tick_settingUp regs inSetup).2.pidArray⟩
    simp only [tick, early, dite_true]
  · have late : ¬ (s.kernel.saveContext regs).terminalInit < 3 := inSetup
    refine ⟨?_, (s.tick_switching regs (Nat.not_lt.mp inSetup)).2.1.pidArray⟩
    simp only [tick, late, dite_false]

/-- The switch leaves the processes alone. -/
theorem go_slots (s : Boot) (on : Bool) (next : Switching) : SameSlots s.kernel (s.go on next).kernel ∧
    (s.go on next).kernel.terminalInit = s.kernel.terminalInit ∧ (s.go on next).saved = s.saved := by
  have video (k : Kernel) : SameSlots k k.mapVideo ∧ k.mapVideo.terminalInit = k.terminalInit := by
    unfold Kernel.mapVideo
    split <;> exact ⟨⟨rfl, fun _ => rfl, fun _ => rfl⟩, rfl⟩
  cases next with
  | video => exact ⟨(video s.kernel).1, (video s.kernel).2, rfl⟩
  | reading | storing | curPid | prevPid | program | stack | context =>
    exact ⟨⟨rfl, fun _ => rfl, fun _ => rfl⟩, rfl, rfl⟩

theorem replied_kernel (s : Boot) (under : Thread) (k : Kernel) (r : Reply) : (s.replied under k r).kernel = k := by
  cases r <;> rfl

/-- A reply other than a program's entry changes no saved pointers. -/
theorem replied_same {r : Reply} (notEntered : ∀ eip, r ≠ .entered eip) (under : Thread) (k : Kernel) :
    s.replied under k r = ⟨k, under, s.saved⟩ := by
  cases r with
  | entered eip => exact absurd rfl (notEntered eip)
  | value | resumed | loaded => rfl

theorem replied_process (s : Boot) (k : Kernel) (r : Reply) : (s.replied .process k r).thread = .process := by
  cases r <;> rfl

/-- The saved pointers of every process lead back to it. -/
def Stored (s : Boot) : Prop := ∀ p, 0 ≤ p → p ≤ 5 → s.kernel.pidArray p = 1 → s.saved p = .process

theorem Stored.replied (stored : s.Stored) {k : Kernel} {r : Reply} (under : Thread)
    (fewer : ∀ p, k.pidArray p = 1 → s.kernel.pidArray p = 1 ∨ ((∃ eip, r = .entered eip) ∧ p = k.curPid)) :
    (s.replied under k r).Stored := by
  intro p lower upper taken
  rw [replied_kernel] at taken
  cases r with
  | entered eip =>
    change Function.update s.saved k.curPid .process p = .process
    by_cases new : p = k.curPid
    · rw [new, Function.update_self]
    · rw [Function.update_of_ne new]
      rcases fewer p taken with old | ⟨_, same⟩
      · exact stored p lower upper old
      · exact absurd same new
  | value | resumed | loaded =>
    rcases fewer p taken with old | ⟨⟨_, entered⟩, _⟩
    · exact stored p lower upper old
    · cases entered

/-- A slot is taken only for a program that is entered. -/
theorem taken_entered {k k' : Kernel} {command : List UInt8} {regs : Regs} {r : Reply}
    (run : (k.sysExecute fs command regs).outcome = some (k', r)) {p : Int} (taken : k'.pidArray p = 1) :
    k.pidArray p = 1 ∨ ((∃ eip, r = .entered eip) ∧ p = k'.curPid) := by
  rcases Kernel.sysExecute_outcome run with ⟨_, _, rfl, _⟩ | ⟨eip, pid, rfl, started⟩
  · exact Or.inl taken
  · rw [started.pidArray] at taken
    by_cases new : p = pid
    · exact Or.inr ⟨⟨eip, rfl⟩, new.trans started.curPid.symm⟩
    · rw [Function.update_of_ne new] at taken
      exact Or.inl taken

theorem taken_step {k k' : Kernel} {a : Act} {r : Reply} (run : UnixLite.Step fs k (a, r) k')
    (notTick : a.isTick = false) {p : Int} (taken : k'.pidArray p = 1) :
    k.pidArray p = 1 ∨ ((∃ eip, r = .entered eip) ∧ p = k'.curPid) := by
  cases step_effect run with
  | same _ _ _ same =>
    rw [same.pidArray] at taken
    exact Or.inl taken
  | started => exact taken_entered run taken
  | resumed child =>
    rw [k.haltBody_halted.pidArray] at taken
    by_cases dead : p = k.curPid
    · simp [dead] at taken
    · rw [Function.update_of_ne dead] at taken
      exact Or.inl taken
  | base orphan restarted =>
    rcases taken_entered restarted taken with old | new
    · by_cases dead : p = k.curPid
      · simp [Kernel.freeBase, dead] at old
      · simp only [Kernel.freeBase, Function.update_of_ne dead] at old
        exact Or.inl old
    · exact Or.inr new
  | switched | setup => cases notTick

/-- Ticks that come one by one leave the pointers of all processes stored. -/
theorem Stored.step {l : BootAct × Option Reply} (stored : s.Stored) (alone : s.Alone l.1)
    (idle : s.thread = .entry → s.kernel.pidArray s.active ≠ 1) (effect : BootEffect fs s l s') : s'.Stored := by
  cases effect with
  | start _ run => exact stored.replied _ fun p => taken_entered run
  | launch _ run => exact stored.replied _ fun p => taken_entered run
  | act notTick _ run => exact stored.replied _ fun p => taken_step run notTick
  | @go on next window =>
    obtain ⟨slots, _, saved⟩ := s.go_slots on next
    intro p lower upper taken
    rw [slots.pidArray] at taken
    rw [saved]
    exact stored p lower upper taken
  | @tick regs on =>
    obtain ⟨saved, pidArray⟩ := s.tick_saved regs
    intro p lower upper taken
    rw [pidArray] at taken
    rw [saved]
    by_cases own : p = s.active
    · rw [own, Function.update_self]
      rw [own] at taken
      cases thread : s.thread with
      | process => rfl
      | entry => exact absurd taken (idle thread)
      | spinning => simp [thread, Thread.enabled] at on
      | launching | switching => simp [Alone, thread, Thread.inTick] at alone
    · rw [Function.update_of_ne own]
      exact stored p lower upper taken

end Boot

/-- What holds of a system with all terminals set up whichever of them has its turn. -/
structure EveryTurn (P : Kernel → Prop) : Prop where
  turned : ∀ {k k' : Kernel}, P k → SameSlots k k' → 3 ≤ k'.terminalInit →
    k'.curPid = (k'.terminals k'.ta).activePid → P k'
  live : ∀ {k : Kernel}, P k → ∀ t, 0 ≤ (k.terminals t).activePid ∧ (k.terminals t).activePid ≤ 5 ∧
    k.pidArray (k.terminals t).activePid = 1
  setUp : ∀ {k : Kernel}, P k → 3 ≤ k.terminalInit

/-- The switch has stored the pid of the new process. -/
def Switching.loaded : Switching → Bool
  | .reading | .storing _ | .curPid => false
  | .prevPid | .program | .video | .stack | .context => true

/-- A program is running, or a tick is about to switch to another one. -/
inductive Turning (P : Kernel → Prop) (s : Boot) : Prop
  | process : s.thread = .process → P s.kernel → Turning P s
  | switching {on next c} : s.thread = .switching on next → P c → SameSlots c s.kernel →
      3 ≤ s.kernel.terminalInit → (next.loaded = true → s.kernel.curPid = s.active) → Turning P s

namespace Turning

variable {fs : FsImage} {P : Kernel → Prop} {s s' : Boot}

theorem base (turning : Turning P s) : ∃ c, P c ∧ SameSlots c s.kernel := by
  cases turning with
  | process _ holds => exact ⟨_, holds, rfl, fun _ => rfl, fun _ => rfl⟩
  | switching _ holds slots => exact ⟨_, holds, slots⟩

/-- Another statement of the switch: at its end a program runs. -/
theorem go (turns : EveryTurn P) {on : Bool} {next : Switching} {c : Kernel} (stored : s.Stored) (holds : P c)
    (slots : SameSlots c s.kernel) (ready : 3 ≤ s.kernel.terminalInit)
    (current : next.loaded = true → s.kernel.curPid = s.active) : Turning P (s.go on next) := by
  obtain ⟨same, terminalInit, _⟩ := s.go_slots on next
  have slots' := slots.trans same
  have ready' : 3 ≤ (s.go on next).kernel.terminalInit := terminalInit.symm ▸ ready
  cases next with
  | context =>
    obtain ⟨lower, upper, taken⟩ := turns.live holds s.kernel.ta
    rw [← slots.activePid] at lower upper taken
    rw [← slots.pidArray] at taken
    exact .process (stored s.active lower upper taken) (turns.turned holds slots ready (current rfl))
  | reading | storing => exact .switching rfl holds slots' ready' (fun loaded => by cases loaded)
  | curPid => exact .switching rfl holds slots' ready' fun _ => rfl
  | prevPid | program | stack => exact .switching rfl holds slots' ready' fun _ => current rfl
  | video =>
    refine .switching rfl holds slots' ready' fun _ => ?_
    have own := current rfl
    simp only [Boot.go, Boot.active, Kernel.mapVideo]
    split <;> exact own

/-- The steps of a system with all terminals set up: the switch goes on, or
the running program makes a call. -/
theorem step (turns : EveryTurn P) {l : BootAct × Option Reply} (turning : Turning P s) (stored : s.Stored)
    (alone : s.Alone l.1) (effect : BootEffect fs s l s') : Turning P s' ∨
      ∃ a r, l = (.act a, some r) ∧ a.isTick = false ∧ s.thread = .process ∧ P s.kernel ∧
        Step fs s.kernel (a, r) s'.kernel ∧ s'.thread = .process := by
  cases turning with
  | process running holds =>
    cases effect with
    | start waiting | launch waiting | go waiting => simp [running] at waiting
    | @tick regs on =>
      obtain ⟨⟨on, thread⟩, slots, ready⟩ := s.tick_switching regs (turns.setUp holds)
      exact Or.inl (.switching thread holds slots ready fun loaded => by cases loaded)
    | @act a k r notTick _ run =>
      refine Or.inr ⟨a, r, rfl, notTick, running, holds, ?_, ?_⟩
      · rw [s.replied_kernel]
        exact run
      · rw [running]
        exact s.replied_process k r
  | @switching on next c window holds slots ready current =>
    cases effect with
    | start waiting | launch waiting => simp [window] at waiting
    | tick => simp [Boot.Alone, window, Thread.inTick] at alone
    | go point =>
      obtain ⟨rfl, rfl⟩ := Thread.switching.inj (window.symm.trans point)
      exact Or.inl (go turns stored holds slots ready current)
    | @act a k r notTick interrupt run =>
      obtain ⟨same, notEntered⟩ := interrupt_same run (interrupt.resolve_left (by simp [window])) notTick
      rw [s.replied_same notEntered]
      refine Or.inl (.switching window holds (slots.trans same.slots) ?_ fun loaded => ?_)
      · rw [same.terminalInit]
        exact ready
      · rw [same.curPid, current loaded]
        simp only [Boot.active, same.ta, same.activePid]

end Turning

/-- The processes form a chain for each terminal, down to the shell with its number. -/
def Tree (k : Kernel) : Prop := ∃ forest, ProcessForest k (fun t => (t.val : Int)) forest

theorem Tree.everyTurn : EveryTurn Tree where
  turned := by
    rintro k k' ⟨forest, tree⟩ slots ready running
    exact ⟨forest, tree.congr slots.pidArray slots.parentPid slots.activePid running ready⟩
  live := by
    rintro k ⟨forest, tree⟩ t
    obtain ⟨lower, upper⟩ := tree.range t _ (tree.active_mem t)
    exact ⟨lower, upper, (tree.slots _ lower upper).mpr ⟨t, tree.active_mem t⟩⟩
  setUp := by
    rintro k ⟨forest, tree⟩
    exact tree.setUp

/-- All terminals are set up, but two of them have the same shell. -/
def Doubled (k : Kernel) : Prop :=
  Orphans 2 k ∧ 3 ≤ k.terminalInit ∧ (k.terminals 0).activePid = 0 ∧ (k.terminals 1).activePid = 0 ∧
    (k.terminals 2).activePid = 1

theorem Doubled.low {k : Kernel} (doubled : Doubled k) (t : Fin 3) :
    0 ≤ (k.terminals t).activePid ∧ (k.terminals t).activePid < (2 : Nat) := by
  obtain ⟨_, _, first, second, third⟩ := doubled
  obtain rfl | rfl | rfl : t = 0 ∨ t = 1 ∨ t = 2 := by omega
  · omega
  · omega
  · omega

theorem Doubled.everyTurn : EveryTurn Doubled where
  turned := by
    intro k k' doubled slots ready running
    have low := doubled.low k'.ta
    obtain ⟨orphans, _, first, second, third⟩ := doubled
    have active := slots.activePid
    refine ⟨⟨?_, ?_, running, ?_⟩, ready, (active 0).trans first, (active 1).trans second, (active 2).trans third⟩
    · rw [slots.pidArray]
      exact orphans.slots
    · intro p lower upper
      rw [slots.parentPid]
      exact orphans.orphan p lower upper
    · rw [running, active]
      exact low
  live := by
    intro k doubled t
    obtain ⟨lower, upper⟩ := doubled.low t
    refine ⟨lower, by omega, ?_⟩
    rw [doubled.1.slots _ lower (by omega), if_pos upper]
  setUp doubled := doubled.2.1

/-- Terminal 2 gets the second shell where the first two share the first one. -/
theorem Shifted.placed {k k' : Kernel} (shifted : Shifted k) (placed : k.Placed 2 1 k') : Doubled k' := by
  obtain ⟨orphans, count, first, second⟩ := shifted
  refine ⟨⟨?_, ?_, ?_, ?_⟩, ?_, ?_, ?_, placed.activePid⟩
  · intro p lower upper
    rw [placed.pidArray]
    by_cases new : p = 1
    · simp [new]
    · rw [Function.update_of_ne new, orphans.slots p lower upper]
      have same : p < (1 : Nat) ↔ p < (2 : Nat) := by omega
      simp only [same]
  · intro p lower upper
    by_cases new : p = 1
    · rw [new]
      exact placed.parentPid
    · rw [placed.otherParent p new]
      exact orphans.orphan p lower (by omega)
  · rw [placed.curPid, placed.ta, placed.activePid]
  · rw [placed.curPid]
    omega
  · rw [placed.terminalInit, count]
  · exact (placed.otherActive 0 (by decide)).trans first
  · exact (placed.otherActive 1 (by decide)).trans second

/-- The boot as long as everything has come in order. -/
inductive OnTime (history : List BootEvent) (s : Boot) : Prop
  | entry : s.thread = .entry → handledTicks history = 0 → Unstarted s.kernel → OnTime history s
  | launching {n} : s.thread = .process → n < 3 → handledTicks history + 1 = n →
      Launching n s.kernel → OnTime history s
  | window {n on c} : s.thread = .launching on .process → (small : n < 3) → handledTicks history + 1 = n →
      Launching n c → SettingUp c ⟨n, small⟩ s.kernel → OnTime history s
  | forest : Turning Tree s → OnTime history s

/-- A tick has come too early: one shell fewer is started than there are terminals. -/
inductive Short (s : Boot) : Prop
  | early {on c} : s.thread = .launching on .entry → Unstarted c → SettingUp c 1 s.kernel → Short s
  | first : s.thread = .process → Shifted s.kernel → Short s
  | window {on c} : s.thread = .launching on .process → Shifted c → SettingUp c 2 s.kernel → Short s
  | doubled : Turning Doubled s → Short s

theorem handledTicks_other {past : List BootEvent} {e : BootEvent} (other : e.handlesTick = false) :
    handledTicks (e :: past) = handledTicks past :=
  List.countP_cons_of_neg (by simp [other])

theorem handledTicks_launch {past : List BootEvent} {s s' : Boot} {regs : Regs} {r : Option Reply} :
    handledTicks (⟨s, (.launch regs, r), s'⟩ :: past) = handledTicks past + 1 :=
  List.countP_cons_of_pos rfl

/-- In order, no program is started before the terminals are set up. -/
theorem Launching.no_program {fs : FsImage} {n : Nat} {k k' : Kernel} {command : List UInt8} {regs : Regs} {pid : Int}
    (stage : Launching n k) (small : n < 3)
    (order : 3 ≤ k.terminalInit ∨ findProgram fs (parseCommand (cString command)).1 = none)
    (started : Kernel.Started fs k command regs pid k') : False := by
  obtain ⟨dentry, found, _⟩ := started.program
  have count := stage.terminalInit
  rcases order with late | unknown
  · omega
  · exact absurd (found.symm.trans unknown) (by simp)

theorem OnTime.step {fs : FsImage} {past : List BootEvent} {s s' : Boot} {l : BootAct × Option Reply}
    (stage : OnTime past s) (stored : s.Stored) (present : ShellPresent fs) (alone : s.Alone l.1)
    (order : InOrder fs s l.1) (effect : BootEffect fs s l s') : OnTime (⟨s, l, s'⟩ :: past) s' := by
  cases stage with
  | entry waiting ticks unstarted =>
    cases effect with
    | launch window | go window => simp [waiting] at window
    | start _ run =>
      obtain ⟨started, eip, rfl⟩ := present.started unstarted.slot run
      refine .launching rfl (by omega) ?_ (unstarted.started started)
      rw [handledTicks_other rfl, ticks]
    | tick => exact absurd waiting order
    | act notTick interrupt run =>
      obtain ⟨same, notEntered⟩ := interrupt_same run (interrupt.resolve_left (by simp [waiting])) notTick
      rw [s.replied_same notEntered]
      exact .entry waiting ((handledTicks_other rfl).trans ticks) (unstarted.same same)
  | @launching n running small ticks stage =>
    cases effect with
    | start window | launch window | go window => simp [running] at window
    | @tick regs on =>
      have count := stage.terminalInit
      subst count
      obtain ⟨⟨on, thread⟩, window⟩ := s.tick_settingUp regs small
      rw [running] at thread
      exact .window thread small ((congrArg (· + 1) (handledTicks_other rfl)).trans ticks) stage window
    | @act a k r notTick _ run =>
      have ticks' : handledTicks (⟨s, (.act a, some r), s.replied s.thread k r⟩ :: past) + 1 = n := by
        rw [handledTicks_other rfl, ticks]
      have thread : (s.replied s.thread k r).thread = .process := by
        rw [running]
        exact s.replied_process k r
      have kernel := s.replied_kernel s.thread k r
      rcases stage.orphans.step (by omega) present run (by rintro _ _ rfl; cases notTick) with
        same | ⟨command, regs, eip, label, started⟩
      · exact .launching thread small ticks' (kernel.symm ▸ stage.chains same)
      · cases label
        exact absurd started (stage.no_program small order)
  | @window n on c setting small ticks stage window =>
    cases effect with
    | start waiting | go waiting => simp [setting] at waiting
    | tick => simp [Boot.Alone, setting, Thread.inTick] at alone
    | launch _ run =>
      have slot : freePid s.kernel.pidArray = some n := by
        rw [window.pidArray]
        exact stage.slot (by omega)
      obtain ⟨started, eip, rfl⟩ := present.started slot run
      have next : Launching (n + 1) _ := stage.setUp rfl (window.placed started)
      by_cases last : n + 1 < 3
      · exact .launching rfl last (by rw [handledTicks_launch, ticks]) next
      · obtain rfl : n = 2 := by omega
        exact .forest (.process rfl next.forest)
    | act notTick interrupt run =>
      obtain ⟨same, notEntered⟩ := interrupt_same run (interrupt.resolve_left (by simp [setting])) notTick
      rw [s.replied_same notEntered]
      exact .window setting small ((congrArg (· + 1) (handledTicks_other rfl)).trans ticks) stage (window.same same)
  | forest turning =>
    rcases turning.step Tree.everyTurn stored alone effect with still | ⟨a, r, rfl, _, _, ⟨forest, tree⟩, run, running⟩
    · exact .forest still
    · obtain ⟨next, nextTree⟩ := tree.step present run
      exact .forest (.process running ⟨next, nextTree⟩)

/-- In order, a program is given its caller as parent. -/
theorem OnTime.parent {fs : FsImage} {past : List BootEvent} {s s' : Boot} {l : BootAct × Option Reply}
    (stage : OnTime past s) (order : InOrder fs s l.1) (effect : BootEffect fs s l s') : ParentIsCaller ⟨s, l, s'⟩ := by
  rintro command regs eip rfl
  cases effect with
  | @act _ k _ _ interrupt run =>
    have running : s.thread = .process := interrupt.resolve_right (by simp [Act.isInterrupt])
    rcases step_execute run with ⟨_, _, _, returned⟩ | ⟨_, pid, _, started⟩
    · cases returned
    cases stage with
    | entry waiting | window waiting => simp [running] at waiting
    | launching _ small _ stage => exact absurd started (stage.no_program small order)
    | forest turning =>
      cases turning with
      | switching window => simp [running] at window
      | process _ holds =>
        obtain ⟨_, tree⟩ := holds
        change (k.pcb k.curPid).parentPid = s.kernel.curPid
        rw [started.curPid]
        exact tree.started_parent started

/-- A program has been given a parent that is not its caller. -/
def WrongParent (history : List BootEvent) : Prop := ∃ e ∈ history, ¬ ParentIsCaller e

/-- Something has come out of order, and this cannot be made good. -/
def Disordered (history : List BootEvent) (s : Boot) : Prop := WrongParent history ∨ (Short s ∧ s.Stored)

/-- The first thing to come out of order: an early tick or an early program. -/
theorem OnTime.disorder {fs : FsImage} {past : List BootEvent} {s s' : Boot} {l : BootAct × Option Reply}
    (stage : OnTime past s) (order : ¬ InOrder fs s l.1) (effect : BootEffect fs s l s') :
    WrongParent (⟨s, l, s'⟩ :: past) ∨ Short s' := by
  cases effect with
  | start | launch | go => exact absurd trivial order
  | @tick regs on =>
    have waiting : s.thread = .entry := not_not.mp order
    cases stage with
    | launching running | window running => simp [waiting] at running
    | forest turning => cases turning with | process running | switching running => simp [waiting] at running
    | entry _ _ unstarted =>
      have count := unstarted.terminalInit
      obtain ⟨⟨on, thread⟩, window⟩ := s.tick_settingUp regs (by omega)
      have second : (⟨s.kernel.terminalInit, by omega⟩ : Fin 3) = 1 := Fin.ext count
      rw [second] at window
      rw [waiting] at thread
      exact Or.inr (.early thread unstarted window)
  | @act a k r notTick interrupt run =>
    cases a with
    | execute command regs =>
      have running : s.thread = .process := interrupt.resolve_right (by simp [Act.isInterrupt])
      obtain ⟨early, known⟩ := not_or.mp order
      obtain ⟨dentry, found⟩ := Option.ne_none_iff_exists'.mp known
      cases stage with
      | entry waiting | window waiting => simp [running] at waiting
      | forest turning =>
        cases turning with
        | process _ tree => exact absurd (Tree.everyTurn.setUp tree) early
        | switching window => simp [running] at window
      | @launching n _ small _ stage =>
        have slot := stage.slot (by omega)
        rcases step_execute run with ⟨prev, v, _, rfl⟩ | ⟨eip, pid, rfl, started⟩
        · exfalso
          simp only [Step, perform] at run
          cases call : s.kernel.sysExecute fs command regs with
          | returned k1 value => exact Kernel.sysExecute_not_returned found slot call
          | started k1 eip =>
            rw [call] at run
            cases run
          | faulted k1 =>
            rw [call] at run
            cases run
        · cases Option.some.inj (started.slot.symm.trans slot)
          refine Or.inl ⟨_, List.mem_cons_self .., fun parents => ?_⟩
          exact started_low started (by omega) stage.orphans.current.1 (parents command regs eip rfl)
    | _ => exact absurd trivial order

/-- Where only a few orphans run, a program that is started gets a wrong parent. -/
theorem Orphans.call {fs : FsImage} {m : Nat} {past : List BootEvent} {s s' : Boot} {a : Act} {r : Reply}
    (orphans : Orphans m s.kernel) (few : m ≤ 2) (present : ShellPresent fs) (notTick : a.isTick = false)
    (run : Step fs s.kernel (a, r) s'.kernel) :
    SameChains s.kernel s'.kernel ∨ WrongParent (⟨s, (.act a, some r), s'⟩ :: past) := by
  rcases orphans.step (by omega) present run (by rintro _ _ rfl; cases notTick) with
    same | ⟨command, regs, eip, label, started⟩
  · exact Or.inl same
  · simp only [Prod.mk.injEq] at label
    obtain ⟨rfl, rfl⟩ := label
    refine Or.inr ⟨_, List.mem_cons_self .., fun parents => ?_⟩
    exact started_low started few orphans.current.1 (parents command regs eip rfl)

theorem Short.step {fs : FsImage} {past : List BootEvent} {s s' : Boot} {l : BootAct × Option Reply}
    (short : Short s) (stored : s.Stored) (present : ShellPresent fs) (alone : s.Alone l.1)
    (effect : BootEffect fs s l s') : WrongParent (⟨s, l, s'⟩ :: past) ∨ Short s' := by
  cases short with
  | early setting unstarted window =>
    cases effect with
    | start waiting | go waiting => simp [setting] at waiting
    | tick => simp [Boot.Alone, setting, Thread.inTick] at alone
    | launch _ run =>
      have slot : freePid s.kernel.pidArray = some 0 := by
        rw [window.pidArray]
        exact unstarted.slot
      obtain ⟨started, eip, rfl⟩ := present.started slot run
      exact Or.inr (.first rfl (unstarted.tick rfl (window.placed started)))
    | act notTick interrupt run =>
      obtain ⟨same, notEntered⟩ := interrupt_same run (interrupt.resolve_left (by simp [setting])) notTick
      rw [s.replied_same notEntered]
      exact Or.inr (.early setting unstarted (window.same same))
  | first running shifted =>
    cases effect with
    | start window | launch window | go window => simp [running] at window
    | @tick regs on =>
      have count := shifted.terminalInit
      obtain ⟨⟨on, thread⟩, window⟩ := s.tick_settingUp regs (by omega)
      have third : (⟨s.kernel.terminalInit, by omega⟩ : Fin 3) = 2 := Fin.ext count
      rw [third] at window
      rw [running] at thread
      exact Or.inr (.window thread shifted window)
    | @act a k r notTick _ run =>
      have kernel := s.replied_kernel s.thread k r
      rw [← kernel] at run
      rcases shifted.orphans.call (by omega) present notTick run with same | wrong
      · refine Or.inr (.first ?_ (shifted.chains same))
        rw [running]
        exact s.replied_process k r
      · exact Or.inl wrong
  | window setting shifted window =>
    cases effect with
    | start waiting | go waiting => simp [setting] at waiting
    | tick => simp [Boot.Alone, setting, Thread.inTick] at alone
    | launch _ run =>
      have slot : freePid s.kernel.pidArray = some (1 : Nat) := by
        rw [window.pidArray]
        exact shifted.orphans.slot (by omega)
      obtain ⟨started, eip, rfl⟩ := present.started slot run
      exact Or.inr (.doubled (.process rfl (shifted.placed (window.placed started))))
    | act notTick interrupt run =>
      obtain ⟨same, notEntered⟩ := interrupt_same run (interrupt.resolve_left (by simp [setting])) notTick
      rw [s.replied_same notEntered]
      exact Or.inr (.window setting shifted (window.same same))
  | doubled turning =>
    rcases turning.step Doubled.everyTurn stored alone effect with still | ⟨a, r, rfl, notTick, _, doubled, run, running⟩
    · exact Or.inr (.doubled still)
    · rcases doubled.1.call (by omega) present notTick run with same | wrong
      · refine Or.inr (.doubled (.process running ⟨doubled.1.chains same, ?_⟩))
        rw [same.terminalInit, same.activePid, same.activePid, same.activePid]
        exact doubled.2
      · exact Or.inl wrong

/-- It has left `entry`. -/
theorem Short.left_entry {s : Boot} (short : Short s) : s.thread ≠ .entry := by
  cases short with
  | early thread | first thread | window thread => simp [thread]
  | doubled turning => cases turning with | process thread | switching thread => simp [thread]

/-- A system that is one shell short has no third one. -/
theorem Short.third {s : Boot} (short : Short s) : s.kernel.pidArray 2 = 0 := by
  cases short with
  | early _ unstarted window => rw [window.pidArray, unstarted.slots 2 (by omega) (by omega)]
  | first _ shifted => rw [shifted.orphans.slots 2 (by omega) (by omega), if_neg (by omega)]
  | window _ shifted window =>
    rw [window.pidArray, shifted.orphans.slots 2 (by omega) (by omega), if_neg (by omega)]
  | doubled turning =>
    obtain ⟨c, doubled, slots⟩ := turning.base
    rw [slots.pidArray, doubled.1.slots 2 (by omega) (by omega), if_neg (by omega)]

theorem Disordered.step {fs : FsImage} {past : List BootEvent} {s s' : Boot} {l : BootAct × Option Reply}
    (broken : Disordered past s) (present : ShellPresent fs) (alone : s.Alone l.1)
    (effect : BootEffect fs s l s') : Disordered (⟨s, l, s'⟩ :: past) s' := by
  rcases broken with ⟨e, member, wrong⟩ | ⟨short, stored⟩
  · exact Or.inl ⟨e, List.mem_cons_of_mem _ member, wrong⟩
  · have stored' := stored.step alone (fun waiting => absurd waiting short.left_entry) effect
    exact (short.step stored present alone effect).imp id fun still => ⟨still, stored'⟩

theorem Disordered.not_own {history : List BootEvent} {s : Boot} (broken : Disordered history s) :
    ¬ OwnShells history s.kernel := by
  intro own
  rcases broken with ⟨e, member, wrong⟩ | ⟨short, _⟩
  · exact wrong (own.parents e member)
  · have third := (own.shells 2).1
    have none := short.third
    change s.kernel.pidArray 2 = 1 at third
    omega

/-- With three ticks handled and everything in order the chains are the right ones. -/
theorem OnTime.own {history : List BootEvent} {s : Boot} (stage : OnTime history s)
    (ticks : 3 ≤ handledTicks history) (parents : ∀ e ∈ history, ParentIsCaller e) : OwnShells history s.kernel := by
  cases stage with
  | entry _ none => omega
  | launching _ small count => omega
  | window _ small count => omega
  | forest turning =>
    obtain ⟨c, ⟨forest, tree⟩, slots⟩ := turning.base
    refine ⟨fun t => ⟨forest.stack t, ?_, tree.ends t⟩, fun t => ?_, parents⟩
    · rw [slots.activePid]
      exact (tree.lineage t).congr fun q _ => slots.parentPid q
    · have small := t.isLt
      rw [slots.pidArray, slots.parentPid]
      exact ⟨tree.low_taken (by omega) (by omega), (tree.lineage t).last_orphan (tree.ends t)⟩

/-- A shell that has been started is there. -/
theorem shell_present {fs : FsImage} {s s' : Boot} {l : BootAct × Option Reply} (effect : BootEffect fs s l s')
    (starts : BootEvent.startsShell ⟨s, l, s'⟩ = true) : ShellPresent fs := by
  have present {k k' : Kernel} {regs : Regs} {eip : Word}
      (run : (k.sysExecute fs shell regs).outcome = some (k', .entered eip)) : ShellPresent fs := by
    rcases Kernel.sysExecute_outcome run with ⟨_, _, _, returned⟩ | ⟨_, _, _, started⟩
    · cases returned
    · exact started.present
  cases effect with
  | @start _ _ r _ run | @launch _ _ _ _ r _ run =>
    cases r with
    | entered eip => exact present run
    | value | resumed | loaded => cases starts
  | tick | go | act => cases starts

/-- The boot in order, with what is needed to go on. -/
structure Orderly (history : List BootEvent) (s : Boot) : Prop where
  stage : OnTime history s
  stored : s.Stored
  parents : ∀ e ∈ history, ParentIsCaller e

namespace Orderly

variable {fs : FsImage} {past : List BootEvent} {s s' : Boot} {l : BootAct × Option Reply}

theorem first (pcbs : Int → Pcb) (ram : Nat → UInt8) (ptFrame ptUserFrame : BitVec 20) (saved : Int → Thread) :
    Orderly [] (Boot.first pcbs ram ptFrame ptUserFrame saved) where
  stage := .entry rfl rfl (entry_unstarted pcbs ram ptFrame ptUserFrame)
  stored p _ _ taken := by cases taken
  parents := by simp

/-- Before the first shell is started there is no process to lose. -/
theorem idle (orderly : Orderly past s) (waiting : s.thread = .entry) : s.kernel.pidArray s.active ≠ 1 := by
  cases orderly.stage with
  | entry _ _ unstarted =>
    rw [Boot.active, unstarted.active, unstarted.slots 0 (by omega) (by omega)]
    decide
  | launching running | window running => simp [waiting] at running
  | forest turning => cases turning with | process running | switching running => simp [waiting] at running

theorem step (orderly : Orderly past s) (present : ShellPresent fs) (alone : s.Alone l.1) (order : InOrder fs s l.1)
    (effect : BootEffect fs s l s') : Orderly (⟨s, l, s'⟩ :: past) s' where
  stage := orderly.stage.step orderly.stored present alone order effect
  stored := orderly.stored.step alone orderly.idle effect
  parents := List.forall_mem_cons.mpr ⟨orderly.stage.parent order effect, orderly.parents⟩

theorem disorder (orderly : Orderly past s) (alone : s.Alone l.1) (order : ¬ InOrder fs s l.1)
    (effect : BootEffect fs s l s') : Disordered (⟨s, l, s'⟩ :: past) s' := by
  have stored := orderly.stored.step alone orderly.idle effect
  exact (orderly.stage.disorder order effect).imp id fun short => ⟨short, stored⟩

end Orderly

/-- Once three ticks have been handled and a shell has been started, the three
chains end in base shells 0, 1 and 2 and all programs have their callers as
parents exactly when everything has come in order: this where no tick comes
inside another one and no image is too long. -/
theorem own_shells {fs : FsImage} {pcbs : Int → Pcb} {ram : Nat → UInt8} {ptFrame ptUserFrame : BitVec 20}
    {saved : Int → Thread} {history : List BootEvent} {s : Boot}
    (run : Run (Boot.Turn fs) (Boot.first pcbs ram ptFrame ptUserFrame saved) history s)
    (fits : ∀ e ∈ history, ¬ e.pre.Overlong fs e.act.1) (alone : ∀ e ∈ history, e.pre.Alone e.act.1)
    (started : ∃ e ∈ history, e.startsShell = true) (ticks : 3 ≤ handledTicks history) :
    OwnShells history s.kernel ↔ ∀ e ∈ history, InOrder fs e.pre e.act.1 := by
  have effects : Run (fun s l s' => s.Alone l.1 ∧ BootEffect fs s l s') _ history s :=
    run.change fun e member turn => ⟨alone e member, turn.effect (fits e member)⟩
  obtain ⟨e, member, starts⟩ := started
  obtain ⟨_, _, ⟨_, effect⟩, _⟩ := effects.event_reached member
  have present : ShellPresent fs := shell_present effect starts
  rcases effects.kept_or_broken Orderly Disordered (fun s l => InOrder fs s l.1)
      (Orderly.first pcbs ram ptFrame ptUserFrame saved)
      (fun past s l s' orderly order move => orderly.step present move.1 order move.2)
      (fun past s l s' orderly disorder move => orderly.disorder move.1 disorder move.2)
      (fun past s l s' broken move => broken.step present move.1 move.2) with
    ⟨order, orderly⟩ | ⟨⟨e, member, disorder⟩, broken⟩
  · exact ⟨fun _ => order, fun _ => orderly.stage.own ticks orderly.parents⟩
  · constructor
    · exact fun own => absurd own broken.not_own
    · exact fun order => absurd (order e member) disorder

/-- The state in which the sample boots. -/
def sampleBoot : Boot := ⟨sampleEntry, .entry, fun _ => .entry⟩

/-- A tick of the set-up, and one that switches, with nothing in between. -/
def setUpTick : List BootAct := [.tick ⟨0, 0⟩, .launch ⟨0, 0⟩]

def switchTick : List BootAct := [.tick ⟨0, 0⟩, .go, .go, .go, .go, .go, .go, .go, .go]

/-- The first shell is started and three ticks come, with keys between them and
in the first one; then the first shell executes another one. -/
def bootActs : List BootAct :=
  [.act (.key 0x1E), .start ⟨0, 0⟩, .act (.key 0x1E), .tick ⟨0, 0⟩, .act (.key 0x30), .launch ⟨0, 0⟩] ++
    setUpTick ++ switchTick ++ [.act (.execute shell ⟨0, 0⟩)]

theorem own_shells_sample : ∃ (history : List BootEvent) (s : Boot), Run (Boot.Turn sampleImage) sampleBoot history s ∧
    (∀ e ∈ history, e.pre.Alone e.act.1) ∧ 3 ≤ handledTicks history ∧ OwnShells history s.kernel ∧
    s.kernel.curPid = 3 ∧ (s.kernel.pcb 3).parentPid = 0 := by
  have computed : (Boot.performAll sampleImage bootActs sampleBoot).map (fun r =>
      (handledTicks r.1, r.1.any BootEvent.startsShell,
        decide (∀ e ∈ r.1, e.pre.Alone e.act.1 ∧ InOrder sampleImage e.pre e.act.1),
        [r.2.kernel.curPid, (r.2.kernel.pcb 3).parentPid])) = some (3, true, true, [3, 0]) := by
    decide +kernel
  obtain ⟨r, done, values⟩ := Option.map_eq_some_iff.mp computed
  simp only [Prod.mk.injEq, List.any_eq_true, decide_eq_true_eq, List.cons.injEq, and_true] at values
  obtain ⟨ticks, started, order, current, parent⟩ := values
  have run := Boot.performAll_run done
  have alone : ∀ e ∈ r.1, e.pre.Alone e.act.1 := fun e member => (order e member).1
  have own : OwnShells r.1 r.2.kernel :=
    (own_shells run (fun e _ => Boot.no_overlong sampleImage_lengths e.pre e.act.1) alone started ticks.ge).mpr
      fun e member => (order e member).2
  exact ⟨r.1, r.2, run, alone, ticks.ge, own, current, parent⟩

/-- The first shell executes another one before the first tick: terminal 1 gets pid 2. -/
theorem own_shells_early : ¬ ∀ (fs : FsImage) (pcbs : Int → Pcb) (ram : Nat → UInt8)
    (ptFrame ptUserFrame : BitVec 20) (saved : Int → Thread) (history : List BootEvent) (s : Boot),
    Run (Boot.Turn fs) (Boot.first pcbs ram ptFrame ptUserFrame saved) history s →
      (∃ e ∈ history, e.startsShell = true) → 3 ≤ handledTicks history → OwnShells history s.kernel := by
  intro own
  have computed : (Boot.performAll sampleImage
      ([.start ⟨0, 0⟩, .act (.execute shell ⟨0, 0⟩)] ++ setUpTick ++ setUpTick ++ switchTick) sampleBoot).map
        (fun r => (handledTicks r.1, r.1.any BootEvent.startsShell, (r.2.kernel.terminals 1).activePid,
          (r.2.kernel.pcb 2).parentPid)) = some (3, true, 2, -1) := by
    decide +kernel
  obtain ⟨r, done, values⟩ := Option.map_eq_some_iff.mp computed
  simp only [Prod.mk.injEq, List.any_eq_true] at values
  obtain ⟨ticks, started, second, orphan⟩ := values
  have run := Boot.performAll_run done
  obtain ⟨chain, line, last⟩ := (own _ _ _ _ _ _ _ _ run started ticks.ge).chains 1
  rw [second] at line
  rw [line.orphan_alone orphan] at last
  cases last

/-- A tick comes inside the first one, which has just been ended at the PIC: it
starts the shell of terminal 2 as pid 1, the process that terminal 1 is to have. -/
theorem own_shells_nested : ∃ (history : List BootEvent) (s : Boot),
    Run (Boot.Turn sampleImage) sampleBoot history s ∧ (∀ e ∈ history, InOrder sampleImage e.pre e.act.1) ∧
    (∃ e ∈ history, e.startsShell = true) ∧ 3 ≤ handledTicks history ∧ ¬ OwnShells history s.kernel := by
  have computed : (Boot.performAll sampleImage
      ([.start ⟨0, 0⟩, .tick ⟨0, 0⟩] ++ setUpTick ++ switchTick ++ switchTick) sampleBoot).map (fun r =>
        (handledTicks r.1, r.1.any BootEvent.startsShell,
          decide (∀ e ∈ r.1, InOrder sampleImage e.pre e.act.1),
          [(r.2.kernel.terminals 1).activePid, (r.2.kernel.terminals 2).activePid, (r.2.kernel.pcb 1).parentPid])) =
      some (3, true, true, [1, 1, -1]) := by
    decide +kernel
  obtain ⟨r, done, values⟩ := Option.map_eq_some_iff.mp computed
  simp only [Prod.mk.injEq, List.any_eq_true, decide_eq_true_eq, List.cons.injEq, and_true] at values
  obtain ⟨ticks, started, order, _, third, orphan⟩ := values
  refine ⟨r.1, r.2, Boot.performAll_run done, order, started, ticks.ge, fun own => ?_⟩
  obtain ⟨chain, line, last⟩ := own.chains 2
  rw [third] at line
  rw [line.orphan_alone orphan] at last
  cases last

end UnixLite
