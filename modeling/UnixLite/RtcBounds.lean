import UnixLite.Startup
import UnixLite.RtcFiles

namespace UnixLite

open Transition

/-- Every process has a rate that `rtc_write` accepts. -/
def RatesInRange (k : Kernel) : Prop := ∀ p, 2 ≤ k.processRtc p ∧ k.processRtc p ≤ 1024

theorem RatesInRange.same {k k' : Kernel} (ok : RatesInRange k) (same : k'.processRtc = k.processRtc) :
    RatesInRange k' := by
  intro p
  rw [same]
  exact ok p

/-- Every step keeps the rates in range. -/
theorem RatesInRange.step {fs : FsImage} {k k' : Kernel} {l : Act × Reply} (ok : RatesInRange k)
    (move : UnixLite.Step fs k l k') : RatesInRange k' := by
  intro p
  have old := ok p
  cases step_rtc p move with
  | kept _ _ rate =>
    rw [rate]
    exact old
  | opened _ _ _ _ _ rate =>
    rw [rate]
    omega
  | closed _ _ _ _ rate =>
    rw [rate]
    omega
  | written _ _ _ accepted _ _ rate =>
    rw [rate]
    exact accepted
  | left _ _ rate =>
    rw [rate]
    split
    · omega
    · exact old
  | started _ _ _ rate =>
    rw [rate]
    exact old

/-- What a tick of the set-up that starts no shell leaves of the processes. -/
structure Kernel.Refused (k k' : Kernel) : Prop where
  curPid : k'.curPid = k.curPid
  pidArray : k'.pidArray = k.pidArray
  parentPid : ∀ p, (k'.pcb p).parentPid = (k.pcb p).parentPid
  activePid : ∀ t : Fin 3, (k'.terminals t).activePid = t.val ∨
    (k'.terminals t).activePid = (k.terminals t).activePid

/-- Without a free slot, or without a shell, a tick of the set-up starts none. -/
theorem Kernel.pitHandler_inSetup {fs : FsImage} {k k' : Kernel} {regs execRegs : Regs} {r : Reply}
    (inSetup : k.terminalInit < 3) (run : (k.pitHandler fs regs execRegs).outcome = some (k', r)) :
    (ShellPresent fs ∧ ∃ pid, freePid k.pidArray = some pid) ∨ k.Refused k' := by
  rw [k.pitHandler_launches fs regs execRegs inSetup] at run
  obtain ⟨_, curPid, pidArray, _, others, _⟩ :=
    (k.saveContext regs).launchTerminal_parts ⟨k.terminalInit, inSetup⟩
  rcases sysExecute_outcome run with ⟨prev, v, rfl, _⟩ | ⟨_, pid, _, started⟩
  · refine Or.inr ⟨curPid, pidArray, ?_, ?_⟩
    · exact fun p => k.launchTerminal_field regs _ Pcb.parentPid (fun _ => rfl) p
    · intro t
      by_cases here : t = ⟨k.terminalInit, inSetup⟩
      · subst here
        exact Or.inl (by simp [launchTerminal, setTerm])
      · exact Or.inr (others t here)
  · have slot := started.slot
    rw [pidArray] at slot
    exact Or.inl ⟨started.present, pid, slot⟩

/-- Every process in use has its pid in `pids`, and so has every process that
one of them returns to. -/
structure PidsKnown (pids : Set Int) (k : Kernel) : Prop where
  range : ∀ p ∈ pids, 0 ≤ p ∧ p ≤ 5
  taken : ∀ p, 0 ≤ p → p ≤ 5 → k.pidArray p ≠ 0 → p ∈ pids
  parent : ∀ p ∈ pids, (k.pcb p).parentPid = -1 ∨ (k.pcb p).parentPid ∈ pids
  current : k.curPid ∈ pids
  active : ∀ t, (k.terminals t).activePid ∈ pids

/-- The pids by which the handler looks up its rates are entries of `process_rtc`. -/
def PidsInRange (k : Kernel) : Prop :=
  ∀ t, 0 ≤ (k.terminals t).activePid ∧ (k.terminals t).activePid ≤ 5

theorem PidsInRange.same {k k' : Kernel} (ok : PidsInRange k)
    (same : ∀ t, (k'.terminals t).activePid = (k.terminals t).activePid) : PidsInRange k' := by
  intro t
  rw [same]
  exact ok t

namespace PidsKnown

variable {fs : FsImage} {pids : Set Int} {k k' : Kernel}

theorem inRange (ok : PidsKnown pids k) : PidsInRange k := fun t => ok.range _ (ok.active t)

/-- No process enters, none gets another parent, and those in charge are known. -/
theorem keep (ok : PidsKnown pids k)
    (taken : ∀ p, 0 ≤ p → p ≤ 5 → k'.pidArray p ≠ 0 → k.pidArray p ≠ 0)
    (parentPid : ∀ p, (k'.pcb p).parentPid = (k.pcb p).parentPid) (current : k'.curPid ∈ pids)
    (active : ∀ t, (k'.terminals t).activePid ∈ pids) : PidsKnown pids k' where
  range := ok.range
  taken p lower upper used := ok.taken p lower upper (taken p lower upper used)
  parent p member := by
    rw [parentPid]
    exact ok.parent p member
  current := current
  active := active

theorem same (ok : PidsKnown pids k) (same : SameChains k k') : PidsKnown pids k' := by
  refine ok.keep ?_ same.parentPid ?_ ?_
  · intro p lower upper used
    rwa [same.pidArray p lower upper] at used
  · rw [same.curPid]
    exact ok.current
  · intro t
    rw [same.activePid]
    exact ok.active t

/-- A process enters as `pid`, without a parent or with a known one. -/
theorem enter (ok : PidsKnown pids k) {pid : Int} (range : 0 ≤ pid ∧ pid ≤ 5)
    (taken : ∀ p, p ≠ pid → k'.pidArray p ≠ 0 → k.pidArray p ≠ 0) (current : k'.curPid = pid)
    (parent : (k'.pcb pid).parentPid = -1 ∨ (k'.pcb pid).parentPid ∈ pids)
    (others : ∀ p, p ≠ pid → (k'.pcb p).parentPid = (k.pcb p).parentPid)
    (active : ∀ t, (k'.terminals t).activePid = pid ∨
      (k'.terminals t).activePid = (k.terminals t).activePid) : PidsKnown (insert pid pids) k' := by
  constructor
  case range =>
    intro p member
    rcases Set.mem_insert_iff.mp member with rfl | old
    · exact range
    · exact ok.range p old
  case taken =>
    intro p lower upper used
    by_cases new : p = pid
    · exact Set.mem_insert_iff.mpr (Or.inl new)
    · exact Set.mem_insert_of_mem _ (ok.taken p lower upper (taken p new used))
  case parent =>
    intro p member
    by_cases new : p = pid
    · rw [new]
      exact parent.imp_right (Set.mem_insert_of_mem _)
    · have old := (Set.mem_insert_iff.mp member).resolve_left new
      rw [others p new]
      exact (ok.parent p old).imp_right (Set.mem_insert_of_mem _)
  case current => exact Set.mem_insert_iff.mpr (Or.inl current)
  case active =>
    intro t
    rcases active t with new | old
    · exact Set.mem_insert_iff.mpr (Or.inl new)
    · rw [old]
      exact Set.mem_insert_of_mem _ (ok.active t)

theorem started (ok : PidsKnown pids k) {command : List UInt8} {regs : Regs} {pid : Int}
    (run : k.Started fs command regs pid k') : PidsKnown (insert pid pids) k' := by
  obtain ⟨lower, upper, _⟩ := freePid_some run.slot
  refine ok.enter ⟨lower, upper⟩ ?_ run.curPid ?_ ?_ ?_
  · intro p other used
    rwa [run.pidArray, Function.update_of_ne other] at used
  · rw [run.parentPid]
    split
    · exact Or.inl rfl
    · exact Or.inr ok.current
  · intro p other
    rw [run.otherPcb p other]
  · intro t
    by_cases here : t = k.ta
    · rw [here]
      exact Or.inl run.activePid
    · exact Or.inr (congrArg Term.activePid (run.otherTerminal t here))

/-- The slot of a base shell is free for its successor, which no process has called. -/
theorem restarted (ok : PidsKnown pids k) (present : ShellPresent fs) {regs : Regs} {r : Reply}
    (run : (k.haltBase fs regs).outcome = some (k', r)) :
    PidsKnown (insert k'.curPid pids) k' ∧ ∃ eip, r = .entered eip := by
  obtain ⟨lower, upper⟩ := ok.range _ ok.current
  cases slot : freePid k.freeBase.pidArray with
  | none => exact absurd (by simp [Kernel.freeBase]) (freePid_none slot lower upper)
  | some pid =>
    obtain ⟨started, entered⟩ := present.started slot run
    have otherPcb : ∀ p, p ≠ pid → k'.pcb p = k.pcb p := started.otherPcb
    have activePid : (k'.terminals k.ta).activePid = pid := started.activePid
    have otherTerminal : ∀ t, t ≠ k.ta → k'.terminals t = k.terminals t := started.otherTerminal
    obtain ⟨pidLower, pidUpper, _⟩ := freePid_some slot
    rw [started.curPid]
    refine ⟨ok.enter ⟨pidLower, pidUpper⟩ ?_ started.curPid ?_ ?_ ?_, entered⟩
    · intro p other used
      rw [started.pidArray, Function.update_of_ne other] at used
      by_cases freed : p = k.curPid
      · simp [freed, Kernel.freeBase] at used
      · simpa [Kernel.freeBase, freed] using used
    · rw [started.parentPid]
      exact Or.inl (ite_self _)
    · intro p other
      rw [otherPcb p other]
    · intro t
      by_cases here : t = k.ta
      · rw [here]
        exact Or.inl activePid
      · exact Or.inr (congrArg Term.activePid (otherTerminal t here))

theorem setUp (ok : PidsKnown pids k) {t : Fin 3} {regs : Regs} {pid : Int} (tick : k.SetUp t regs pid k') :
    PidsKnown (insert pid pids) k' := by
  obtain ⟨lower, upper, _⟩ := freePid_some tick.slot
  refine ok.enter ⟨lower, upper⟩ ?_ tick.curPid ?_ tick.otherParent ?_
  · intro p other used
    rwa [tick.pidArray, Function.update_of_ne other] at used
  · rw [tick.parentPid]
    split
    · exact Or.inl rfl
    · exact Or.inr ok.current
  · intro u
    by_cases here : u = t
    · rw [here]
      exact Or.inl tick.activePid
    · exact Or.inr (tick.otherActive u here)

theorem halted (ok : PidsKnown pids k) (child : k.curPcb.parentPid ≠ -1) : PidsKnown pids k.haltBody := by
  have halt := k.haltBody_halted
  have known : k.curPcb.parentPid ∈ pids := (ok.parent _ ok.current).resolve_left child
  refine ok.keep ?_ halt.parentPid ?_ ?_
  · intro p _ _ used
    rw [halt.pidArray] at used
    by_cases freed : p = k.curPid
    · simp [freed] at used
    · rwa [Function.update_of_ne freed] at used
  · rwa [halt.curPid]
  · intro t
    by_cases here : t = k.ta
    · rw [here, halt.activePid]
      exact known
    · rw [halt.otherActive t here]
      exact ok.active t

theorem switched (ok : PidsKnown pids k) {regs : Regs} (tick : k.Switched regs k') : PidsKnown pids k' := by
  refine ok.keep ?_ tick.parentPid ?_ ?_
  · intro p _ _ used
    rwa [tick.pidArray] at used
  · rw [tick.curPid]
    exact ok.active _
  · intro t
    rw [tick.activePid]
    exact ok.active t

/-- A tick of the set-up with no slot free: the terminal gets the pid of a process in use. -/
theorem refused (ok : PidsKnown pids k) (full : freePid k.pidArray = none) (launch : k.Refused k') :
    PidsKnown pids k' := by
  refine ok.keep ?_ launch.parentPid ?_ ?_
  · intro p _ _ used
    rwa [launch.pidArray] at used
  · rw [launch.curPid]
    exact ok.current
  · intro t
    rcases launch.activePid t with named | same
    · have small := t.isLt
      rw [named]
      exact ok.taken _ (by omega) (by omega) (freePid_none full (by omega) (by omega))
    · rw [same]
      exact ok.active t

/-- Every step keeps the processes in use known; a new one has been started. -/
theorem step (ok : PidsKnown pids k) (present : ShellPresent fs) {l : Act × Reply}
    (move : UnixLite.Step fs k l k') :
    ∃ known, PidsKnown known k' ∧ ∀ p ∈ known, p ∈ pids ∨ Starts p ⟨k, l, k'⟩ = true := by
  have new {act : Act} {r : Reply} (entered : ∃ eip, r = .entered eip) (p : Int)
      (member : p ∈ insert k'.curPid pids) : p ∈ pids ∨ Starts p ⟨k, (act, r), k'⟩ = true := by
    obtain ⟨eip, rfl⟩ := entered
    rcases Set.mem_insert_iff.mp member with rfl | old
    · exact Or.inr (by simp [Starts])
    · exact Or.inl old
  cases step_effect move with
  | same _ _ _ same => exact ⟨_, ok.same same.chains, fun _ => Or.inl⟩
  | started run =>
    have known := ok.started run
    rw [← run.curPid] at known
    exact ⟨_, known, new ⟨_, rfl⟩⟩
  | resumed child => exact ⟨_, ok.halted child, fun _ => Or.inl⟩
  | base _ run =>
    obtain ⟨known, entered⟩ := ok.restarted present run
    exact ⟨_, known, new entered⟩
  | switched _ tick => exact ⟨_, ok.switched tick, fun _ => Or.inl⟩
  | setup inSetup run =>
    cases slot : freePid k.pidArray with
    | some pid =>
      obtain ⟨setUp, entered⟩ := Kernel.pitHandler_setUp present inSetup slot run
      have known := ok.setUp setUp
      rw [← setUp.curPid] at known
      exact ⟨_, known, new entered⟩
    | none =>
      rcases Kernel.pitHandler_inSetup inSetup run with ⟨_, pid, free⟩ | launch
      · exact absurd (slot.symm.trans free) (by simp)
      · exact ⟨_, ok.refused slot launch, fun _ => Or.inl⟩

/-- The lowest `m` pids, when those are all the processes there are. -/
theorem orphans {m : Nat} (ok : Orphans m k) (small : m ≤ 6)
    (active : ∀ t, 0 ≤ (k.terminals t).activePid ∧ (k.terminals t).activePid < m) :
    PidsKnown {p | 0 ≤ p ∧ p < m} k where
  range p member := ⟨member.1, by have := member.2; omega⟩
  taken p lower upper used := by
    refine ⟨lower, ?_⟩
    rw [ok.slots p lower upper] at used
    by_contra above
    exact used (if_neg above)
  parent p member := Or.inl (ok.orphan p member.1 member.2)
  current := ok.current
  active := active

end PidsKnown

/-- A system that has started nothing yet, or one whose processes are known. -/
inductive Manned (s : Startup) : Prop
  | entry : s.phase = .entry → Unstarted s.kernel → Manned s
  | process (pids : Set Int) : s.phase = .process → PidsKnown pids s.kernel → Manned s

/-- What the first step of a system with a shell leaves: nothing started yet,
or the first process, known. -/
theorem Unstarted.step {fs : FsImage} {s s' : Startup} {l : StartupAct × Reply}
    (unstarted : Unstarted s.kernel) (waiting : s.phase = .entry) (present : ShellPresent fs)
    (move : Startup.Step fs s l s') : (s'.phase = .entry ∧ Unstarted s'.kernel) ∨
      (s'.phase = .process ∧ PidsKnown {p | 0 ≤ p ∧ p < (1 : Nat)} s'.kernel ∧ s'.kernel.curPid = 0 ∧
        ∃ eip, l.2 = .entered eip) := by
  obtain ⟨act, r⟩ := l
  rcases Startup.step_cases move with ⟨regs, rfl, _, after, run⟩ | ⟨a, rfl, able, after, run⟩
  · obtain ⟨started, eip, rfl⟩ := present.started unstarted.slot run
    refine Or.inr ⟨after, PidsKnown.orphans (unstarted.started started).orphans (by omega) ?_,
      started.curPid, eip, rfl⟩
    intro t
    by_cases here : t = s.kernel.ta
    · rw [here, started.activePid]
      omega
    · rw [congrArg Term.activePid (started.otherTerminal t here), unstarted.active]
      omega
  · simp only at after run
    have interrupt := interrupt_of_idle able (by simp [waiting])
    cases tick : a.isTick with
    | false =>
      obtain ⟨same, notEntered⟩ := interrupt_same run interrupt tick
      exact Or.inl ⟨by rw [after, next_same notEntered, waiting], unstarted.same same⟩
    | true =>
      obtain ⟨regs, execRegs, rfl⟩ := isTick_iff.mp tick
      have count := unstarted.terminalInit
      obtain ⟨setUp, eip, rfl⟩ := Kernel.pitHandler_setUp present (by omega) unstarted.slot run
      have orphans := (unstarted.tick (Fin.ext count) setUp.toPlaced).orphans
      refine Or.inr ⟨after, PidsKnown.orphans orphans (by omega) ?_, setUp.curPid, eip, rfl⟩
      intro t
      by_cases here : t = ⟨s.kernel.terminalInit, by omega⟩
      · rw [here, setUp.activePid]
        omega
      · rw [setUp.otherActive t here, unstarted.active]
        omega

theorem Manned.step {fs : FsImage} {s s' : Startup} {l : StartupAct × Reply} (ok : Manned s)
    (present : ShellPresent fs) (move : Startup.Step fs s l s') : Manned s' := by
  cases ok with
  | entry waiting unstarted =>
    rcases unstarted.step waiting present move with ⟨still, idle⟩ | ⟨running, known, _⟩
    · exact .entry still idle
    · exact .process _ running known
  | process pids running known =>
    rcases Startup.step_cases move with ⟨_, _, waiting, _⟩ | ⟨a, _, _, after, run⟩
    · exact absurd (waiting.symm.trans running) (by decide)
    · rw [running, process_next] at after
      obtain ⟨pids, known, _⟩ := known.step present run
      exact .process pids after known

/-- A step that stays out of programs starts none. -/
theorem PidsInRange.step {fs : FsImage} {s s' : Startup} {l : StartupAct × Reply}
    (ok : PidsInRange s.kernel) (idle : s.phase ≠ .process) (absent : ¬ ShellPresent fs)
    (move : Startup.Step fs s l s') : PidsInRange s'.kernel := by
  obtain ⟨act, r⟩ := l
  rcases Startup.step_cases move with ⟨regs, rfl, _, _, run⟩ | ⟨a, rfl, able, _, run⟩
  · rcases step_execute run with ⟨prev, _, same, _⟩ | ⟨_, _, _, started⟩
    · rw [same]
      exact ok.same fun _ => rfl
    · exact absurd started.present absent
  · simp only at run
    have interrupt := interrupt_of_idle able idle
    cases tick : a.isTick with
    | false => exact ok.same (interrupt_same run interrupt tick).1.activePid
    | true =>
      obtain ⟨regs, execRegs, rfl⟩ := isTick_iff.mp tick
      cases step_effect run with
      | same _ notTick => exact absurd rfl (notTick regs execRegs)
      | switched _ tick => exact ok.same tick.activePid
      | setup inSetup run =>
        rcases Kernel.pitHandler_inSetup inSetup run with ⟨present, _⟩ | launch
        · exact absurd present absent
        · intro t
          rcases launch.activePid t with named | same
          · rw [named]
            omega
          · rw [same]
            exact ok t

/-- What the handler relies on, with and without a shell to start. -/
structure RtcSafe (fs : FsImage) (s : Startup) : Prop where
  rates : RatesInRange s.kernel
  manned : ShellPresent fs → Manned s
  idle : ¬ ShellPresent fs → s.phase ≠ .process ∧ PidsInRange s.kernel

namespace RtcSafe

variable {fs : FsImage} {s s' : Startup}

theorem pids (safe : RtcSafe fs s) : PidsInRange s.kernel := by
  by_cases present : ShellPresent fs
  · cases safe.manned present with
    | entry _ unstarted =>
      intro t
      rw [unstarted.active]
      omega
    | process _ _ known => exact known.inRange
  · exact (safe.idle present).2

theorem step (safe : RtcSafe fs s) {l : StartupAct × Reply} (move : Startup.Step fs s l s') :
    RtcSafe fs s' where
  rates := by
    rcases Startup.step_cases move with ⟨_, _, _, _, run⟩ | ⟨_, _, _, _, run⟩
    · exact safe.rates.step run
    · exact safe.rates.step run
  manned present := (safe.manned present).step present move
  idle absent := by
    obtain ⟨idle, pids⟩ := safe.idle absent
    exact ⟨fun running => absent (Startup.entered_present move idle running), pids.step idle absent move⟩

/-- What leaves the processes and the rates alone keeps the handler safe. -/
theorem same (safe : RtcSafe fs s) (same : SameProcesses s.kernel s'.kernel)
    (rates : s'.kernel.processRtc = s.kernel.processRtc) (phase : s'.phase = s.phase) : RtcSafe fs s' where
  rates := safe.rates.same rates
  manned present := by
    cases safe.manned present with
    | entry waiting unstarted => exact .entry (phase.trans waiting) (unstarted.same same)
    | process pids running known => exact .process pids (phase.trans running) (known.same same.chains)
  idle absent := by
    obtain ⟨idle, pids⟩ := safe.idle absent
    exact ⟨phase ▸ idle, pids.same same.activePid⟩

theorem entry (fs : FsImage) (pcbs : Int → Pcb) (ram : Nat → UInt8) (ptFrame ptUserFrame : BitVec 20) :
    RtcSafe fs ⟨entryState pcbs ram ptFrame ptUserFrame, .entry⟩ where
  rates p := by
    change 2 ≤ (1024 : Int) ∧ (1024 : Int) ≤ 1024
    omega
  manned _ := .entry rfl (entry_unstarted pcbs ram ptFrame ptUserFrame)
  idle _ := by
    refine ⟨by simp, fun t => ?_⟩
    rw [(entry_unstarted pcbs ram ptFrame ptUserFrame).active]
    omega

end RtcSafe

end UnixLite
