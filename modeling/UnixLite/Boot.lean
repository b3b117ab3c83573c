import UnixLite.Program

namespace UnixLite

open Transition

namespace Kernel

/-- Terminal `t` has been set up with a shell of its own, which runs as `pid`. -/
structure Placed (k : Kernel) (t : Fin 3) (pid : Int) (k' : Kernel) : Prop where
  ta : k'.ta = t
  curPid : k'.curPid = pid
  pidArray : k'.pidArray = Function.update k.pidArray pid 1
  parentPid : (k'.pcb pid).parentPid = if pid ≤ 2 then -1 else k.curPid
  otherParent : ∀ q, q ≠ pid → (k'.pcb q).parentPid = (k.pcb q).parentPid
  activePid : (k'.terminals t).activePid = pid
  otherActive : ∀ u, u ≠ t → (k'.terminals u).activePid = (k.terminals u).activePid
  terminalInit : k'.terminalInit = k.terminalInit + 1

/-- What a tick has done that sets up terminal `t` and starts its shell as `pid`. -/
structure SetUp (k : Kernel) (t : Fin 3) (regs : Regs) (pid : Int) (k' : Kernel) : Prop extends
    Placed k t pid k' where
  slot : freePid k.pidArray = some pid
  savedEbp : (k.terminals k.ta).activePid ≠ pid →
    (k'.pcb (k.terminals k.ta).activePid).curEbp = regs.ebp
  savedEsp : (k.terminals k.ta).activePid ≠ pid →
    (k'.pcb (k.terminals k.ta).activePid).curEsp = regs.esp
  otherPcb : ∀ q, q ≠ (k.terminals k.ta).activePid → q ≠ pid → k'.pcb q = k.pcb q
  programPage : k'.pd 32 = { k.pd 32 with p := true, addr := programFrame pid }
  tssEsp0 : k'.tssEsp0 = kernelStack pid

theorem launchTerminal_parts (k : Kernel) (t : Fin 3) :
    (k.launchTerminal t).ta = t ∧ (k.launchTerminal t).curPid = k.curPid ∧
    (k.launchTerminal t).pidArray = k.pidArray ∧ (k.launchTerminal t).pcb = k.pcb ∧
    (∀ u, u ≠ t → ((k.launchTerminal t).terminals u).activePid = (k.terminals u).activePid) ∧
    (k.launchTerminal t).terminalInit = k.terminalInit + 1 ∧ (k.launchTerminal t).pd = k.pd ∧
    (k.launchTerminal t).readIndex = k.readIndex := by
  have frame := k.terminalSwitch_ttyOnly (t.val + 1)
  refine ⟨rfl, frame.curPid, frame.pidArray, frame.pcb, ?_, ?_, frame.pd, frame.readIndex⟩
  · intro u other
    have same := frame.activePid u
    simpa [launchTerminal, setTerm, other] using same
  · exact congrArg (· + 1) frame.terminalInit

/-- What is left of the PCBs when `sys_execute` is called for the next terminal. -/
theorem launchTerminal_field {β : Type} (k : Kernel) (regs : Regs) (t : Fin 3) (f : Pcb → β)
    (keeps : ∀ b : Pcb, f { b with curEsp := regs.esp, curEbp := regs.ebp } = f b) (q : Int) :
    f (((k.saveContext regs).launchTerminal t).pcb q) = f (k.pcb q) := by
  rw [((k.saveContext regs).launchTerminal_parts t).2.2.2.1]
  exact k.saveContext_field regs f keeps q

/-- While a shell can be started, a tick of the set-up sets up the next terminal. -/
theorem pitHandler_setUp {fs : FsImage} {k k' : Kernel} {regs execRegs : Regs} {r : Reply}
    (present : ShellPresent fs) (inSetup : k.terminalInit < 3) {pid : Int}
    (slot : freePid k.pidArray = some pid)
    (run : (k.pitHandler fs regs execRegs).outcome = some (k', r)) :
    SetUp k ⟨k.terminalInit, inSetup⟩ regs pid k' ∧ ∃ eip, r = .entered eip := by
  obtain ⟨ta, curPid, pidArray, pcb, others, terminalInit, pd, _⟩ :=
    (k.saveContext regs).launchTerminal_parts ⟨k.terminalInit, inSetup⟩
  rw [k.pitHandler_launches fs regs execRegs inSetup] at run
  generalize (k.saveContext regs).launchTerminal ⟨k.terminalInit, inSetup⟩ = k1
    at ta curPid pidArray pcb others terminalInit pd run
  have free : freePid k1.pidArray = some pid := by rw [pidArray]; exact slot
  obtain ⟨started, eip, rfl⟩ := present.started free run
  have field (q : Int) {β : Type} (f : Pcb → β) (other : q ≠ pid)
      (keeps : ∀ b : Pcb, f { b with curEsp := regs.esp, curEbp := regs.ebp } = f b) :
      f (k'.pcb q) = f (k.pcb q) := by
    rw [started.otherPcb q other, pcb]
    exact k.saveContext_field regs f keeps q
  have placed : Placed k ⟨k.terminalInit, inSetup⟩ pid k' := by
    constructor
    case ta => exact started.ta.trans ta
    case curPid => exact started.curPid
    case pidArray => rw [started.pidArray, pidArray]; rfl
    case parentPid => rw [started.parentPid, curPid]; rfl
    case otherParent => exact fun q other => field q Pcb.parentPid other (fun _ => rfl)
    case activePid => rw [← ta]; exact started.activePid
    case otherActive =>
      intro u other
      rw [started.otherTerminal u (by rw [ta]; exact other)]
      exact others u other
    case terminalInit => rw [started.terminalInit, terminalInit]; rfl
  refine ⟨⟨placed, slot, ?_, ?_, ?_, ?_, started.tssEsp0⟩, eip, rfl⟩
  case refine_1 =>
    intro other
    rw [started.otherPcb _ other, pcb]
    simp [saveContext, setPcb]
  case refine_2 =>
    intro other
    rw [started.otherPcb _ other, pcb]
    simp [saveContext, setPcb]
  case refine_3 =>
    intro q notActive notNew
    rw [started.otherPcb q notNew, pcb]
    simp [saveContext, setPcb, notActive]
  case refine_4 => rw [started.programPage, pd]; rfl

end Kernel

/-- The first `n` terminals are set up, each with its own base shell, and the
last of them is the active one. -/
structure Launching (n : Nat) (k : Kernel) : Prop where
  terminalInit : k.terminalInit = n
  ta : k.ta.val + 1 = n
  slots : ∀ p : Int, 0 ≤ p → p ≤ 5 → k.pidArray p = if p < n then 1 else 0
  active : ∀ t : Fin 3, t.val < n → (k.terminals t).activePid = t.val
  orphan : ∀ t : Fin 3, t.val < n → (k.pcb t.val).parentPid = -1
  curPid : k.curPid = k.ta.val

theorem Launching.slot {n : Nat} {k : Kernel} (stage : Launching n k) (more : n ≤ 5) :
    freePid k.pidArray = some n :=
  freePid_below stage.slots more

theorem Launching.same {n : Nat} {k k' : Kernel} (stage : Launching n k)
    (same : SameProcesses k k') : Launching n k' where
  terminalInit := same.terminalInit.trans stage.terminalInit
  ta := by rw [same.ta]; exact stage.ta
  slots p lower upper := by rw [same.pidArray]; exact stage.slots p lower upper
  active t inside := (same.activePid t).trans (stage.active t inside)
  orphan t inside := (same.parentPid t.val).trans (stage.orphan t inside)
  curPid := by rw [same.curPid, same.ta]; exact stage.curPid

theorem Launching.setUp {n : Nat} {k k' : Kernel} (stage : Launching n k) {t : Fin 3} (next : t.val = n)
    (tick : k.Placed t n k') : Launching (n + 1) k' where
  terminalInit := by rw [tick.terminalInit, stage.terminalInit]
  ta := by rw [tick.ta, next]
  slots p lower upper := by
    rw [tick.pidArray]
    by_cases new : p = n
    · simp [new]
    · rw [Function.update_of_ne new, stage.slots p lower upper]
      have same : p < n ↔ p < (n + 1 : Nat) := by omega
      simp only [same]
  active u inside := by
    by_cases new : u = t
    · rw [new, tick.activePid, next]
    · have other : u.val ≠ n := fun eq => new (Fin.ext (eq.trans next.symm))
      rw [tick.otherActive u new]
      exact stage.active u (by omega)
  orphan u inside := by
    by_cases new : u.val = n
    · have small := u.isLt
      rw [new, tick.parentPid, if_pos (by omega)]
    · rw [tick.otherParent _ (by omega)]
      exact stage.orphan u (by omega)
  curPid := by rw [tick.curPid, tick.ta, next]

/-- No process has been started and no tick handled. -/
structure Unstarted (k : Kernel) : Prop where
  terminalInit : k.terminalInit = 1
  ta : k.ta = 0
  slots : ∀ p, 0 ≤ p → p ≤ 5 → k.pidArray p = 0
  active : ∀ t, (k.terminals t).activePid = 0

theorem Unstarted.slot {k : Kernel} (stage : Unstarted k) : freePid k.pidArray = some 0 :=
  freePid_eq (by omega) (by omega) (stage.slots 0 (by omega) (by omega)) (by omega)

/-- The call in `entry` sets up the first terminal. -/
theorem Unstarted.started {fs : FsImage} {k k' : Kernel} {regs : Regs} (stage : Unstarted k)
    (run : k.Started fs shell regs 0 k') : Launching 1 k' := by
  constructor
  case terminalInit => rw [run.terminalInit, stage.terminalInit]
  case ta => rw [run.ta, stage.ta]; rfl
  case slots =>
    intro p lower upper
    rw [run.pidArray]
    by_cases first : p = 0
    · simp [first]
    · rw [Function.update_of_ne first, if_neg (by omega)]
      exact stage.slots p lower upper
  case active =>
    intro t inside
    obtain rfl : t = 0 := by omega
    have active := run.activePid
    rw [stage.ta] at active
    exact active
  case orphan =>
    intro t inside
    obtain rfl : t = 0 := by omega
    exact run.parentPid
  case curPid => rw [run.curPid, run.ta, stage.ta]; rfl

theorem entry_unstarted (pcbs : Int → Pcb) (ram : Nat → UInt8) (ptFrame ptUserFrame : BitVec 20) :
    Unstarted (entryState pcbs ram ptFrame ptUserFrame) :=
  ⟨rfl, rfl, fun _ _ _ => rfl, fun _ => rfl⟩

/-- The boot of the system with the first `n` terminals set up: `entry`
executes the first shell and each tick sets up another terminal. The steps
between do not touch the processes. -/
inductive Booting (fs : FsImage) (first : Kernel) : Nat → List Happening → Kernel → Prop
  | shell {regs r k} : Step fs first (.execute shell regs, r) k →
      Booting fs first 1 [⟨first, (.execute shell regs, r), k⟩] k
  | tick {n history k regs execRegs r k'} : Booting fs first n history k → n < 3 →
      Step fs k (.tick regs execRegs, r) k' →
      Booting fs first (n + 1) (⟨k, (.tick regs execRegs, r), k'⟩ :: history) k'
  | other {n history k l k'} : Booting fs first n history k → (∀ command regs, l.1 ≠ .execute command regs) →
      (∀ status regs, l.1 ≠ .halt status regs) → (∀ regs execRegs, l.1 ≠ .tick regs execRegs) →
      Step fs k l k' → Booting fs first n (⟨k, l, k'⟩ :: history) k'

theorem Booting.run {fs : FsImage} {first k : Kernel} {n : Nat} {history : List Happening}
    (boot : Booting fs first n history k) : Runs fs first history k := by
  induction boot with
  | shell step => exact .next .start step
  | tick _ _ step ih => exact .next ih step
  | other _ _ _ _ step ih => exact .next ih step

/-- Steps other than `execute`, `halt` and ticks leave the processes alone. -/
theorem step_same {fs : FsImage} {k k' : Kernel} {l : Act × Reply} (step : Step fs k l k')
    (notExecute : ∀ command regs, l.1 ≠ .execute command regs)
    (notHalt : ∀ status regs, l.1 ≠ .halt status regs)
    (notTick : ∀ regs execRegs, l.1 ≠ .tick regs execRegs) : SameProcesses k k' := by
  cases step_effect step with
  | same _ _ _ frame => exact frame
  | started => exact absurd rfl (notExecute _ _)
  | resumed => exact absurd rfl (notHalt _ _)
  | base => exact absurd rfl (notHalt _ _)
  | switched => exact absurd rfl (notTick _ _)
  | setup => exact absurd rfl (notTick _ _)

/-- A tick of the boot sets up one more terminal. -/
theorem Launching.tick {fs : FsImage} {k k' : Kernel} {n : Nat} {regs execRegs : Regs} {r : Reply}
    (stage : Launching n k) (present : ShellPresent fs) (more : n < 3)
    (step : Step fs k (.tick regs execRegs, r) k') : k.SetUp ⟨n, more⟩ regs n k' := by
  have count := stage.terminalInit
  subst count
  exact (Kernel.pitHandler_setUp present more (stage.slot (by omega)) step).1

/-- The first shell, started from the state that `entry` leaves. -/
theorem entry_started {fs : FsImage} {pcbs : Int → Pcb} {ram : Nat → UInt8}
    {ptFrame ptUserFrame : BitVec 20} (present : ShellPresent fs) {regs : Regs} {r : Reply} {k : Kernel}
    (step : Step fs (entryState pcbs ram ptFrame ptUserFrame) (.execute shell regs, r) k) :
    Kernel.Started fs (entryState pcbs ram ptFrame ptUserFrame) shell regs 0 k := by
  exact (present.started (entry_unstarted pcbs ram ptFrame ptUserFrame).slot step).1

theorem Booting.launching {fs : FsImage} {pcbs : Int → Pcb} {ram : Nat → UInt8}
    {ptFrame ptUserFrame : BitVec 20} (present : ShellPresent fs) {n : Nat} {history : List Happening}
    {k : Kernel} (boot : Booting fs (entryState pcbs ram ptFrame ptUserFrame) n history k) :
    Launching n k := by
  induction boot with
  | shell step =>
    exact (entry_unstarted pcbs ram ptFrame ptUserFrame).started (entry_started present step)
  | @tick n history k regs execRegs r k' before more step ih =>
    exact ih.setUp rfl (ih.tick present more step).toPlaced
  | other before notExecute notHalt notTick step ih =>
    exact ih.same (step_same step notExecute notHalt notTick)

/-- The shell's image fits the program page. -/
def ShellFits (fs : FsImage) : Prop :=
  ∃ dentry, findProgram fs shell = some dentry ∧
    (readData fs dentry.inodeNum 0 (fs.fileLength dentry.inodeNum)).2.length ≤ 0x3B8000

theorem ShellFits.present {fs : FsImage} (fits : ShellFits fs) : ShellPresent fs := by
  obtain ⟨dentry, found, _⟩ := fits
  exact ⟨dentry, found⟩

theorem ShellFits.starts {fs : FsImage} (fits : ShellFits fs) (k : Kernel) (regs : Regs) {pid : Int}
    (slot : freePid k.pidArray = some pid) :
    ∃ k' eip, k.sysExecute fs shell regs = .started k' eip := by
  obtain ⟨dentry, found, small⟩ := fits
  have parsed : findProgram fs (parseCommand (cString shell)).1 = some dentry := by
    rw [parse_shell]
    exact found
  exact k.sysExecute_starts regs parsed slot small

/-- A tick of the set-up gets through. -/
theorem Launching.ticks {fs : FsImage} {k : Kernel} {n : Nat} (stage : Launching n k)
    (fits : ShellFits fs) (more : n < 3) (regs execRegs : Regs) :
    ∃ r k', Step fs k (.tick regs execRegs, r) k' := by
  have count := stage.terminalInit
  subst count
  have inSetup : k.terminalInit < 3 := more
  have slots : ((k.saveContext regs).launchTerminal ⟨_, inSetup⟩).pidArray = k.pidArray :=
    ((k.saveContext regs).launchTerminal_parts ⟨_, inSetup⟩).2.2.1
  obtain ⟨k', eip, run⟩ := fits.starts ((k.saveContext regs).launchTerminal ⟨_, inSetup⟩) execRegs
    (by rw [slots]; exact stage.slot (by omega))
  refine ⟨.entered eip, k', ?_⟩
  have launched := k.pitHandler_launches fs regs execRegs inSetup
  rw [run] at launched
  exact launched

/-- The boot gets through. -/
theorem boot_completes {fs : FsImage} (fits : ShellFits fs) (pcbs : Int → Pcb) (ram : Nat → UInt8)
    (ptFrame ptUserFrame : BitVec 20) (regs : Regs) :
    ∃ history k, Booting fs (entryState pcbs ram ptFrame ptUserFrame) 3 history k := by
  obtain ⟨k1, eip, run⟩ := fits.starts (entryState pcbs ram ptFrame ptUserFrame) regs
    (show freePid _ = some 0 from rfl)
  have entered : Step fs (entryState pcbs ram ptFrame ptUserFrame) (.execute shell regs, .entered eip)
      k1 := by
    simp only [Step, perform, run, ExecResult.outcome]
  have one := Booting.shell entered
  obtain ⟨r2, k2, second⟩ := (one.launching fits.present).ticks fits (by omega) regs regs
  have two := one.tick (by omega) second
  obtain ⟨r3, k3, third⟩ := (two.launching fits.present).ticks fits (by omega) regs regs
  exact ⟨_, k3, two.tick (by omega) third⟩

/-- The tick after the boot ends the set-up. -/
theorem Launching.finishes {k : Kernel} (stage : Launching 3 k) (fs : FsImage) (regs execRegs : Regs) :
    ∃ r k', Step fs k (.tick regs execRegs, r) k' ∧ k.Switched regs k' ∧ k'.termInitDone = true := by
  have count := stage.terminalInit
  obtain ⟨k', tick, _, run⟩ := k.pitHandler_switched fs regs execRegs count.ge
  have move : Step fs k (.tick regs execRegs, .loaded (k'.pcb k'.curPid).curEbp
      (k'.pcb k'.curPid).curEsp) k' := by
    simp only [Step, perform, run, TickResult.outcome]
  exact ⟨_, k', move, tick, by simp [tick.termInitDone, count]⟩

/-- A process and a memory with nothing in them. -/
def blankPcb : Pcb := ⟨fun _ => closedFd, 0, 0, 0, 0, 0, fun _ => 0⟩

/-- The state `entry` leaves for the sample, with all memory zero before. -/
def sampleEntry : Kernel := entryState (fun _ => blankPcb) (fun _ => 0) 0 0

/-- The acts that set up the three terminals. -/
def setUpActs : List Act := [.execute shell ⟨0, 0⟩, .tick ⟨0, 0⟩ ⟨0, 0⟩, .tick ⟨0, 0⟩ ⟨0, 0⟩]

theorem setUpActs_booting {fs : FsImage} {first : Kernel} {b : List Happening × Kernel}
    (done : performAll fs setUpActs ([], first) = some b) : Booting fs first 3 b.1 b.2 := by
  have replayed (act : Act) (k k' : Kernel) (l : Act × Reply)
      (taken : ((perform fs k act).map fun s => ((act, s.2), s.1)) = some (l, k')) :
      Step fs k (act, l.2) k' ∧ l.1 = act := by
    obtain ⟨s, moved, same⟩ := Option.map_eq_some_iff.mp taken
    cases same
    exact ⟨moved, rfl⟩
  simp only [performAll, setUpActs, replay] at done
  split at done <;> try cases done
  rename_i l1 k1 one
  split at done <;> try cases done
  rename_i l2 k2 two
  split at done <;> try cases done
  rename_i l3 k3 three
  obtain ⟨started, act1⟩ := replayed _ _ _ _ one
  obtain ⟨second, act2⟩ := replayed _ _ _ _ two
  obtain ⟨third, act3⟩ := replayed _ _ _ _ three
  obtain ⟨a1, r1⟩ := l1
  obtain ⟨a2, r2⟩ := l2
  obtain ⟨a3, r3⟩ := l3
  cases act1
  cases act2
  cases act3
  exact .tick (.tick (.shell started) (by omega) second) (by omega) third

theorem sampleImage_fits : ShellFits sampleImage :=
  ⟨_, sampleImage_program, by rw [sampleImage_length]; decide⟩

end UnixLite
