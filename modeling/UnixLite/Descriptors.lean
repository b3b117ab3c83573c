import UnixLite.Boot

namespace UnixLite

open Transition

/-- The entry `fd` of the table of process `p`. -/
def Kernel.entry (k : Kernel) (p : Int) (fd : Nat) : Fd := (k.pcb p).fileDescriptorTable fd

/-- The event starts a program as process `p`. -/
def Starts (p : Int) (e : Happening) : Bool :=
  match e.act.2 with
  | .entered _ => e.post.curPid == p
  | _ => false

/-- The event is a halt of process `p`. -/
def Halts (p : Int) (e : Happening) : Bool :=
  match e.act.1 with
  | .halt _ _ => e.pre.curPid == p
  | _ => false

theorem Kernel.launchTerminal_entry (k : Kernel) (regs : Regs) (t : Fin 3) (p : Int) (i : Nat) :
    ((k.saveContext regs).launchTerminal t).entry p i = k.entry p i :=
  k.launchTerminal_field regs t (fun b => b.fileDescriptorTable i) (fun _ => rfl) p

/-- What the step of an event does to the table of process `p`. -/
inductive TableEffect (fs : FsImage) (p : Int) (e : Happening) : Prop
  | fresh : Starts p e = true → (∀ i, i < 8 → e.post.entry p i = freshTable i) → TableEffect fs p e
  | ended : Starts p e = false → Halts p e = true → TableEffect fs p e
  | openFile {name} : e.pre.curPid = p → e.act = (.openFile name, .value (e.pre.sysOpen fs name).2 []) →
      e.post = (e.pre.sysOpen fs name).1 → TableEffect fs p e
  | close {fd} : e.pre.curPid = p → e.act = (.close fd, .value (e.pre.sysClose fd).2 []) →
      e.post = (e.pre.sysClose fd).1 → TableEffect fs p e
  | read {fd buf nbytes v out} : e.pre.curPid = p → e.act = (.read fd buf nbytes, .value v out) →
      e.pre.sysRead fs fd buf nbytes = .done (e.post, v, out) → TableEffect fs p e
  | apart : Starts p e = false → Halts p e = false →
      (e.pre.curPid = p → (∀ name, e.act.1 ≠ .openFile name) ∧ (∀ fd, e.act.1 ≠ .close fd) ∧
        ∀ fd buf nbytes, e.act.1 ≠ .read fd buf nbytes) →
      (∀ i, e.post.entry p i = e.pre.entry p i) → TableEffect fs p e

theorem starts_false {p : Int} {e : Happening} (other : ∀ eip, e.act.2 ≠ .entered eip) :
    Starts p e = false := by
  unfold Starts
  split
  · rename_i eip entered
    exact absurd entered (other eip)
  · rfl

theorem halts_false {p : Int} {e : Happening}
    (other : (∀ status regs, e.act.1 ≠ .halt status regs) ∨ e.pre.curPid ≠ p) : Halts p e = false := by
  unfold Halts
  split
  · rename_i status regs halts
    rcases other with notHalt | elsewhere
    · exact absurd halts (notHalt status regs)
    · simpa using elsewhere
  · rfl

/-- A program started from a state with the same tables, as `p` or as another. -/
theorem started_table {fs : FsImage} {p : Int} {k k1 k' : Kernel} {act : Act} {eip : Word}
    {command : List UInt8} {regs : Regs} {pid : Int} (run : k1.Started fs command regs pid k')
    (notCall : (∀ name, act ≠ .openFile name) ∧ (∀ fd, act ≠ .close fd) ∧
      ∀ fd buf nbytes, act ≠ .read fd buf nbytes)
    (tables : ∀ i, k1.entry p i = k.entry p i) :
    TableEffect fs p ⟨k, (act, .entered eip), k'⟩ := by
  by_cases same : pid = p
  · refine .fresh ?_ ?_
    · simp [Starts, run.curPid, same]
    · intro i inside
      have table := run.table i inside
      rw [same] at table
      exact table
  · have other : Starts p ⟨k, (act, .entered eip), k'⟩ = false := by
      simp [Starts, run.curPid, same]
    cases halted : Halts p ⟨k, (act, .entered eip), k'⟩ with
    | true => exact .ended other halted
    | false =>
      refine .apart other halted (fun _ => notCall) (fun i => ?_)
      have kept : k'.pcb p = k1.pcb p := run.otherPcb p (Ne.symm same)
      have entries := tables i
      simp only [Kernel.entry, kept] at entries ⊢
      exact entries

theorem apart_table {fs : FsImage} {p : Int} {k k' : Kernel} {l : Act × Reply}
    (notStarted : ∀ eip, l.2 ≠ .entered eip)
    (notHalted : (∀ status regs, l.1 ≠ .halt status regs) ∨ k.curPid ≠ p)
    (notCall : k.curPid = p → (∀ name, l.1 ≠ .openFile name) ∧ (∀ fd, l.1 ≠ .close fd) ∧
      ∀ fd buf nbytes, l.1 ≠ .read fd buf nbytes)
    (pcb : k'.pcb p = k.pcb p) : TableEffect fs p ⟨k, l, k'⟩ :=
  .apart (starts_false notStarted) (halts_false notHalted) notCall
    (fun _ => by simp only [Kernel.entry, pcb])

/-- A driver's read touches no PCB and sets no rate. -/
theorem OpTable.read_kept {op : OpTable} {fs : FsImage} {k k' : Kernel} {fd : Fd} {buf : Nat}
    {nbytes : Word} {v : Int} {out : List UInt8}
    (run : op.read fs k fd buf nbytes = .done (k', v, out)) :
    k'.pcb = k.pcb ∧ k'.processRtc = k.processRtc := by
  cases op with
  | stdinOpt =>
    simp only [OpTable.read, Kernel.terminalRead] at run
    split at run
    · cases run
      exact ⟨rfl, rfl⟩
    · split at run <;> cases run
      exact ⟨rfl, rfl⟩
  | dirOpt =>
    simp only [OpTable.read, Kernel.dirRead, Outcome.done.injEq] at run
    split at run <;> cases run <;> exact ⟨rfl, rfl⟩
  | nullPtr => cases run
  | fileOpt =>
    simp only [OpTable.read, Outcome.done.injEq, Prod.mk.injEq] at run
    rw [run.1]
    exact ⟨rfl, rfl⟩
  | rtcOpt | stdoutOpt | nullOpt =>
    cases run
    exact ⟨rfl, rfl⟩

theorem OpTable.write_kept {op : OpTable} {k k' : Kernel} {buf : Nat} {src : Nat → UInt8}
    {nbytes : Word} {v : Int} (run : op.write k buf src nbytes = .done (k', v)) :
    k'.pcb = k.pcb ∧ k'.readIndex = k.readIndex := by
  cases op with
  | stdoutOpt =>
    simp only [OpTable.write, Outcome.done.injEq] at run
    have frame := (k.terminalWrite_frame buf src nbytes).1
    rw [run] at frame
    exact ⟨frame.pcb, frame.readIndex⟩
  | rtcOpt =>
    simp only [OpTable.write, Kernel.rtcWrite, Outcome.done.injEq] at run
    split at run <;> cases run <;> exact ⟨rfl, rfl⟩
  | nullPtr => cases run
  | stdinOpt | fileOpt | dirOpt | nullOpt =>
    cases run
    exact ⟨rfl, rfl⟩

namespace Kernel

theorem setFd_entry (k : Kernel) (p q : Int) (fd i : Nat) (f : Fd → Fd) :
    (k.setFd p fd f).entry q i = if q = p ∧ i = fd then f (k.entry p fd) else k.entry q i := by
  by_cases same : q = p
  · subst same
    by_cases here : i = fd
    · subst here
      simp [setFd, setPcb, entry]
    · simp [setFd, setPcb, entry, here]
  · simp [setFd, setPcb, entry, same]

/-- The table of a dying process whose first two descriptors are cleared. -/
theorem cleared_entry (k : Kernel) (q : Int) (i : Nat) :
    ((k.setFd q 0 fun _ => ⟨.nullPtr, 0, 0, 0⟩).setFd q 1 fun _ => ⟨.nullPtr, 0, 0, 0⟩).entry q i =
      if i = 0 ∨ i = 1 then ⟨.nullPtr, 0, 0, 0⟩ else k.entry q i := by
  rw [setFd_entry, setFd_entry]
  by_cases one : i = 1
  · simp [one]
  · by_cases zero : i = 0
    · simp [zero]
    · simp [one, zero]

/-- A read on a descriptor in use is its driver's, and moves the position. -/
theorem sysRead_used (fs : FsImage) (k : Kernel) {fd : Nat} (buf : Nat) (n : Word) (slot : fd < 8)
    (used : (k.entry k.curPid fd).flags ≠ 0) :
    k.sysRead fs fd buf n =
      match (k.entry k.curPid fd).fileOpTablePtr.read fs k (k.entry k.curPid fd) buf n with
      | .done (k', v, out) => .done (k'.setFd k.curPid fd fun e =>
          { e with filePos := e.filePos + BitVec.ofInt 32 v }, v, out)
      | .blocks => .blocks
      | .wild => .wild := by
  have inside : ¬ ((fd : Int) < 0 ∨ (fd : Int) > 8) := by omega
  have notLast : ¬ (fd : Int) = 8 := by omega
  unfold sysRead
  rw [if_neg inside, if_neg notLast]
  exact if_neg used

theorem sysWrite_kept {k k' : Kernel} {fd : Int} {buf : Nat} {src : Nat → UInt8} {nbytes : Word}
    {v : Int} (run : k.sysWrite fd buf src nbytes = .done (k', v)) :
    k'.pcb = k.pcb ∧ k'.readIndex = k.readIndex := by
  rcases sysWrite_done run with ⟨rfl, _⟩ | ⟨_, _, _, driver⟩
  · exact ⟨rfl, rfl⟩
  · exact OpTable.write_kept driver

/-- Calls on descriptors leave the PCBs of all but the current process. -/
theorem sysRead_otherPcb {fs : FsImage} {k k' : Kernel} {fd : Int} {buf : Nat} {nbytes : Word}
    {v : Int} {out : List UInt8} (run : k.sysRead fs fd buf nbytes = .done (k', v, out)) {q : Int}
    (other : q ≠ k.curPid) : k'.pcb q = k.pcb q := by
  rcases sysRead_done run with ⟨rfl, _⟩ | ⟨_, _, _, k1, driver, rfl⟩
  · rfl
  · rw [setFd_otherPcb k1 fd.toNat _ other, (OpTable.read_kept driver).1]

theorem sysOpen_otherPcb (fs : FsImage) (k : Kernel) (name : List UInt8) {q : Int}
    (other : q ≠ k.curPid) : (k.sysOpen fs name).1.pcb q = k.pcb q := by
  rcases k.sysOpen_pcb fs name with same | ⟨fd, f, set⟩
  · rw [same]
  · rw [set, setFd_otherPcb k fd f other]

end Kernel

/-- Inversion of a step with regard to the table of one process. -/
theorem step_table {fs : FsImage} {k k' : Kernel} {l : Act × Reply} (p : Int)
    (move : Step fs k l k') : TableEffect fs p ⟨k, l, k'⟩ := by
  obtain ⟨act, r⟩ := l
  cases act with
  | execute command regs =>
    rcases step_execute move with ⟨prev, v, rfl, rfl⟩ | ⟨eip, pid, rfl, run⟩
    · exact apart_table (by simp) (Or.inl (by simp)) (by simp) rfl
    · exact started_table run (by simp) (fun _ => rfl)
  | halt status regs =>
    rcases step_halt move with ⟨child, rfl, rfl⟩ | ⟨orphan, restarted⟩
    · by_cases own : k.curPid = p
      · exact .ended (starts_false (by simp)) (by simp [Halts, own])
      · exact apart_table (by simp) (Or.inr own) (by simp) (k.haltBody_halted.otherPcb p (Ne.symm own))
    · rcases Kernel.sysExecute_outcome restarted with ⟨prev, v, rfl, rfl⟩ | ⟨eip, pid, rfl, run⟩
      · by_cases own : k.curPid = p
        · exact .ended (starts_false (by simp)) (by simp [Halts, own])
        · exact apart_table (by simp) (Or.inr own) (by simp) rfl
      · exact started_table run (by simp) (fun _ => rfl)
  | tick regs execRegs =>
    rcases step_tick move with ⟨_, switched, _, rfl⟩ | ⟨inSetup, launched⟩
    · refine .apart (starts_false (by simp)) (halts_false (Or.inl (by simp))) (by simp) (fun i => ?_)
      simp only [Kernel.entry, switched.table]
    · have tables (i : Nat) : ((k.saveContext regs).launchTerminal ⟨_, inSetup⟩).entry p i =
          k.entry p i := k.launchTerminal_entry regs _ p i
      rcases Kernel.sysExecute_outcome launched with ⟨prev, v, rfl, rfl⟩ | ⟨eip, pid, rfl, run⟩
      · exact .apart (starts_false (by simp)) (halts_false (Or.inl (by simp))) (by simp) tables
      · exact started_table run (by simp) tables
  | key keypress =>
    cases move
    exact apart_table (by simp) (Or.inl (by simp)) (by simp)
      (congrFun (k.keyboardHandler_ttyOnly keypress).pcb p)
  | switchTo function =>
    cases move
    exact apart_table (by simp) (Or.inl (by simp)) (by simp)
      (congrFun (k.terminalSwitch_ttyOnly function).pcb p)
  | read fd buf nbytes =>
    obtain ⟨v, out, call, rfl⟩ := step_read move
    by_cases own : k.curPid = p
    · exact .read own rfl call
    · exact apart_table (by simp) (Or.inl (by simp)) (fun same => absurd same own)
        (Kernel.sysRead_otherPcb call (Ne.symm own))
  | write fd buf src nbytes =>
    obtain ⟨v, call, rfl⟩ := step_write move
    exact apart_table (by simp) (Or.inl (by simp)) (by simp) (congrFun (Kernel.sysWrite_kept call).1 p)
  | openFile filename =>
    cases move
    by_cases own : k.curPid = p
    · exact .openFile own rfl rfl
    · exact apart_table (by simp) (Or.inl (by simp)) (fun same => absurd same own)
        (k.sysOpen_otherPcb fs filename (Ne.symm own))
  | close fd =>
    cases move
    by_cases own : k.curPid = p
    · exact .close own rfl rfl
    · exact apart_table (by simp) (Or.inl (by simp)) (fun same => absurd same own)
        (k.sysClose_otherPcb fd (Ne.symm own))
  | putc c =>
    cases move
    exact apart_table (by simp) (Or.inl (by simp)) (by simp) (congrFun (k.putc_ttyOnly c).pcb p)
  | vidStore off b =>
    cases move
    exact apart_table (by simp) (Or.inl (by simp)) (by simp) rfl

end UnixLite
