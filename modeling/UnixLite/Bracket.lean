import UnixLite.Exceptions
import UnixLite.OpenFiles

namespace UnixLite

open Transition

/-- A process that is on a chain but not running keeps its whole PCB. -/
theorem step_otherPcb {fs : FsImage} {base : Fin 3 → Int} {forest : Stacks (Fin 3) Int} {k k' : Kernel}
    {l : Act × Reply} (tree : ProcessForest k base forest) (present : ShellPresent fs)
    (move : Step fs k l k') {t : Fin 3} {q : Int} (member : q ∈ forest.stack t) (other : q ≠ k.curPid) :
    k'.pcb q = k.pcb q := by
  obtain ⟨act, r⟩ := l
  cases act with
  | execute command regs =>
    rcases step_execute move with ⟨prev, v, rfl, _⟩ | ⟨eip, pid, _, run⟩
    · rfl
    · obtain ⟨fresh, _⟩ := tree.started run
      exact run.otherPcb q (fun same => fresh t (same ▸ member))
  | halt status regs =>
    rcases step_halt move with ⟨_, rfl, _⟩ | ⟨orphan, restarted⟩
    · exact k.haltBody_halted.otherPcb q other
    · exact (tree.restarted present orphan restarted).1.otherPcb q other
  | tick regs execRegs =>
    cases step_effect move with
    | same _ notTick => exact absurd rfl (notTick regs execRegs)
    | switched _ tick => exact tick.otherPcb q (tree.running ▸ other)
    | setup inSetup => exact absurd tree.setUp (by omega)
  | key keypress =>
    cases move
    exact congrFun (k.keyboardHandler_ttyOnly keypress).pcb q
  | switchTo function =>
    cases move
    exact congrFun (k.terminalSwitch_ttyOnly function).pcb q
  | read fd buf nbytes =>
    obtain ⟨v, out, call, rfl⟩ := step_read move
    exact Kernel.sysRead_otherPcb call other
  | write fd buf src nbytes =>
    obtain ⟨v, call, rfl⟩ := step_write move
    exact congrFun (Kernel.sysWrite_kept call).1 q
  | openFile filename =>
    cases move
    exact k.sysOpen_otherPcb fs filename other
  | close fd =>
    cases move
    exact k.sysClose_otherPcb fd other
  | putc c =>
    cases move
    rfl
  | vidStore off b =>
    cases move
    rfl

/-- A process that has a parent keeps it, and the frame pointer of the call
that started it. -/
theorem step_link {fs : FsImage} {base : Fin 3 → Int} {forest : Stacks (Fin 3) Int} {k k' : Kernel}
    {l : Act × Reply} (tree : ProcessForest k base forest) (present : ShellPresent fs)
    (move : Step fs k l k') {t : Fin 3} {q : Int} (member : q ∈ forest.stack t)
    (linked : (k.pcb q).parentPid ≠ -1) :
    (k'.pcb q).parentPid = (k.pcb q).parentPid ∧ (k'.pcb q).ebp = (k.pcb q).ebp := by
  cases step_effect move with
  | same _ _ _ same => exact ⟨same.parentPid q, same.ebp q⟩
  | started run =>
    obtain ⟨fresh, _⟩ := tree.started run
    rw [run.otherPcb q (fun same => fresh t (same ▸ member))]
    exact ⟨rfl, rfl⟩
  | resumed =>
    have halt := k.haltBody_halted
    exact ⟨halt.parentPid q, halt.ebp q⟩
  | base orphan run =>
    have other : q ≠ k.curPid := by
      rintro rfl
      exact linked orphan
    have kept : k'.pcb q = k.pcb q := (tree.restarted present orphan run).1.otherPcb q other
    rw [kept]
    exact ⟨rfl, rfl⟩
  | switched _ tick => exact ⟨tick.parentPid q, tick.ebp q⟩
  | setup inSetup => exact absurd tree.setUp (by omega)

/-- The program page changes its frame and is made present, no more. -/
theorem step_programPage {fs : FsImage} {base : Fin 3 → Int} {forest : Stacks (Fin 3) Int}
    {k k' : Kernel} {l : Act × Reply} (tree : ProcessForest k base forest) (present : ShellPresent fs)
    (move : Step fs k l k') :
    (k'.pd 32).rw = (k.pd 32).rw ∧ (k'.pd 32).us = (k.pd 32).us ∧ (k'.pd 32).ps = (k.pd 32).ps := by
  cases step_effect move with
  | same _ _ _ same =>
    rw [same.pd]
    exact ⟨rfl, rfl, rfl⟩
  | started run =>
    rw [run.programPage]
    exact ⟨rfl, rfl, rfl⟩
  | resumed =>
    rw [k.haltBody_halted.programPage]
    exact ⟨rfl, rfl, rfl⟩
  | base orphan run =>
    rw [(tree.restarted present orphan run).1.programPage]
    exact ⟨rfl, rfl, rfl⟩
  | switched _ tick =>
    rw [tick.programPage]
    exact ⟨rfl, rfl, rfl⟩
  | setup inSetup => exact absurd tree.setUp (by omega)

/-- While process `c` lives its chain holds it, with the same processes below. -/
theorem chain_step {fs : FsImage} {base : Fin 3 → Int} {forest : Stacks (Fin 3) Int} {k k' : Kernel}
    {l : Act × Reply} (tree : ProcessForest k base forest) (present : ShellPresent fs)
    (move : Step fs k l k') {t : Fin 3} {c : Int} {below : List Int} (held : forest.Holds t c below)
    (alive : ∀ status regs, l.1 = .halt status regs → k.curPid ≠ c) :
    ∃ next, ProcessForest k' base next ∧ next.Holds t c below := by
  cases step_effect move with
  | same _ _ _ same => exact ⟨forest, tree.same same, held⟩
  | started run =>
    obtain ⟨fresh, next⟩ := tree.started run
    exact ⟨_, next, held.push fresh⟩
  | resumed child =>
    obtain ⟨rest, top, _⟩ := tree.running_chain child
    exact ⟨_, tree.halted child k.haltBody_halted, held.pop top (alive _ _ rfl)⟩
  | base orphan run => exact ⟨forest, tree.replaced orphan (tree.restarted present orphan run).1, held⟩
  | switched _ tick => exact ⟨forest, tree.switched tick, held⟩
  | setup inSetup => exact absurd tree.setUp (by omega)

/-- The call of `sys_execute` by which `k0`'s process started process `c` has
not returned: `c` is on the chain above its parent, whose PCB is as it was. -/
structure Pending (base : Fin 3 → Int) (k0 : Kernel) (c : Int) (ebp : Word) (k : Kernel) : Prop where
  chain : ∃ forest below, ProcessForest k base forest ∧ forest.Holds k0.ta c (k0.curPid :: below)
  parentPcb : k.pcb k0.curPid = k0.pcb k0.curPid
  parentPid : (k.pcb c).parentPid = k0.curPid
  ebp : (k.pcb c).ebp = ebp
  page : (k.pd 32).rw = (k0.pd 32).rw ∧ (k.pd 32).us = (k0.pd 32).us ∧ (k.pd 32).ps = (k0.pd 32).ps

theorem ProcessForest.started_pending {fs : FsImage} {base : Fin 3 → Int} {forest : Stacks (Fin 3) Int}
    {k k' : Kernel} {command : List UInt8} {regs : Regs} {pid : Int}
    (tree : ProcessForest k base forest) (run : k.Started fs command regs pid k') :
    Pending base k pid regs.ebp k' := by
  obtain ⟨fresh, next⟩ := tree.started run
  obtain ⟨below, chain⟩ := (tree.lineage k.ta).head
  rw [← tree.running] at chain
  constructor
  case chain => exact ⟨_, below, next, [], by rw [Stacks.push_self, chain, List.nil_append]⟩
  case parentPcb => exact run.otherPcb k.curPid (fun same => fresh k.ta (same ▸ tree.running_mem))
  case parentPid => exact tree.started_parent run
  case ebp => exact run.ebp
  case page =>
    rw [run.programPage]
    exact ⟨rfl, rfl, rfl⟩

theorem Pending.same {base : Fin 3 → Int} {k0 k k' : Kernel} {c : Int} {ebp : Word}
    (pending : Pending base k0 c ebp k) (same : TtyOnly k k') : Pending base k0 c ebp k' := by
  obtain ⟨forest, below, tree, held⟩ := pending.chain
  constructor
  case chain => exact ⟨forest, below, tree.same same.processes, held⟩
  case parentPcb => rw [same.pcb]; exact pending.parentPcb
  case parentPid => rw [same.pcb]; exact pending.parentPid
  case ebp => rw [same.pcb]; exact pending.ebp
  case page => rw [same.pd]; exact pending.page

theorem Pending.step {fs : FsImage} {base : Fin 3 → Int} {k0 k k' : Kernel} {c : Int} {ebp : Word}
    {l : Act × Reply} (pending : Pending base k0 c ebp k) (present : ShellPresent fs)
    (move : Step fs k l k') (alive : ∀ status regs, l.1 = .halt status regs → k.curPid ≠ c) :
    Pending base k0 c ebp k' := by
  obtain ⟨forest, below, tree, held⟩ := pending.chain
  have child : c ∈ forest.stack k0.ta := held.mem (List.mem_cons_self ..)
  have parent : k0.curPid ∈ forest.stack k0.ta := held.mem (by simp)
  have waits : k0.curPid ≠ k.curPid := by
    intro same
    obtain ⟨rest, chain⟩ := (tree.lineage k.ta).head
    rw [← tree.running, ← same] at chain
    exact held.covered (List.mem_cons_self ..) chain
  have linked : (k.pcb c).parentPid ≠ -1 := by
    have lower := (tree.range _ _ parent).1
    rw [pending.parentPid]
    omega
  obtain ⟨parentPid, sameEbp⟩ := step_link tree present move child linked
  obtain ⟨rw1, us1, ps1⟩ := step_programPage tree present move
  obtain ⟨rw0, us0, ps0⟩ := pending.page
  obtain ⟨next, nextTree, nextHeld⟩ := chain_step tree present move held alive
  constructor
  case chain => exact ⟨next, below, nextTree, nextHeld⟩
  case parentPcb => exact (step_otherPcb tree present move parent waits).trans pending.parentPcb
  case parentPid => exact parentPid.trans pending.parentPid
  case ebp => exact sameEbp.trans pending.ebp
  case page => exact ⟨rw1.trans rw0, us1.trans us0, ps1.trans ps0⟩

/-- The running process is halted by the event, by a call or an exception. -/
def Occurrence.Halts : Occurrence → Prop
  | .act (.halt _ _, _) | .exception _ _ _ _ => True
  | .act _ => False

theorem Pending.moves {fs : FsImage} {base : Fin 3 → Int} {k0 k k' : Kernel} {c : Int} {ebp : Word}
    {o : Occurrence} (pending : Pending base k0 c ebp k) (present : ShellPresent fs)
    (move : Moves fs k o k') (alive : k.curPid = c → ¬ o.Halts) : Pending base k0 c ebp k' := by
  cases move with
  | @act l _ step =>
    refine pending.step present step (fun status regs halt same => alive same ?_)
    obtain ⟨act, r⟩ := l
    cases halt
    trivial
  | exception run =>
    obtain ⟨k1, output, halt⟩ := exception_halts run
    refine (pending.same output).step present halt (fun _ _ _ same => alive ?_ trivial)
    rw [← output.curPid]
    exact same

/-- What the caller of `sys_execute` finds when the call returns. -/
structure Restored (k0 : Kernel) (c : Int) (k : Kernel) : Prop where
  pcb : k.pcb k0.curPid = k0.pcb k0.curPid
  curPid : k.curPid = k0.curPid
  ta : k.ta = k0.ta
  activePid : (k.terminals k0.ta).activePid = (k0.terminals k0.ta).activePid
  page : k.pd 32 = k0.pd 32
  tssEsp0 : k.tssEsp0 = k0.tssEsp0
  freed : k.pidArray c = 0

/-- Halting the child takes its parent back to where it made the call. -/
theorem Pending.halt {fs : FsImage} {base : Fin 3 → Int} {k0 k : Kernel} {c : Int} {ebp : Word}
    (pending : Pending base k0 c ebp k) (start : Settled base k0) (running : k.curPid = c)
    (status : Word) (regs : Regs) :
    ∃ k', k.haltHelper fs status regs = .resumed k' ebp status ∧ Restored k0 c k' := by
  obtain ⟨forest, below, tree, held⟩ := pending.chain
  obtain ⟨⟨_, startTree⟩, duty⟩ := start
  have halt := k.haltBody_halted
  have parent : k.curPcb.parentPid = k0.curPid := by
    rw [Kernel.curPcb, running]
    exact pending.parentPid
  have lower := (startTree.range _ _ startTree.running_mem).1
  have child : k.curPcb.parentPid ≠ -1 := by omega
  obtain ⟨rest, chain, _⟩ := tree.running_chain child
  rw [running] at chain
  have here : k.ta = k0.ta := (held.top chain).1
  have apart : k0.curPid ≠ k.curPid := by
    intro same
    rw [running] at same
    exact held.covered (by simp) (same.symm ▸ chain)
  refine ⟨k.haltBody, ?_, ?_⟩
  · rw [Kernel.haltHelper, if_neg child, halt.ebp, running, pending.ebp]
  constructor
  case pcb => exact (halt.otherPcb _ apart).trans pending.parentPcb
  case curPid => rw [halt.curPid, parent]
  case ta => rw [halt.video.ta, here]
  case activePid => rw [← here, halt.activePid, parent, here, duty.running]
  case page =>
    obtain ⟨samerw, us, ps⟩ := pending.page
    have mapped := duty.mapped
    have frame := duty.frame
    rw [halt.programPage, parent]
    generalize k0.pd 32 = e at samerw us ps mapped frame ⊢
    obtain ⟨p, rw0, us0, ps0, addr⟩ := e
    dsimp only at samerw us ps mapped frame ⊢
    rw [samerw, us, ps, mapped, frame]
  case tssEsp0 => rw [halt.tssEsp0, parent, duty.stack]
  case freed => rw [halt.pidArray, running, Function.update_self]

/-- A call of `sys_execute` waits for its program. -/
theorem Pending.waits {fs : FsImage} {base : Fin 3 → Int} {k : Kernel} (present : ShellPresent fs)
    (start : Settled base k) {command : List UInt8} {regs : Regs}
    {eip : Word} {k1 k2 : Kernel} {later : List (Event Kernel Occurrence)}
    (call : Step fs k (.execute command regs, .entered eip) k1) (run : Run (Moves fs) k1 later k2)
    (alive : ∀ e ∈ later, e.pre.curPid = k1.curPid → ¬ e.act.Halts) : Pending base k k1.curPid regs.ebp k2 := by
  obtain ⟨forest, tree⟩ := start.forest
  refine run.history_invariant_of_events (fun _ k2 => Pending base k k1.curPid regs.ebp k2)
    (fun k2 o => k2.curPid = k1.curPid → ¬ o.Halts) ?_ ?_ alive
  · rcases step_execute call with ⟨_, _, _, returned⟩ | ⟨_, pid, _, started⟩
    · cases returned
    · rw [started.curPid]
      exact tree.started_pending started
  · exact fun _ _ _ _ _ pending alive move => pending.moves present move alive

/-- Halting the running process takes it back to the call that created `c`,
made in `k0`: with the status given to `sys_halt`, or 256 after an exception,
to the caller's frame, with all of the caller's as it was. -/
def ReturnsFrom (fs : FsImage) (k0 : Kernel) (c : Int) (ebp : Word) (k : Kernel) : Prop :=
  (∀ status haltRegs, ∃ k', k.sysHalt fs status haltRegs = .resumed k' ebp (BitVec.ofNat 32 status.toNat) ∧
    Restored k0 c k') ∧
  ∀ id errCode haltRegs, ∃ k', k.handleException fs id errCode haltRegs = .resumed k' ebp 256 ∧ Restored k0 c k'

/-- A call of `sys_execute` that starts a program returns exactly when that
program halts, whatever has happened in between, as long as no image is too
long for its page. -/
theorem execute_halt_bracket {fs : FsImage} (present : ShellPresent fs) {pcbs : Int → Pcb}
    {ram : Nat → UInt8} {ptFrame ptUserFrame : BitVec 20} {boot : List Happening}
    {first k0 k1 k2 : Kernel}
    (booted : Booting fs (entryState pcbs ram ptFrame ptUserFrame) 3 boot first)
    {earlier later : List (Event Kernel Occurrence)} (reach : Run (Happens fs) first earlier k0)
    (fitted : ∀ e ∈ earlier, ¬ e.act.Overlong fs e.pre) {command : List UInt8} {regs : Regs} {eip : Word}
    (call : Step fs k0 (.execute command regs, .entered eip) k1)
    (run : Run (Happens fs) k1 later k2) (fits : ∀ e ∈ later, ¬ e.act.Overlong fs e.pre)
    (alive : ∀ e ∈ later, e.pre.curPid = k1.curPid → ¬ e.act.Halts) (running : k2.curPid = k1.curPid) :
    ReturnsFrom fs k0 k1.curPid regs.ebp k2 := by
  have start := Settled.run present booted (happens_fit reach fitted)
  have pending := Pending.waits present start call (happens_fit run fits) alive
  constructor
  · intro status haltRegs
    exact pending.halt start running (BitVec.ofNat 32 status.toNat) haltRegs
  · intro id errCode haltRegs
    obtain ⟨k3, output, halts⟩ := k2.handleException_halts fs id errCode
    rw [halts]
    exact (pending.same output).halt start (output.curPid.trans running) 256 haltRegs

/-- A run without exceptions among the others. -/
theorem Run.occurs {fs : FsImage} {first k : Kernel} {history : List Happening} (run : Run (Turns fs) first history k) :
    Run (Happens fs) first (history.map fun e => ⟨e.pre, .act e.act, e.post⟩) k := by
  induction run with
  | start => exact .start
  | next _ turn ih => exact ih.next (.act turn)

/-- A call that makes another process run has entered it. -/
theorem execute_enters {fs : FsImage} {k k' : Kernel} {command : List UInt8} {regs : Regs} {r : Reply}
    (step : Step fs k (.execute command regs, r) k') (other : k'.curPid ≠ k.curPid) : ∃ eip, r = .entered eip := by
  rcases step_execute step with ⟨prev, v, rfl, _⟩ | ⟨eip, _, entered, _⟩
  · exact absurd rfl other
  · exact ⟨eip, entered⟩

/-- What happens between a call on terminal 2 and its return: programs are
executed and halted there and on terminal 0, with ticks between. -/
def awaitedActs : List Act :=
  [.tick ⟨1, 1⟩ ⟨0, 0⟩, .execute shell ⟨2, 2⟩, .tick ⟨3, 3⟩ ⟨0, 0⟩, .tick ⟨4, 4⟩ ⟨0, 0⟩, .execute shell ⟨5, 5⟩,
    .halt 6 ⟨0, 0⟩, .tick ⟨6, 6⟩ ⟨0, 0⟩, .halt 7 ⟨0, 0⟩, .tick ⟨8, 8⟩ ⟨0, 0⟩, .tick ⟨9, 9⟩ ⟨0, 0⟩]

/-- A shell executed by the third shell halts behind all this. -/
theorem execute_halt_bracket_sample : ∃ boot first k1 eip later k2, Booting sampleImage sampleEntry 3 boot first ∧
    Step sampleImage first (.execute shell ⟨7, 8⟩, .entered eip) k1 ∧ Run (Happens sampleImage) k1 later k2 ∧
    later.length = 10 ∧ ∃ k3, k2.sysHalt sampleImage 255 ⟨0, 0⟩ = .resumed k3 7 255 ∧ Restored first k1.curPid k3 := by
  have computed : (performAll sampleImage setUpActs ([], sampleEntry)).bind (fun b =>
      (perform sampleImage b.2 (.execute shell ⟨7, 8⟩)).bind fun s =>
        (performAll sampleImage awaitedActs ([], s.1)).map fun r => ([b.2.curPid, s.1.curPid, r.2.curPid],
          r.1.length, [3, 4, 5].map fun p => r.1.any (Halts p))) =
      some ([2, 3, 3], 10, [false, true, true]) := by
    decide +kernel
  obtain ⟨b, booted, more⟩ := Option.bind_eq_some_iff.mp computed
  obtain ⟨⟨k1, reply⟩, called, rest⟩ := Option.bind_eq_some_iff.mp more
  obtain ⟨r, done, values⟩ := Option.map_eq_some_iff.mp rest
  simp only [Prod.mk.injEq, List.cons.injEq, and_true] at values
  obtain ⟨⟨caller, child, running⟩, length, halts⟩ := values
  have kept : r.1.any (Halts 3) = false := (List.cons.inj halts).1
  have boot := setUpActs_booting booted
  obtain ⟨eip, rfl⟩ := execute_enters called (by rw [caller, child]; decide)
  have run := Run.occurs ((performAll_run .start done).change fun _ _ step => .step step)
  have returns := execute_halt_bracket sampleImage_fits.present boot .start (by simp) called run
    (fun e _ => e.act.short sampleImage_lengths e.pre) ?_ (running.trans child.symm)
  · obtain ⟨k3, halted, restored⟩ := returns.1 255 ⟨0, 0⟩
    exact ⟨b.1, b.2, k1, eip, _, r.2, boot, called, run, by rw [List.length_map, length], k3, halted, restored⟩
  · intro e member own halt
    obtain ⟨⟨pre, ⟨act, reply⟩, post⟩, listed, rfl⟩ := List.mem_map.mp member
    have halted : Halts 3 ⟨pre, (act, reply), post⟩ = true := by
      cases act <;> try exact absurd halt not_false
      exact beq_iff_eq.mpr (own.trans child)
    exact List.any_eq_false.mp kept _ listed halted

theorem haltHelper_resumed {fs : FsImage} {k k' : Kernel} {status ebp eax : Word} {regs : Regs}
    (halts : k.haltHelper fs status regs = .resumed k' ebp eax) : k' = k.haltBody := by
  unfold Kernel.haltHelper at halts
  split at halts
  · cases halts
  · simp only [HaltResult.resumed.injEq] at halts
    exact halts.1.symm

/-- With its first free descriptor a process opens the rtc. -/
theorem bigImage_opens {k : Kernel} {p : Int} (running : k.curPid = p) (free : (k.entry p 2).flags = 0) :
    ((k.sysOpen bigImage [114, 116, 99]).1.entry p 2).flags = 1 := by
  subst running
  have rtc : (readDentryByName bigImage (cString [114, 116, 99])).map (·.fileType) = some 0 := by decide +kernel
  obtain ⟨d, named, type⟩ := Option.map_eq_some_iff.mp rtc
  rcases k.sysOpen_cases bigImage [114, 116, 99] with ⟨missing | full, _⟩ | ⟨d', fd, found, lower, _, _, below, _, set⟩
  · rw [named] at missing
    cases missing
  · exact absurd free (full 2 (by decide) (by decide))
  · rw [named] at found
    cases found
    have lowest : fd = 2 := by
      by_contra other
      exact below 2 (by decide) (by omega) free
    rcases set with ⟨untyped, _⟩ | ⟨op, _, entries⟩
    · rw [type] at untyped
      exact absurd untyped (by decide)
    · rw [entries, if_pos ⟨rfl, lowest.symm⟩]

/-- The shells of terminals 0 and 2 execute programs, which both halt, so that
slot 4 is last that of a program of terminal 2. -/
def crossedActs : List Act :=
  [.tick ⟨0, 0⟩ ⟨0, 0⟩, .execute shell ⟨0, 0⟩, .tick ⟨0, 0⟩ ⟨0, 0⟩, .tick ⟨0, 0⟩ ⟨0, 0⟩, .execute shell ⟨0, 0⟩,
    .halt 0 ⟨0, 0⟩, .tick ⟨0, 0⟩ ⟨0, 0⟩, .halt 0 ⟨0, 0⟩, .tick ⟨0, 0⟩ ⟨0, 0⟩, .tick ⟨0, 0⟩ ⟨0, 0⟩]

/-- Slot 4 is last that of a program of terminal 2. The shell of terminal 0 executes
the big program, which faults in that slot, and the shell of terminal 2 runs on
terminal 0 where it opens a file. Two ticks later terminal 2 has its turn. -/
theorem bigImage_wakes {k1 u : Kernel} {past : List Happening} (reach : Run (Turns bigImage) k1 past u)
    (unhalted : ∀ e ∈ past, ∀ status regs, e.act.1 ≠ .halt status regs) (slot : freePid u.pidArray = some 4)
    (parent : (u.pcb 4).parentPid = 2) (ta : u.ta = 0) (count : u.terminalInit = 4)
    (free : (u.entry 2 2).flags = 0) : ∃ later k2, Run (Turns bigImage) k1 later k2 ∧
      (∀ e ∈ later, ∀ status regs, e.act.1 ≠ .halt status regs) ∧
      k2.curPid = (u.terminals 2).activePid ∧ (k2.entry 2 2).flags = 1 := by
  have linked : (u.pcb 4).parentPid ≠ -1 := by
    rw [parent]
    decide
  obtain ⟨image, v, output, turn⟩ := (bigImage_overruns slot).turn slot linked ⟨0, 0⟩
  have halt := v.haltBody_halted
  have here : v.ta = 0 := output.ta.trans ta
  have own : v.curPid = 4 := output.curPid
  have stale : v.curPcb.parentPid = 2 := by
    rw [Kernel.curPcb, output.pcb, own]
    exact parent
  have running : v.haltBody.curPid = 2 := halt.curPid.trans stale
  have entry : (v.haltBody.entry 2 2).flags = 0 := by
    have same : v.haltBody.pcb 2 = u.pcb 2 :=
      (halt.otherPcb 2 (by rw [own]; decide)).trans (congrFun output.pcb 2)
    rw [Kernel.entry, same]
    exact free
  have opened := bigImage_opens running entry
  have same := (v.haltBody.sysOpen_quiet bigImage [114, 116, 99]).processes
  have opens : Turns bigImage v.haltBody
      (.openFile [114, 116, 99], .value (v.haltBody.sysOpen bigImage [114, 116, 99]).2 [])
      (v.haltBody.sysOpen bigImage [114, 116, 99]).1 := .step rfl
  generalize (v.haltBody.sysOpen bigImage [114, 116, 99]).1 = w at opened same opens
  have there : w.ta = 0 := (same.ta.trans halt.video.ta).trans here
  have ready : w.terminalInit = 4 :=
    (same.terminalInit.trans halt.video.terminalInit).trans (output.terminalInit.trans count)
  obtain ⟨w1, tick1, turn1⟩ := w.ticks bigImage (by omega) ⟨3, 4⟩ ⟨0, 0⟩
  have ready1 := tick1.terminalInit
  obtain ⟨k2, tick2, turn2⟩ := w1.ticks bigImage (by omega) ⟨5, 6⟩ ⟨0, 0⟩
  have next : w1.ta = 1 := by
    rw [tick1.ta, there]
    rfl
  refine ⟨_, k2, (((reach.next turn).next opens).next turn1).next turn2, ?_, ?_, ?_⟩
  · simpa using unhalted
  · rw [tick2.curPid, next, tick1.activePid, same.activePid, halt.otherActive _ (by rw [here]; decide),
      output.activePid]
    rfl
  · rw [Kernel.entry, tick2.table, tick1.table]
    exact opened

/-- The shell of terminal 2 waits for a program. That of terminal 0 executes the
big one, which faults in slot 4, and the waiting shell runs on terminal 0 where
it opens a file. What the program returns to is not what the shell has left. -/
theorem execute_halt_bracket_overrun : ¬ ∀ (fs : FsImage) (pcbs : Int → Pcb) (ram : Nat → UInt8)
    (ptFrame ptUserFrame : BitVec 20) (boot : List Happening) (first k0 k1 k2 : Kernel)
    (earlier later : List (Event Kernel Occurrence)) (command : List UInt8) (regs : Regs) (eip : Word), ShellPresent fs →
    Booting fs (entryState pcbs ram ptFrame ptUserFrame) 3 boot first → Run (Happens fs) first earlier k0 →
    Step fs k0 (.execute command regs, .entered eip) k1 → Run (Happens fs) k1 later k2 →
    (∀ e ∈ later, e.pre.curPid = k1.curPid → ¬ e.act.Halts) → k2.curPid = k1.curPid →
    ReturnsFrom fs k0 k1.curPid regs.ebp k2 := by
  intro always
  have computed : (performAll bigImage setUpActs ([], sampleEntry)).bind (fun b =>
      (performAll bigImage crossedActs ([], b.2)).bind fun r =>
        (perform bigImage r.2 (.execute shell ⟨7, 8⟩)).bind fun s =>
          (perform bigImage s.1 (.tick ⟨1, 2⟩ ⟨0, 0⟩)).map fun u => ([r.2.curPid, s.1.curPid, (u.1.pcb 4).parentPid,
            (u.1.terminals 2).activePid], (u.1.ta, u.1.terminalInit, freePid u.1.pidArray),
            [(r.2.entry 2 2).flags, (u.1.entry 2 2).flags])) = some ([2, 3, 2, 3], (0, 4, some 4), [0, 0]) := by
    decide +kernel
  obtain ⟨b, booted, more⟩ := Option.bind_eq_some_iff.mp computed
  obtain ⟨r, crossed, more⟩ := Option.bind_eq_some_iff.mp more
  obtain ⟨⟨k1, reply⟩, called, more⟩ := Option.bind_eq_some_iff.mp more
  obtain ⟨⟨u, loaded⟩, ticked, values⟩ := Option.map_eq_some_iff.mp more
  simp only [Prod.mk.injEq, List.cons.injEq, and_true] at values
  obtain ⟨⟨caller, child, parent, two⟩, ⟨ta, count, slot⟩, closed, free⟩ := values
  obtain ⟨eip, rfl⟩ := execute_enters called (by rw [caller, child]; decide)
  have ticks : Turns bigImage k1 (.tick ⟨1, 2⟩ ⟨0, 0⟩, loaded) u := .step ticked
  obtain ⟨later, k2, run, unhalted, running, left⟩ :=
    bigImage_wakes (Run.start.next ticks) (by simp) slot parent ta count free
  have active : k2.curPid = 3 := running.trans two
  have kept : ∀ e ∈ later.map fun e => (⟨e.pre, .act e.act, e.post⟩ : Event Kernel Occurrence),
      e.pre.curPid = k1.curPid → ¬ e.act.Halts := by
    rintro _ member _ halts
    obtain ⟨⟨pre, ⟨act, reply⟩, post⟩, listed, rfl⟩ := List.mem_map.mp member
    cases act with
    | halt status regs => exact unhalted _ listed status regs rfl
    | _ => exact halts
  have returns := always bigImage _ _ _ _ _ _ _ _ _ _ _ _ _ _ bigImage_present (setUpActs_booting booted)
    (Run.occurs ((performAll_run .start crossed).change fun _ _ step => .step step)) called (Run.occurs run)
    kept (active.trans child.symm)
  obtain ⟨k3, halted, restored⟩ := returns.1 0 ⟨0, 0⟩
  have kept := restored.pcb
  rw [caller, haltHelper_resumed halted, k2.haltBody_halted.otherPcb 2 (by rw [active]; decide)] at kept
  rw [Kernel.entry, kept] at left
  rw [Kernel.entry, left] at closed
  exact absurd closed (by decide)

end UnixLite
