import UnixLite.UserCalls
import UnixLite.Bracket

namespace UnixLite

open Transition Store

/-- `while (*s1 == *s2)`, with the address space for a bound. -/
def ece391StrcmpFrom (s1 s2 : Nat → UInt8) : Nat → Nat → Int
  | 0, i => (s1 i).toNat - (s2 i).toNat
  | fuel + 1, i =>
    if s1 i = s2 i then
      if s1 i = 0 then 0 else ece391StrcmpFrom s1 s2 fuel (i + 1)
    else (s1 i).toNat - (s2 i).toNat

def ece391Strcmp (s1 s2 : Nat → UInt8) : Int := ece391StrcmpFrom s1 s2 (2 ^ 32) 0

/-- Two strings compare equal only if they are. -/
theorem ece391StrcmpFrom_eq_zero {s1 s2 : Nat → UInt8} {fuel i : Nat} {l1 l2 : List UInt8} (first : StringAt s1 i l1)
    (second : StringAt s2 i l2) (enough : l1.length < fuel) : ece391StrcmpFrom s1 s2 fuel i = 0 ↔ l1 = l2 := by
  have apart {a b : UInt8} (ne : a ≠ b) : ¬ ((a.toNat : Int) - b.toNat = 0) := by
    intro zero
    exact ne (UInt8.toNat_inj.mp (by omega))
  induction l1 generalizing l2 i fuel with
  | nil =>
    obtain ⟨fuel, rfl⟩ := Nat.exists_eq_add_of_lt enough
    have ends : s1 i = 0 := first.ends
    rw [List.length_nil, Nat.zero_add, ece391StrcmpFrom, ends]
    cases l2 with
    | nil =>
      have zero : s2 i = 0 := second.ends
      simp [zero]
    | cons c l2 =>
      have here : s2 i = c := second.chars 0 (by simp)
      have char := second.plain c (List.mem_cons_self ..)
      rw [here, if_neg (Ne.symm char)]
      simpa using apart (Ne.symm char)
  | cons c l1 ih =>
    obtain ⟨fuel, rfl⟩ : ∃ n, fuel = n + 1 := ⟨fuel - 1, by rw [List.length_cons] at enough; omega⟩
    have here : s1 i = c := first.chars 0 (by simp)
    have char := first.plain c (List.mem_cons_self ..)
    rw [ece391StrcmpFrom, here]
    cases l2 with
    | nil =>
      have zero : s2 i = 0 := second.ends
      rw [zero, if_neg char]
      simpa using apart char
    | cons d l2 =>
      have there : s2 i = d := second.chars 0 (by simp)
      rw [there]
      by_cases same : c = d
      · subst same
        rw [List.length_cons] at enough
        have rest : ece391StrcmpFrom s1 s2 fuel (i + 1) = 0 ↔ l1 = l2 := ih first.tail second.tail (by omega)
        rw [if_pos rfl, if_neg char, rest]
        simp
      · rw [if_neg same]
        simp only [List.cons.injEq, same, false_and, iff_false]
        exact apart same

theorem ece391Strcmp_eq_zero {s1 s2 : Nat → UInt8} {l1 l2 : List UInt8} (first : StringAt s1 0 l1)
    (second : StringAt s2 0 l2) (short : l1.length < 2 ^ 32) : ece391Strcmp s1 s2 = 0 ↔ l1 = l2 :=
  ece391StrcmpFrom_eq_zero first second short

/-- What a shell asks the system for. -/
inductive ShellCall
  | sys (q : SysCall)
  | execute (command : List UInt8)

/-- A call of `sys_execute` has come back: refused, or when the program that
it started is halted, by its call or by an exception, whatever the system has
done in between with no image that is too long for its page. -/
inductive Executed (fs : FsImage) (k : Kernel) (command : List UInt8) : Int → Kernel → Prop
  | refused {regs v out k'} : Step fs k (.execute command regs, .value v out) k' → Executed fs k command v k'
  | ended {regs eip k1 later k2 haltRegs ebp eax k'} : Step fs k (.execute command regs, .entered eip) k1 →
      Run (Happens fs) k1 later k2 → (∀ e ∈ later, ¬ e.act.Overlong fs e.pre) →
      (∀ e ∈ later, e.pre.curPid = k1.curPid → ¬ e.act.Halts) →
      k2.curPid = k1.curPid →
      ((∃ status, k2.sysHalt fs status haltRegs = .resumed k' ebp eax) ∨
        ∃ id errCode, k2.handleException fs id errCode haltRegs = .resumed k' ebp eax) →
      Executed fs k command eax.toInt k'

/-- Process `p` runs, and what its shell asks for is done. -/
def ShellServes (fs : FsImage) (p : Int) (k : Kernel) (q : ShellCall) (a : Answer) (k' : Kernel) : Prop :=
  match q with
  | .sys q => Serves fs p k q a k'
  | .execute command => k.curPid = p ∧ a.2 = [] ∧ Executed fs k command a.1 k'

/-- Something happens, an exception perhaps, that process `p` does not do, and
no image in it is too long for its page. -/
def Bystander (fs : FsImage) (p : Int) (k k' : Kernel) : Prop :=
  ∃ o, Happens fs k o k' ∧ ¬ o.Overlong fs k ∧ (k.curPid = p → ∃ l, o = .act l ∧ l.1.isInterrupt = true)

theorem Bystander.moves {fs : FsImage} {p : Int} {k k' : Kernel} (by_ : Bystander fs p k k') :
    ∃ o, Moves fs k o k' ∧ (k.curPid = p → ∃ l, o = .act l ∧ l.1.isInterrupt = true) := by
  obtain ⟨o, happens, fits, notOwn⟩ := by_
  exact ⟨o, moves_iff.mpr ⟨happens, fits⟩, notOwn⟩

/-- Where `main` of ece391shell.c is. -/
inductive Shell
  | start (buf : Nat → UInt8)
  | prompting (buf : Nat → UInt8)
  | reading (buf : Nat → UInt8)
  | readFailed
  | executing (buf : Nat → UInt8)
  | reporting (buf : Nat → UInt8) (message : List UInt8)
  | returned (v : Int)

namespace Shell

def bannerText : List UInt8 := ascii "Starting 391 Shell\n"

def promptText : List UInt8 := ascii "391OS> "

def readFailedText : List UInt8 := ascii "read from keyboard failed\n"

def exitText : List UInt8 := ascii "exit"

def noCommandText : List UInt8 := ascii "no such command\n"

def faultText : List UInt8 := ascii "program terminated by exception\n"

def abnormalText : List UInt8 := ascii "program terminated abnormally\n"

def ask (a : Addresses) : Shell → Option ShellCall
  | start _ => some (.sys (fdputs 1 a.text (cString bannerText)))
  | prompting _ => some (.sys (fdputs 1 a.text (cString promptText)))
  | reading _ => some (.sys (.read 0 a.buf 1023))
  | readFailed => some (.sys (fdputs 1 a.text (cString readFailedText)))
  | executing buf => some (.execute (stringAt buf))
  | reporting _ message => some (.sys (fdputs 1 a.text (cString message)))
  | returned _ => none

/-- The buffer behind the read: a newline at its end is cut off. -/
def readLine (buf : Nat → UInt8) (cnt : Int) : Nat → UInt8 :=
  let cnt := if 0 < cnt ∧ buf (cnt - 1).toNat = 10 then cnt - 1 else cnt
  Function.update buf cnt.toNat 0

def take : Shell → Answer → Shell
  | start buf, _ => prompting buf
  | prompting buf, _ => reading buf
  | reading buf, r =>
    if r.1 = -1 then readFailed
    else
      let buf := readLine (storeList buf 0 r.2) r.1
      if ece391Strcmp buf (cString exitText) = 0 then returned 0
      else if buf 0 = 0 then prompting buf
      else executing buf
  | readFailed, _ => returned 3
  | executing buf, r =>
    if r.1 = -1 then reporting buf noCommandText
    else if r.1 = 256 then reporting buf faultText
    else if r.1 ≠ 0 then reporting buf abnormalText
    else prompting buf
  | reporting buf _, _ => prompting buf
  | returned v, _ => returned v

def result : Shell → Option Int
  | returned v => some v
  | _ => none

end Shell

/-- ece391shell.c -/
def shellProgram (a : Addresses) : Client Shell ShellCall Answer := ⟨Shell.ask a, Shell.take⟩

namespace Shell

/-- A line typed in, and what its command came back with, if there was one. -/
structure Round where
  line : List UInt8
  status : Option Int

/-- What is said of a status. -/
def statusText (v : Int) : List UInt8 :=
  if v = -1 then noCommandText else if v = 256 then faultText else if v ≠ 0 then abnormalText else []

/-- A line as the terminal hands it over: at most 127 characters and a newline. -/
structure Typed (line : List UInt8) : Prop where
  noNewline : 10 ∉ line
  noNul : 0 ∉ line
  short : line.length < 128

/-- Every line but an empty one is a command. It is not found exactly when
`sys_execute` knows no program of that name, and ends with the status of its
program otherwise. -/
structure Round.Proper (fs : FsImage) (r : Round) : Prop where
  typed : Typed r.line
  notExit : r.line ≠ exitText
  command : r.status = none ↔ r.line = []
  unknown : ∀ v, r.status = some v → (v = -1 ↔ findProgram fs (parseCommand (cString r.line)).1 = none)
  range : ∀ v, r.status = some v → v = -1 ∨ (0 ≤ v ∧ v ≤ 256)

def Round.text (r : Round) : List UInt8 := promptText ++ (r.status.map statusText).getD []

def Round.run (r : Round) : Option (List UInt8 × Int) := r.status.map fun v => (r.line, v)

/-- What the shell shows on its terminal. -/
def shown (calls : List (ShellCall × Answer)) : List UInt8 :=
  calls.reverse.flatMap fun c =>
    match c.1 with
    | .sys q => bytesWritten (q, c.2)
    | .execute _ => []

/-- The lines it has read. -/
def linesRead (calls : List (ShellCall × Answer)) : List (List UInt8) :=
  calls.reverse.filterMap fun c =>
    match c.1 with
    | .sys (.read _ _ _) => some c.2.2
    | _ => none

/-- The commands that have come back, with their status. -/
def commandsRun (calls : List (ShellCall × Answer)) : List (List UInt8 × Int) :=
  calls.reverse.filterMap fun c =>
    match c.1 with
    | .execute command => some (command, c.2.1)
    | .sys _ => none

/-- What a shell has shown, read and run in its calls. -/
structure Transcript (calls : List (ShellCall × Answer)) (text : List UInt8) (lines : List (List UInt8))
    (runs : List (List UInt8 × Int)) : Prop where
  shown : shown calls = text
  lines : linesRead calls = lines
  runs : commandsRun calls = runs

/-- The same in the round that it is in. -/
inductive Underway (fs : FsImage) : Shell → List UInt8 → List (List UInt8) → List (List UInt8 × Int) → Prop
  | prompting {buf} : Underway fs (prompting buf) [] [] []
  | reading {buf} : Underway fs (reading buf) promptText [] []
  | executing {buf} : Typed (stringAt buf) → stringAt buf ≠ exitText → stringAt buf ≠ [] →
      Underway fs (executing buf) promptText [stringAt buf ++ [10]] []
  | reporting {buf line v} : Round.Proper fs ⟨line, some v⟩ → v ≠ 0 →
      Underway fs (reporting buf (statusText v)) promptText [line ++ [10]] [(line, v)]
  | returned : Underway fs (returned 0) promptText [exitText ++ [10]] []

/-- Round by round the shell prompts, reads a line, runs it and reports its
status; it is in the round after these, or it has not begun. -/
def At (fs : FsImage) (calls : List (ShellCall × Answer)) (s : Shell) : Prop :=
  (calls = [] ∧ ∃ buf, s = start buf) ∨
    ∃ (rounds : List Round) (text : List UInt8) (lines : List (List UInt8)) (runs : List (List UInt8 × Int)),
      (∀ r ∈ rounds, r.Proper fs) ∧ Underway fs s text lines runs ∧
      Transcript calls (bannerText ++ rounds.flatMap Round.text ++ text)
        (rounds.map (fun r => r.line ++ [10]) ++ lines) (rounds.filterMap Round.run ++ runs)

section Lines

/-- A line that the scan lets through, as it is copied. -/
theorem copyLine_line {temp : Nat → UInt8} {n idx len : Nat} (found : scanLine temp n idx = true) (room : n ≤ len + 1) :
    ∃ line, copyLine temp len idx = line ++ [10] ∧ 10 ∉ line ∧ 0 ∉ line ∧ line.length < n := by
  induction n generalizing idx len with
  | zero => cases found
  | succ n ih =>
    unfold scanLine at found
    split at found
    · cases found
    rename_i char
    by_cases newline : temp idx = 10
    · have last : copyLine temp len idx = [10] := by
        cases len with
        | zero => rw [copyLine, newline]
        | succ len => rw [copyLine, if_neg (not_not.mpr newline), newline]
      exact ⟨[], last, by simp, by simp, by simp⟩
    · rw [if_neg newline] at found
      have more : n ≠ 0 := by
        rintro rfl
        cases found
      obtain ⟨len, rfl⟩ : ∃ m, len = m + 1 := ⟨len - 1, by omega⟩
      unfold copyLine
      obtain ⟨line, copied, noNewline, noNul, short⟩ := ih found (Nat.le_of_succ_le_succ room)
      refine ⟨temp idx :: line, ?_, ?_, ?_, by rw [List.length_cons]; omega⟩
      · rw [if_pos newline, copied]
        rfl
      · simpa [Ne.symm newline] using noNewline
      · simpa [Ne.symm char] using noNul

/-- The buffer holds the line without its newline. -/
theorem readLine_stringAt {line : List UInt8} (typed : Typed line) (buf : Nat → UInt8) :
    StringAt (readLine (storeList buf 0 (line ++ [10])) (line.length + 1)) 0 line := by
  have stored {i : Nat} (inside : i < (line ++ [10]).length) :
      storeList buf 0 (line ++ [10]) i = (line ++ [10])[i] := by
    have cell := storeList_within (m := buf) (a := 0) inside
    rwa [Nat.zero_add] at cell
  have last : storeList buf 0 (line ++ [10]) line.length = 10 := by
    rw [stored (by simp)]
    simp
  have cut : readLine (storeList buf 0 (line ++ [10])) (line.length + 1) =
      Function.update (storeList buf 0 (line ++ [10])) line.length 0 := by
    have place : ((line.length : Int) + 1 - 1).toNat = line.length := by omega
    simp only [readLine, place, last]
    rw [if_pos ⟨by omega, trivial⟩, place]
  rw [cut]
  refine ⟨fun i inside => ?_, ?_, ?_⟩
  · rw [Nat.zero_add, Function.update_of_ne (by omega), stored (by simp; omega), List.getElem_append_left inside]
  · rintro c member rfl
    exact typed.noNul member
  · rw [Nat.zero_add, Function.update_self]

end Lines

end Shell

/-- A program that is entered has its slot and a new table. -/
theorem step_fresh {fs : FsImage} {k k' : Kernel} {act : Act} {eip : Word} (move : Step fs k (act, .entered eip) k') :
    k'.pidArray k'.curPid ≠ 0 ∧ ∀ i, i < 8 → k'.entry k'.curPid i = freshTable i := by
  have fresh {k1 : Kernel} {command : List UInt8} {regs : Regs} {pid : Int}
      (run : k1.Started fs command regs pid k') :
      k'.pidArray k'.curPid ≠ 0 ∧ ∀ i, i < 8 → k'.entry k'.curPid i = freshTable i := by
    rw [run.curPid, run.pidArray, Function.update_self]
    exact ⟨by decide, run.table⟩
  cases step_effect move with
  | same _ _ notEntered _ => exact absurd rfl (notEntered eip)
  | started run => exact fresh run
  | base _ restarted =>
    rcases Kernel.sysExecute_outcome restarted with ⟨_, _, _, other⟩ | ⟨_, _, _, run⟩
    · cases other
    · exact fresh run
  | setup _ _ =>
    rcases step_tick move with ⟨_, _, _, other⟩ | ⟨_, launched⟩
    · cases other
    · rcases Kernel.sysExecute_outcome launched with ⟨_, _, _, other⟩ | ⟨_, _, _, run⟩
      · cases other
      · exact fresh run

/-- The shell has its slot, its two descriptors and its place in the chains. -/
structure Seated (base : Fin 3 → Int) (p : Int) (args : List UInt8) (k : Kernel) : Prop where
  settled : Settled base k
  resident : Resident p args k
  stdin : (k.entry p 0).fileOpTablePtr = .stdinOpt
  stdinUsed : (k.entry p 0).flags ≠ 0

section Calls

variable {fs : FsImage} {base : Fin 3 → Int} {p : Int} {args : List UInt8} {k k' : Kernel} {a : Answer}

theorem Bystander.spares (by_ : Bystander fs p k k') (taken : k.pidArray p ≠ 0) : Spared p k k' := by
  obtain ⟨o, move, notOwn⟩ := by_.moves
  cases move with
  | @act l _ step =>
    refine Others.spares ⟨l, step, fun own => ?_⟩ taken
    obtain ⟨l', same, interrupt⟩ := notOwn own
    cases same
    exact interrupt
  | exception run =>
    have elsewhere : k.curPid ≠ p := by
      intro own
      obtain ⟨l, same, _⟩ := notOwn own
      cases same
    obtain ⟨k1, output, halt⟩ := exception_halts run
    have slots : k1.pidArray p = k.pidArray p := congrFun output.processes.pidArray p
    have pcb : k1.pcb p = k.pcb p := congrFun output.pcb p
    have spared : Spared p k1 k' :=
      Others.spares ⟨_, halt, fun own => absurd (output.curPid.symm.trans own) elsewhere⟩ (by rw [slots]; exact taken)
    refine ⟨spared.slot.trans slots, fun i => (spared.entry i).trans ?_, spared.cmdArgs.trans (by rw [pcb])⟩
    rw [Kernel.entry, Kernel.entry, pcb]

theorem Seated.stable (seated : Seated base p args k) (present : ShellPresent fs) (by_ : Bystander fs p k k') :
    Seated base p args k' := by
  obtain ⟨slot, entry, cmdArgs⟩ := by_.spares seated.resident.slot
  obtain ⟨o, move, _⟩ := by_.moves
  obtain ⟨settled, resident, stdin, used⟩ := seated
  exact ⟨settled.moves present move, ⟨by rw [slot]; exact resident.slot, by rw [entry]; exact resident.stdout,
    by rw [entry]; exact resident.used, by rw [cmdArgs]; exact resident.args⟩, by rw [entry]; exact stdin,
    by rw [entry]; exact used⟩

/-- With its PCB and its slot as they were the shell stays. -/
theorem Seated.kept (seated : Seated base p args k) (settled : Settled base k') (pcb : k'.pcb p = k.pcb p)
    (slot : k'.pidArray p ≠ 0) : Seated base p args k' := by
  have entry (i : Nat) : k'.entry p i = k.entry p i := by rw [Kernel.entry, Kernel.entry, pcb]
  exact ⟨settled, ⟨slot, by rw [entry]; exact seated.resident.stdout, by rw [entry]; exact seated.resident.used,
    by rw [pcb]; exact seated.resident.args⟩, by rw [entry]; exact seated.stdin, by rw [entry]; exact seated.stdinUsed⟩

/-- The program that a call started halts in its caller. -/
theorem Executed.restored (present : ShellPresent fs) (start : Settled base k) {command : List UInt8} {regs : Regs}
    {eip : Word} {k1 k2 : Kernel} {later : List (Event Kernel Occurrence)}
    (call : Step fs k (.execute command regs, .entered eip) k1) (run : Run (Moves fs) k1 later k2)
    (alive : ∀ e ∈ later, e.pre.curPid = k1.curPid → ¬ e.act.Halts) (running : k2.curPid = k1.curPid)
    {haltRegs : Regs} {ebp eax : Word}
    (halts : (∃ status, k2.sysHalt fs status haltRegs = .resumed k' ebp eax) ∨
      ∃ id errCode, k2.handleException fs id errCode haltRegs = .resumed k' ebp eax) :
    Restored k k1.curPid k' ∧ Settled base k' ∧ 0 ≤ eax.toInt ∧ eax.toInt ≤ 256 := by
  have pending := Pending.waits present start call run alive
  have settled : Settled base k2 :=
    run.invariant (Settled base) (start.step present call) fun _ _ _ ok move => ok.moves present move
  rcases halts with ⟨status, halt⟩ | ⟨id, errCode, halt⟩
  · obtain ⟨k3, resumed, restored⟩ := pending.halt start running (BitVec.ofNat 32 status.toNat) haltRegs
    rw [Kernel.sysHalt] at halt
    have move : Step fs k2 (.halt (BitVec.ofNat 32 status.toNat) haltRegs, .resumed ebp eax) k' := by
      simp only [Step, perform, halt, HaltResult.outcome]
    rw [resumed] at halt
    simp only [HaltResult.resumed.injEq] at halt
    obtain ⟨rfl, _, rfl⟩ := halt
    have byte := status.toNat_lt
    refine ⟨restored, settled.step present move, ?_⟩
    rw [Word.toInt_ofNat (by omega)]
    omega
  · have output := (k2.setConsole_ttyOnly k2.ts (k2.console k2.ts).clearScreen).trans
      (Kernel.putAll_ttyOnly (exceptionText id errCode) _)
    obtain ⟨k3, resumed, restored⟩ :=
      (pending.same output).halt start (output.curPid.trans running) 256 haltRegs
    have move : Moves fs k2 (.exception id errCode haltRegs (.resumed ebp eax)) k' :=
      .exception (by rw [halt]; rfl)
    have same := halt.symm.trans resumed
    simp only [HaltResult.resumed.injEq] at same
    obtain ⟨rfl, _, rfl⟩ := same
    exact ⟨restored, settled.moves present move, by decide, by decide⟩

/-- A command is refused with -1 exactly when it names no program. -/
theorem sysExecute_refused {command : List UInt8} {regs : Regs} {v : Int} {out : List UInt8}
    (call : Step fs k (.execute command regs, .value v out) k') :
    (v = -1 ∧ findProgram fs (parseCommand (cString command)).1 = none) ∨
      (v = 69 ∧ findProgram fs (parseCommand (cString command)).1 ≠ none) := by
  simp only [Step, perform] at call
  cases found : findProgram fs (parseCommand (cString command)).1 with
  | none =>
    simp only [Kernel.sysExecute, Kernel.executeParsed, found, ExecResult.outcome, Option.some.injEq,
      Prod.mk.injEq, Reply.value.injEq] at call
    exact Or.inl ⟨call.2.1.symm, rfl⟩
  | some d =>
    refine Or.inr ⟨?_, by simp⟩
    cases slot : freePid k.pidArray with
    | none =>
      simp only [Kernel.sysExecute, Kernel.executeParsed, found, Kernel.claimPid_none slot, ExecResult.outcome,
        Option.some.injEq, Prod.mk.injEq, Reply.value.injEq] at call
      exact call.2.1.symm
    | some pid =>
      simp only [Kernel.sysExecute, Kernel.executeParsed, found, Kernel.claimPid_some slot] at call
      split at call <;> simp [ExecResult.outcome] at call

/-- What a shell finds when a call of `sys_execute` comes back. -/
theorem Executed.back {command : List UInt8} {v : Int} (present : ShellPresent fs)
    (seated : Seated base k.curPid args k) (executed : Executed fs k command v k') :
    Seated base k.curPid args k' ∧ (v = -1 ↔ findProgram fs (parseCommand (cString command)).1 = none) ∧
      (v = -1 ∨ (0 ≤ v ∧ v ≤ 256)) := by
  cases executed with
  | refused call =>
    have settled := seated.settled.step present call
    rcases step_execute call with ⟨prev, w, rfl, _⟩ | ⟨_, _, other, _⟩
    · refine ⟨seated.kept settled rfl seated.resident.slot, ?_⟩
      rcases sysExecute_refused call with ⟨rfl, unknown⟩ | ⟨rfl, known⟩
      · exact ⟨by simp [unknown], Or.inl rfl⟩
      · exact ⟨by simp [known], Or.inr (by decide)⟩
    · cases other
  | @ended regs eip k1 later k2 haltRegs ebp eax _ call run fits alive running halts =>
    obtain ⟨restored, settled, lower, upper⟩ :=
      Executed.restored present seated.settled call (happens_fit run fits) alive running halts
    have taken : k'.pidArray k.curPid ≠ 0 := by
      obtain ⟨forest, tree⟩ := settled.forest
      have here := tree.running_mem
      rw [restored.curPid] at here
      obtain ⟨low, high⟩ := tree.range _ _ here
      rw [(tree.slots _ low high).mpr ⟨_, here⟩]
      decide
    refine ⟨seated.kept settled restored.pcb taken, ?_, Or.inr ⟨lower, upper⟩⟩
    have known : findProgram fs (parseCommand (cString command)).1 ≠ none := by
      intro none
      simp only [Step, perform, Kernel.sysExecute, Kernel.executeParsed, none, ExecResult.outcome,
        Option.some.injEq, Prod.mk.injEq] at call
      cases call.2
    constructor
    · intro minus
      omega
    · exact fun none => absurd none known

/-- A call on descriptors that leaves tables and flags as they are. -/
theorem Seated.served {q : SysCall} (seated : Seated base p args k) (present : ShellPresent fs)
    (served : Serves fs p k q a k') (table : ∀ i, (k'.entry p i).fileOpTablePtr = (k.entry p i).fileOpTablePtr)
    (flags : ∀ i, (k'.entry p i).flags = (k.entry p i).flags) : Seated base p args k' := by
  obtain ⟨slot, cmdArgs⟩ := served.slot
  have settled : Settled base k' := by
    obtain ⟨_, move⟩ := served
    cases q with
    | read | write | openFile | close => exact seated.settled.step present move
    | getargs nbytes =>
      rw [move.1]
      exact seated.settled
  obtain ⟨_, resident, stdin, used⟩ := seated
  exact ⟨settled, ⟨by rw [slot]; exact resident.slot, by rw [table]; exact resident.stdout,
    by rw [flags]; exact resident.used, by rw [cmdArgs]; exact resident.args⟩, by rw [table]; exact stdin,
    by rw [flags]; exact used⟩

/-- The shell tells something. -/
theorem Seated.tells (seated : Seated base p args k) (present : ShellPresent fs) {addr : Nat} {text : List UInt8}
    (place : addr ≠ 0) (plain : 0 ∉ text) (short : text.length < 2 ^ 31)
    (served : Serves fs p k (fdputs 1 addr (cString text)) a k') :
    bytesWritten (fdputs 1 addr (cString text), a) = text ∧ Seated base p args k' := by
  obtain ⟨bytes, kept⟩ := seated.resident.puts place (stringAt_cString plain (by omega)) short served
  exact ⟨bytes, seated.served present served (fun i => by rw [kept]) (fun i => by rw [kept])⟩

/-- A read from the keyboard that has room for a line gives one, and leaves
tables and flags. -/
theorem Serves.line {buf : Nat} {n : Word} (place : buf ≠ 0) (room : 127 ≤ n.toInt)
    (stdin : (k.entry p 0).fileOpTablePtr = .stdinOpt) (used : (k.entry p 0).flags ≠ 0)
    (served : Serves fs p k (.read 0 buf n) a k') :
    (∃ line, Shell.Typed line ∧ a = ((line.length : Int) + 1, line ++ [10])) ∧
      ∀ i, (k'.entry p i).fileOpTablePtr = (k.entry p i).fileOpTablePtr ∧ (k'.entry p i).flags = (k.entry p i).flags := by
  obtain ⟨rfl, move⟩ := served
  obtain ⟨v, out, call, reply⟩ := step_read move
  simp only [Reply.value.injEq] at reply
  obtain ⟨rfl, rfl⟩ := reply
  constructor
  · rcases Kernel.sysRead_done call with ⟨_, _, _, refused⟩ | ⟨_, _, _, k1, driver, _⟩
    · rcases refused with below | above | unused
      · exact absurd below (by decide)
      · exact absurd above (by decide)
      · exact absurd unused used
    have terminal : (k.curPcb.fileDescriptorTable (0 : Int).toNat).fileOpTablePtr = .stdinOpt := stdin
    have count : ¬ (buf = 0 ∨ n.toInt < 0) := by
      rintro (null | negative)
      · exact place null
      · omega
    rw [terminal, OpTable.read, Kernel.terminalRead, if_neg count] at driver
    split at driver
    · rename_i typing
      have found : scanLine k.keyboardBuf 128 0 = true := by
        rw [Kernel.doneTyping, Bool.and_eq_true] at typing
        exact typing.1
      have asked : 128 ≤ n.toInt.toNat + 1 := by omega
      obtain ⟨line, copied, noNewline, noNul, short⟩ := Shell.copyLine_line found asked
      simp only [Outcome.done.injEq, Kernel.copyAndClear, Prod.mk.injEq] at driver
      obtain ⟨_, value, bytes⟩ := driver
      refine ⟨line, ⟨noNewline, noNul, short⟩, Prod.ext_iff.mpr ⟨?_, ?_⟩⟩
      · rw [← value, copied, List.length_append]
        rfl
      · exact bytes.symm.trans copied
    · cases driver
  · intro i
    rcases Kernel.sysRead_entry call k.curPid i with same | ⟨_, _, _, moved⟩
    · rw [same]
      exact ⟨rfl, rfl⟩
    · rw [moved]
      exact ⟨rfl, rfl⟩

/-- The shell reads a line. -/
theorem Seated.reads (seated : Seated base p args k) (present : ShellPresent fs) {buf : Nat} (place : buf ≠ 0)
    (served : Serves fs p k (.read 0 buf 1023) a k') :
    (∃ line, Shell.Typed line ∧ a = ((line.length : Int) + 1, line ++ [10])) ∧ Seated base p args k' := by
  obtain ⟨line, kept⟩ := served.line place (by decide) seated.stdin seated.stdinUsed
  exact ⟨line, seated.served present served (fun i => (kept i).1) fun i => (kept i).2⟩

end Calls

namespace Shell

variable {fs : FsImage} {base : Fin 3 → Int} {p : Int} {args : List UInt8} {k k' : Kernel} {a : Answer}
  {calls : List (ShellCall × Answer)}

theorem statusText_plain (v : Int) : 0 ∉ statusText v ∧ (statusText v).length < 2 ^ 31 := by
  unfold statusText
  split
  · decide
  split
  · decide
  split
  · decide
  · decide

theorem Transcript.tells {text said : List UInt8} {lines : List (List UInt8)} {runs : List (List UInt8 × Int)}
    {addr : Nat} (before : Transcript calls text lines runs)
    (bytes : bytesWritten (fdputs 1 addr (cString said), a) = said) :
    Transcript ((.sys (fdputs 1 addr (cString said)), a) :: calls) (text ++ said) lines runs := by
  obtain ⟨rfl, rfl, rfl⟩ := before
  refine ⟨?_, ?_, ?_⟩
  · simp [Shell.shown, bytes]
  · simp [linesRead, fdputs]
  · simp [commandsRun]

theorem Transcript.reads {text : List UInt8} {lines : List (List UInt8)} {runs : List (List UInt8 × Int)} {fd : Int}
    {buf : Nat} {n : Word} (before : Transcript calls text lines runs) :
    Transcript ((.sys (.read fd buf n), a) :: calls) text (lines ++ [a.2]) runs := by
  obtain ⟨rfl, rfl, rfl⟩ := before
  refine ⟨?_, ?_, ?_⟩
  · simp [Shell.shown, bytesWritten]
  · simp [linesRead]
  · simp [commandsRun]

theorem Transcript.runs_ {text : List UInt8} {lines : List (List UInt8)} {runs : List (List UInt8 × Int)}
    {command : List UInt8} (before : Transcript calls text lines runs) :
    Transcript ((.execute command, a) :: calls) text lines (runs ++ [(command, a.1)]) := by
  obtain ⟨rfl, rfl, rfl⟩ := before
  refine ⟨?_, ?_, ?_⟩
  · simp [Shell.shown]
  · simp [linesRead]
  · simp [commandsRun]

/-- The round that is over joins the ones before. -/
theorem At.closes {buf : Nat → UInt8} {rounds : List Round} {r : Round} {said : List UInt8}
    (proper : ∀ r ∈ rounds, r.Proper fs) (last : r.Proper fs) (text : r.text = promptText ++ said)
    (script : Transcript calls (bannerText ++ rounds.flatMap Round.text ++ (promptText ++ said))
      (rounds.map (fun r => r.line ++ [10]) ++ [r.line ++ [10]]) (rounds.filterMap Round.run ++ r.run.toList)) :
    At fs calls (prompting buf) := by
  refine Or.inr ⟨rounds ++ [r], [], [], [], ?_, .prompting, ?_⟩
  · intro r' member
    rcases List.mem_append.mp member with old | new
    · exact proper r' old
    · rw [List.mem_singleton.mp new]
      exact last
  · obtain ⟨shown, lines, runs⟩ := script
    refine ⟨?_, ?_, ?_⟩
    · rw [shown, ← text]
      simp
    · rw [lines]
      simp
    · rw [runs]
      cases ran : r.run <;> simp [ran]

theorem At.fed {buf : Nat → UInt8} {addr : Nat} {line : List UInt8} (typed : Typed line)
    (holds : At fs calls (reading buf)) :
    At fs ((.sys (.read 0 addr 1023), ((line.length : Int) + 1, line ++ [10])) :: calls)
      (take (reading buf) ((line.length : Int) + 1, line ++ [10])) := by
  rcases holds with ⟨_, _, other⟩ | ⟨rounds, text, lines, runs, proper, underway, script⟩
  · cases other
  cases underway
  have next : Transcript ((.sys (.read 0 addr 1023), ((line.length : Int) + 1, line ++ [10])) :: calls) _ _ _ :=
    script.reads
  rw [List.append_nil] at next
  have string := readLine_stringAt typed buf
  have exits : StringAt (cString exitText) 0 exitText := cString_stringAt (by decide +kernel)
  have short := typed.short
  have compares := ece391Strcmp_eq_zero string exits (by omega)
  have goesOn : ¬ (line.length : Int) + 1 = -1 := by omega
  simp only [take, goesOn, if_false]
  generalize readLine (storeList buf 0 (line ++ [10])) (line.length + 1) = buf' at string compares
  by_cases leaves : line = exitText
  · rw [if_pos (compares.mpr leaves)]
    subst leaves
    exact Or.inr ⟨rounds, promptText, _, [], proper, .returned, next⟩
  rw [if_neg fun same => leaves (compares.mp same)]
  by_cases empty : line = []
  · subst empty
    have first : buf' 0 = 0 := string.ends
    rw [if_pos first]
    have last : Round.Proper fs ⟨[], none⟩ := ⟨typed, leaves, by simp, by simp, by simp⟩
    have quiet : Round.text ⟨[], none⟩ = promptText ++ [] := rfl
    refine At.closes proper last quiet ?_
    rw [List.append_nil]
    exact next
  · have first : buf' 0 ≠ 0 := by
      have inside := List.length_pos_of_ne_nil empty
      have here := string.chars 0 inside
      rw [Nat.zero_add] at here
      rw [here]
      exact string.plain _ (List.getElem_mem inside)
    rw [if_neg first]
    have name : stringAt buf' = line := string.string (by omega)
    refine Or.inr ⟨rounds, promptText, _, [], proper, ?_, next⟩
    rw [← name] at typed leaves empty ⊢
    exact .executing typed leaves empty

theorem At.executed {buf : Nat → UInt8} (holds : At fs calls (executing buf))
    (unknown : a.1 = -1 ↔ findProgram fs (parseCommand (cString (stringAt buf))).1 = none)
    (range : a.1 = -1 ∨ (0 ≤ a.1 ∧ a.1 ≤ 256)) :
    At fs ((.execute (stringAt buf), a) :: calls) (take (executing buf) a) := by
  rcases holds with ⟨_, _, other⟩ | ⟨rounds, text, lines, runs, proper, underway, script⟩
  · cases other
  cases underway with
  | executing typed notExit notEmpty =>
  have next : Transcript ((.execute (stringAt buf), a) :: calls) _ _ _ := script.runs_
  rw [List.append_nil] at next
  have last : Round.Proper fs ⟨stringAt buf, some a.1⟩ :=
    ⟨typed, notExit, by simp [notEmpty], by simpa using unknown, by simpa using range⟩
  have reports (failed : a.1 ≠ 0) :
      At fs ((.execute (stringAt buf), a) :: calls) (reporting buf (statusText a.1)) :=
    Or.inr ⟨rounds, promptText, _, _, proper, .reporting last failed, next⟩
  simp only [take]
  by_cases missing : a.1 = -1
  · have text := reports (by omega)
    rw [statusText, if_pos missing] at text
    rwa [if_pos missing]
  rw [if_neg missing]
  by_cases fault : a.1 = 256
  · have text := reports (by omega)
    rw [statusText, if_neg missing, if_pos fault] at text
    rwa [if_pos fault]
  rw [if_neg fault]
  by_cases failed : a.1 ≠ 0
  · have text := reports failed
    rw [statusText, if_neg missing, if_neg fault, if_pos failed] at text
    rwa [if_pos failed]
  rw [if_neg failed]
  have quiet : Round.text ⟨stringAt buf, some a.1⟩ = promptText ++ [] := by
    rw [not_not.mp failed]
    rfl
  refine At.closes proper last quiet ?_
  rw [List.append_nil]
  exact next

/-- One call of a shell and what holds behind it. -/
theorem At.served {s : Shell} {q : ShellCall} (addr : Addresses) (present : ShellPresent fs)
    (seated : Seated base p args k) (holds : At fs calls s) (asks : ask addr s = some q)
    (served : ShellServes fs p k q a k') : Seated base p args k' ∧ At fs ((q, a) :: calls) (take s a) := by
  cases s with
  | start buf =>
    cases asks
    rcases holds with ⟨rfl, _⟩ | ⟨_, _, _, _, _, other, _⟩
    · obtain ⟨bytes, still⟩ := seated.tells present addr.text_ne (by decide) (by decide) served
      have first : Transcript [] [] [] [] := ⟨rfl, rfl, rfl⟩
      refine ⟨still, Or.inr ⟨[], [], [], [], by simp, .prompting, ?_⟩⟩
      simpa using first.tells bytes
    · cases other
  | prompting buf =>
    cases asks
    obtain ⟨bytes, still⟩ := seated.tells present addr.text_ne (by decide) (by decide) served
    rcases holds with ⟨_, _, other⟩ | ⟨rounds, text, lines, runs, proper, underway, script⟩
    · cases other
    cases underway
    refine ⟨still, Or.inr ⟨rounds, promptText, [], [], proper, .reading, ?_⟩⟩
    have next := script.tells bytes
    rwa [List.append_nil (bannerText ++ _)] at next
  | reading buf =>
    cases asks
    obtain ⟨⟨line, typed, rfl⟩, still⟩ := seated.reads present addr.buf_ne served
    exact ⟨still, holds.fed typed⟩
  | readFailed =>
    rcases holds with ⟨_, _, other⟩ | ⟨_, _, _, _, _, other, _⟩
    · cases other
    · cases other
  | executing buf =>
    cases asks
    obtain ⟨rfl, _, executed⟩ := served
    obtain ⟨still, unknown, range⟩ := executed.back present seated
    exact ⟨still, holds.executed unknown range⟩
  | reporting buf message =>
    cases asks
    rcases holds with ⟨_, _, other⟩ | ⟨rounds, text, lines, runs, proper, underway, script⟩
    · cases other
    cases underway with
    | @reporting _ line v last failed =>
    obtain ⟨plain, short⟩ := statusText_plain v
    obtain ⟨bytes, still⟩ := seated.tells present addr.text_ne plain short served
    refine ⟨still, At.closes proper last rfl ?_⟩
    have next := script.tells bytes
    rw [List.append_assoc (bannerText ++ _)] at next
    exact next
  | returned v => cases asks

/-- What a shell that runs waits for, if it waits: a line to be finished on
its terminal while that is shown, or the program of its command. -/
def Waits (fs : FsImage) (k : Kernel) (s : Shell) : Prop :=
  ((∃ buf, s = reading buf) ∧ k.doneTyping = false) ∨
    ∃ buf d pid, s = executing buf ∧ findProgram fs (parseCommand (cString (stringAt buf))).1 = some d ∧
      freePid k.pidArray = some pid

/-- Where `main` has not returned its next call is answered, or it waits. -/
theorem At.answered {s : Shell} (addr : Addresses) (seated : Seated base p args k) (holds : At fs calls s)
    (running : k.curPid = p) (goesOn : result s = none) :
    (∃ q a k', ask addr s = some q ∧ ShellServes fs p k q a k') ∨ Waits fs k s := by
  subst running
  have tells (text : List UInt8) (asks : ask addr s = some (.sys (fdputs 1 addr.text (cString text)))) :
      ∃ q a k', ask addr s = some q ∧ ShellServes fs k.curPid k q a k' := by
    obtain ⟨a, k', served⟩ := seated.resident.canWrite rfl addr.text (cString text)
      (BitVec.ofNat 32 (ece391Strlen (cString text)))
    exact ⟨_, a, k', asks, served⟩
  cases s with
  | start buf => exact Or.inl (tells bannerText rfl)
  | prompting buf => exact Or.inl (tells promptText rfl)
  | reporting buf message => exact Or.inl (tells message rfl)
  | readFailed =>
    rcases holds with ⟨_, _, other⟩ | ⟨_, _, _, _, _, other, _⟩
    · cases other
    · cases other
  | returned v => cases goesOn
  | reading buf =>
    by_cases typing : k.doneTyping = true
    · have call : k.sysRead fs (0 : Nat) addr.buf 1023 = _ :=
        k.sysRead_used fs addr.buf 1023 (by decide) seated.stdinUsed
      have count : ¬ (addr.buf = 0 ∨ (1023 : Word).toInt < 0) := by simp [addr.buf_ne]
      rw [seated.stdin, OpTable.read, Kernel.terminalRead, if_neg count, if_pos typing] at call
      have reads {k' : Kernel} {r : Answer} (done : k.sysRead fs (0 : Nat) addr.buf 1023 = .done (k', r)) :
          ∃ q a k', ask addr (reading buf) = some q ∧ ShellServes fs k.curPid k q a k' := by
        have done' : k.sysRead fs 0 addr.buf 1023 = .done (k', r) := done
        exact ⟨_, r, k', rfl, rfl, congrArg ReadReply.outcome done'⟩
      exact Or.inl (reads call)
    · exact Or.inr (Or.inl ⟨⟨buf, rfl⟩, Bool.eq_false_iff.mpr typing⟩)
  | executing buf =>
    cases found : findProgram fs (parseCommand (cString (stringAt buf))).1 with
    | none =>
      have call : Step fs k (.execute (stringAt buf) ⟨0, 0⟩, .value (-1) []) k := by
        simp [Step, perform, Kernel.sysExecute, Kernel.executeParsed, found, ExecResult.outcome]
      exact Or.inl ⟨_, (-1, []), k, rfl, rfl, rfl, .refused call⟩
    | some d =>
      cases slot : freePid k.pidArray with
      | none =>
        have call : Step fs k (.execute (stringAt buf) ⟨0, 0⟩, .value 69 []) k.claimPid.1 := by
          simp [Step, perform, Kernel.sysExecute, Kernel.executeParsed, found, Kernel.claimPid_none slot,
            ExecResult.outcome]
        exact Or.inl ⟨_, (69, []), _, rfl, rfl, rfl, .refused call⟩
      | some pid => exact Or.inr (Or.inr ⟨buf, d, pid, rfl, found, slot⟩)

end Shell

/-- What holds of a shell wherever it has come to: its rounds, that it ends
by `exit` alone, and that it never stops for anything but a line or a program. -/
structure Converses (fs : FsImage) (p : Int) (addr : Addresses) (calls : List (ShellCall × Answer)) (k : Kernel)
    (s : Shell) : Prop where
  rounds : Shell.At fs calls s
  exits : ∀ v, Shell.result s = some v → v = 0 ∧ (Shell.linesRead calls).getLast? = some (Shell.exitText ++ [10])
  alive : k.pidArray p ≠ 0
  answered : k.curPid = p → Shell.result s = none →
    (∃ q a k', Shell.ask addr s = some q ∧ ShellServes fs p k q a k') ∨ Shell.Waits fs k s

/-- A shell that is entered in the running system, by a call of `sys_execute`
or in the place of a base shell that halts, among any other steps and any
exceptions of other programs, none of which executes an image that is too long. -/
theorem shell_converses {fs : FsImage} (present : ShellPresent fs) {pcbs : Int → Pcb} {ram : Nat → UInt8}
    {ptFrame ptUserFrame : BitVec 20} {boot : List Happening} {first k0 k1 k : Kernel}
    (booted : Booting fs (entryState pcbs ram ptFrame ptUserFrame) 3 boot first)
    {earlier : List (Event Kernel Occurrence)} (reach : Run (Happens fs) first earlier k0)
    (fits : ∀ e ∈ earlier, ¬ e.act.Overlong fs e.pre) {act : Act} {eip : Word}
    (call : Step fs k0 (act, .entered eip) k1) (addr : Addresses) (buf : Nat → UInt8) {s : Shell}
    {history : List (Event (Kernel × Shell) (Option (ShellCall × Answer)))}
    (run : Run ((shellProgram addr).step (Bystander fs k1.curPid) (ShellServes fs k1.curPid)) (k1, .start buf)
      history (k, s)) : Converses fs k1.curPid addr (asked history) k s := by
  obtain ⟨slot, table⟩ := step_fresh call
  have settled : Settled first.activePids k1 := (Settled.run present booted (happens_fit reach fits)).step present call
  have seated : Seated first.activePids k1.curPid (stringAt (k1.pcb k1.curPid).cmdArgs) k1 := by
    refine ⟨settled, ⟨slot, ?_, ?_, rfl⟩, ?_, ?_⟩
    · rw [table 1 (by decide)]
      rfl
    · rw [table 1 (by decide)]
      decide
    · rw [table 0 (by decide)]
      rfl
    · rw [table 0 (by decide)]
      decide
  generalize stringAt (k1.pcb k1.curPid).cmdArgs = args at seated
  generalize k1.curPid = p at seated run ⊢
  have outline : Client.Outline (shellProgram addr) (Bystander fs p) (ShellServes fs p) fun calls k s =>
      Seated first.activePids p args k ∧ Shell.At fs calls s := by
    constructor
    · rintro calls k s k' ⟨seated, holds⟩ others
      exact ⟨seated.stable present others, holds⟩
    · rintro calls k s q a k' ⟨seated, holds⟩ asks served
      exact Shell.At.served addr present seated holds asks served
  obtain ⟨still, holds⟩ := outline.holds run ⟨seated, Or.inl ⟨rfl, buf, rfl⟩⟩
  refine ⟨holds, fun v returned => ?_, still.resident.slot, holds.answered addr still⟩
  rcases holds with ⟨_, _, rfl⟩ | ⟨rounds, _, _, _, _, underway, script⟩
  · cases returned
  · cases underway with
    | returned =>
      cases returned
      refine ⟨rfl, ?_⟩
      rw [script.lines]
      simp
    | prompting | reading | executing | reporting => cases returned

/-- Whether the act halts the running process. -/
def Act.isHalt : Act → Bool
  | .halt _ _ => true
  | _ => false

/-- The answer to what a shell asks for, where it has one: at once, or when the
program of a command has been halted, with `status`, after the acts `later`. -/
def Kernel.shellAnswer (fs : FsImage) (later : List Act) (status : UInt8) (p : Int) (k : Kernel) :
    ShellCall → Option (Answer × Kernel)
  | .sys q => k.answer fs p q
  | .execute command =>
    if k.curPid = p then
      match k.sysExecute fs command ⟨0, 0⟩ with
      | .returned k' v => some ((v, []), k')
      | .started k1 _ =>
        (performAll fs later ([], k1)).bind fun r =>
          if r.2.curPid = k1.curPid ∧ r.1.all (fun e => !e.act.1.isHalt) then
            match r.2.sysHalt fs status ⟨0, 0⟩ with
            | .resumed k' _ eax => some ((eax.toInt, []), k')
            | .restarted _ => none
          else none
      | .faulted _ => none
    else none

theorem Kernel.shellAnswer_serves {fs : FsImage} (short : ∀ inode, inode < fs.numInodes →
    (fs.fileLength inode).toNat ≤ 0x3B8000) {later : List Act} {status : UInt8} {p : Int} {k k' : Kernel}
    {q : ShellCall} {a : Answer} (answered : k.shellAnswer fs later status p q = some (a, k')) :
    ShellServes fs p k q a k' := by
  cases q with
  | sys q => exact Kernel.answer_serves answered
  | execute command =>
    simp only [shellAnswer] at answered
    split at answered
    · rename_i running
      split at answered
      · rename_i v call
        cases answered
        have step : Step fs k (.execute command ⟨0, 0⟩, .value v []) k' := by
          simp only [Step, perform, call, ExecResult.outcome]
        exact ⟨running, rfl, .refused step⟩
      · rename_i k1 eip call
        obtain ⟨r, done, halts⟩ := Option.bind_eq_some_iff.mp answered
        split at halts
        · rename_i still
          obtain ⟨same, calm⟩ := still
          split at halts <;> cases halts
          rename_i ebp eax halt
          have step : Step fs k (.execute command ⟨0, 0⟩, .entered eip) k1 := by
            simp only [Step, perform, call, ExecResult.outcome]
          have run := Run.occurs ((performAll_run .start done).change fun _ _ step => .step step)
          refine ⟨running, rfl, .ended step run (fun e _ => e.act.short short e.pre) ?_ same (Or.inl ⟨status, halt⟩)⟩
          intro e member _ halts
          obtain ⟨⟨pre, ⟨act, reply⟩, post⟩, listed, rfl⟩ := List.mem_map.mp member
          have other := List.all_eq_true.mp calm _ listed
          cases act <;> first | exact halts | simp [Act.isHalt] at other
        · cases halts
      · cases answered
    · cases answered

/-- An interrupt, where it comes through. -/
def Kernel.interrupted (fs : FsImage) (k : Kernel) (act : Act) : Option Kernel :=
  if act.isInterrupt then (perform fs k act).map (·.1) else none

theorem Kernel.interrupted_bystander {fs : FsImage} {p : Int} {k k' : Kernel} {act : Act}
    (taken : k.interrupted fs act = some k') : Bystander fs p k k' := by
  unfold interrupted at taken
  split at taken
  · rename_i interrupt
    obtain ⟨s, moved, rfl⟩ := Option.map_eq_some_iff.mp taken
    obtain ⟨happens, fits⟩ := moves_iff.mp (.act (l := (act, s.2)) moved)
    exact ⟨.act (act, s.2), happens, fits, fun _ => ⟨_, rfl, interrupt⟩⟩
  · cases taken

/-- The shell of the third terminal is shown, and `a`, `shell` and `exit` are
typed: its calls and the interrupts between them. The first tick shows the first
terminal again. -/
def sampleScript : List (Option Act) :=
  [none, none, some (.switchTo 3), some (.key 0x1E), some (.key 0x1C), none, none, none, none, some (.key 0x1F),
    some (.key 0x23), some (.key 0x12), some (.key 0x26), some (.key 0x26), some (.key 0x1C), none, none, none, none,
    some (.switchTo 3), some (.key 0x12), some (.key 0x2D), some (.key 0x17), some (.key 0x14), some (.key 0x1C), none]

/-- What is done until the program of a command halts: the other terminals have
their turn, where a shell is executed. -/
def sampleLater : List Act :=
  [.tick ⟨1, 1⟩ ⟨0, 0⟩, .execute shell ⟨0, 0⟩, .tick ⟨2, 2⟩ ⟨0, 0⟩, .tick ⟨3, 3⟩ ⟨0, 0⟩, .putc 33]

/-- What the shell that the third one has started does in this script. -/
def sampleTalk (boot : List Happening × Kernel) :
    Option (Kernel × Word × List (Event (Kernel × Shell) (Option (ShellCall × Answer))) × (Kernel × Shell)) :=
  match boot.2.sysExecute sampleImage shell ⟨0, 0⟩ with
  | .started k eip =>
    (replay ((shellProgram sampleAddresses).next (Kernel.shellAnswer sampleImage sampleLater 3 k.curPid)
      (Kernel.interrupted sampleImage)) sampleScript ([], (k, .start fun _ => 0))).map fun r => (k, eip, r)
  | .returned _ _ | .faulted _ => none

theorem sampleTalk_run {boot : List Happening × Kernel} {k1 k : Kernel} {eip : Word} {s : Shell}
    {history : List (Event (Kernel × Shell) (Option (ShellCall × Answer)))}
    (done : sampleTalk boot = some (k1, eip, history, (k, s))) :
    Step sampleImage boot.2 (.execute shell ⟨0, 0⟩, .entered eip) k1 ∧
      Run ((shellProgram sampleAddresses).step (Bystander sampleImage k1.curPid) (ShellServes sampleImage k1.curPid))
        (k1, .start fun _ => 0) history (k, s) := by
  unfold sampleTalk at done
  split at done
  · rename_i k1' eip' started
    obtain ⟨result, run, same⟩ := Option.map_eq_some_iff.mp done
    cases same
    have sound (k : Kernel) (q : ShellCall) (a : Answer) (k' : Kernel)
        (answered : Kernel.shellAnswer sampleImage sampleLater 3 k1.curPid k q = some (a, k')) :
        ShellServes sampleImage k1.curPid k q a k' := Kernel.shellAnswer_serves sampleImage_lengths answered
    have apart (k : Kernel) (act : Act) (k' : Kernel) (taken : k.interrupted sampleImage act = some k') :
        Bystander sampleImage k1.curPid k k' := Kernel.interrupted_bystander taken
    have moves (x : Kernel × Shell) (b : Option Act) (l : Option (ShellCall × Answer)) (y : Kernel × Shell)
        (taken : (shellProgram sampleAddresses).next (Kernel.shellAnswer sampleImage sampleLater 3 k1.curPid)
          (Kernel.interrupted sampleImage) x b = some (l, y)) :
        (shellProgram sampleAddresses).step (Bystander sampleImage k1.curPid) (ShellServes sampleImage k1.curPid) x l y :=
      Client.next_step sound apart taken
    refine ⟨?_, replay_run moves .start run⟩
    simp only [Step, perform, started, ExecResult.outcome]
  · cases done
  · cases done

/-- The third shell starts another, where a command that is not there, one that
halts with status 3, and `exit` are typed. -/
theorem shell_converses_sample : ∃ (p : Int) (calls : List (ShellCall × Answer)) (k : Kernel) (s : Shell),
    Shell.result s = some 0 ∧ Shell.shown calls = ascii "Starting 391 Shell\n391OS> no such command\n391OS> " ++
      ascii "program terminated abnormally\n391OS> " ∧
      Shell.commandsRun calls = [(ascii "a", -1), (shell, 3)] ∧ Converses sampleImage p sampleAddresses calls k s := by
  have computed : (performAll sampleImage setUpActs ([], sampleEntry)).bind (fun boot => (sampleTalk boot).map fun r =>
      (Shell.result r.2.2.2.2, Shell.shown (asked r.2.2.1), Shell.commandsRun (asked r.2.2.1))) =
        some (some 0, ascii "Starting 391 Shell\n391OS> no such command\n391OS> " ++
          ascii "program terminated abnormally\n391OS> ", [(ascii "a", -1), (shell, 3)]) := by
    decide +kernel
  obtain ⟨boot, setUp, talked⟩ := Option.bind_eq_some_iff.mp computed
  obtain ⟨⟨k1, eip, history, k, s⟩, done, values⟩ := Option.map_eq_some_iff.mp talked
  obtain ⟨ended, rest⟩ := Prod.mk.inj values
  obtain ⟨text, commands⟩ := Prod.mk.inj rest
  obtain ⟨call, run⟩ := sampleTalk_run done
  exact ⟨k1.curPid, asked history, k, s, ended, text, commands,
    shell_converses sampleImage_fits.present (setUpActs_booting setUp) .start (by simp) call sampleAddresses
      (fun _ => 0) run⟩

end UnixLite
