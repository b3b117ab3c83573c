import UnixLite.ParserBuffers
import UnixLite.OpenFiles

namespace UnixLite

open Transition

namespace Kernel

theorem setFd_cmdArgs (k : Kernel) (p q : Int) (fd : Nat) (f : Fd → Fd) :
    ((k.setFd p fd f).pcb q).cmdArgs = (k.pcb q).cmdArgs := by
  by_cases same : q = p
  · simp [setFd, setPcb, same]
  · simp [setFd, setPcb, same]

theorem sysRead_cmdArgs {fs : FsImage} {k k' : Kernel} {fd : Int} {buf : Nat} {nbytes : Word} {v : Int}
    {out : List UInt8} (run : k.sysRead fs fd buf nbytes = .done (k', v, out)) (q : Int) :
    (k'.pcb q).cmdArgs = (k.pcb q).cmdArgs := by
  rcases sysRead_done run with ⟨rfl, _⟩ | ⟨_, _, _, k1, driver, rfl⟩
  · rfl
  · rw [setFd_cmdArgs, (OpTable.read_kept driver).1]

theorem sysOpen_cmdArgs (fs : FsImage) (k : Kernel) (name : List UInt8) (q : Int) :
    ((k.sysOpen fs name).1.pcb q).cmdArgs = (k.pcb q).cmdArgs := by
  rcases k.sysOpen_pcb fs name with same | ⟨fd, f, set⟩
  · rw [same]
  · rw [set, setFd_cmdArgs]

theorem sysClose_cmdArgs (k : Kernel) (fd : Int) (q : Int) :
    ((k.sysClose fd).1.pcb q).cmdArgs = (k.pcb q).cmdArgs := by
  rcases k.sysClose_pcb fd with same | set
  · rw [same]
  · rw [set, setFd_cmdArgs]

theorem newPcb_args (k : Kernel) (command : Nat → UInt8) (regs : Regs) :
    stringAt (k.newPcb (parseCommand command).2 regs).cmdArgs = (parseCommand command).2 := by
  have short := parseCommand_args command
  have text := (parseCommand_text command).2
  have parsed := Buffer.holds_string (fun _ => 0) text (by omega)
  rw [newPcb_cmdArgs k command (fun _ => 0) (fun _ => 0) regs, storePcbArgs_eq, parseBuffers_eq, parsed,
    Buffer.holds_string _ text (by omega)]

/-- The argument string of the program that `sys_execute` enters. -/
theorem sysExecute_args {fs : FsImage} {k k' : Kernel} {command : List UInt8} {regs : Regs} {eip : Word}
    (run : k.sysExecute fs command regs = .started k' eip) :
    stringAt k'.curPcb.cmdArgs = (parseCommand (cString command)).2 := by
  obtain ⟨_, _, _, _, _, _, _, rfl, _⟩ := sysExecute_inv run
  simp only [startProgram, curPcb, setTerm, setPcb, mapProgram, Function.update_self]
  exact newPcb_args _ _ regs

end Kernel

/-- A program keeps its arguments through every step until it halts or its
slot goes to another one. -/
theorem step_cmdArgs {fs : FsImage} {p : Int} {k k' : Kernel} {l : Act × Reply} (move : Step fs k l k')
    (notStarted : Starts p ⟨k, l, k'⟩ = false) (notHalted : Halts p ⟨k, l, k'⟩ = false) :
    (k'.pcb p).cmdArgs = (k.pcb p).cmdArgs := by
  obtain ⟨act, r⟩ := l
  have other {k1 : Kernel} {command : List UInt8} {regs : Regs} {eip : Word} {pid : Int}
      (run : k1.Started fs command regs pid k') (entered : r = .entered eip) : p ≠ pid := by
    intro same
    simp [Starts, entered, run.curPid, same] at notStarted
  cases act with
  | execute command regs =>
    rcases step_execute move with ⟨prev, v, rfl, _⟩ | ⟨eip, pid, entered, run⟩
    · rfl
    · rw [run.otherPcb p (other run entered)]
  | halt status regs =>
    have elsewhere : p ≠ k.curPid := by
      intro same
      simp [Halts, same] at notHalted
    rcases step_halt move with ⟨_, rfl, _⟩ | ⟨_, restarted⟩
    · rw [k.haltBody_halted.otherPcb p elsewhere]
    · rcases Kernel.sysExecute_outcome restarted with ⟨prev, v, rfl, _⟩ | ⟨eip, pid, entered, run⟩
      · rfl
      · rw [run.otherPcb p (other run entered)]
        rfl
  | tick regs execRegs =>
    rcases step_tick move with ⟨ready, _, shape, _⟩ | ⟨inSetup, launched⟩
    · have pcb := ((k.saveContext regs).finishInit_parts ready).1.pcb
      rw [shape, (Kernel.nextTerminal_parts _).2.2.2.1]
      exact (congrArg Pcb.cmdArgs (congrFun pcb p)).trans
        (k.saveContext_field regs Pcb.cmdArgs (fun _ => rfl) p)
    · have saved : (((k.saveContext regs).launchTerminal ⟨_, inSetup⟩).pcb p).cmdArgs =
          (k.pcb p).cmdArgs := k.launchTerminal_field regs _ Pcb.cmdArgs (fun _ => rfl) p
      rcases Kernel.sysExecute_outcome launched with ⟨prev, v, rfl, _⟩ | ⟨eip, pid, entered, run⟩
      · exact saved
      · rw [run.otherPcb p (other run entered)]
        exact saved
  | key keypress =>
    cases move
    rw [(k.keyboardHandler_ttyOnly keypress).pcb]
  | switchTo function =>
    cases move
    rw [(k.terminalSwitch_ttyOnly function).pcb]
  | read fd buf nbytes =>
    obtain ⟨v, out, call, _⟩ := step_read move
    exact Kernel.sysRead_cmdArgs call p
  | write fd buf src nbytes =>
    obtain ⟨v, call, _⟩ := step_write move
    rw [(Kernel.sysWrite_kept call).1]
  | openFile filename =>
    cases move
    exact k.sysOpen_cmdArgs fs filename p
  | close fd =>
    cases move
    exact k.sysClose_cmdArgs fd p
  | putc c =>
    cases move
    rw [(k.putc_ttyOnly c).pcb]
  | vidStore off b =>
    cases move
    rfl

/-- The same over a run. -/
theorem run_cmdArgs {fs : FsImage} {p : Int} {first k : Kernel} {history : List Happening}
    (run : Runs fs first history k)
    (alive : ∀ e ∈ history, Starts p e = false ∧ Halts p e = false) :
    (k.pcb p).cmdArgs = (first.pcb p).cmdArgs := by
  induction run with
  | start => rfl
  | next _ move ih =>
    obtain ⟨notStarted, notHalted⟩ := alive _ (List.mem_cons_self ..)
    rw [step_cmdArgs move notStarted notHalted]
    exact ih fun e member => alive e (List.mem_cons_of_mem _ member)

/-- `sys_getargs` by the argument string. -/
theorem Kernel.sysGetargs_eq (k : Kernel) (nbytes : Word) : k.sysGetargs nbytes =
    if (stringAt k.curPcb.cmdArgs).length = 0 ∨
        ((stringAt k.curPcb.cmdArgs).length : Int) > (nbytes - 1).toInt then (-1, [])
    else (0, stringAt k.curPcb.cmdArgs ++ [0]) := by
  rw [stringAt_length]
  rfl

/-- A command line: blanks, a name, blanks and arguments. -/
structure CommandLine where
  before : Nat
  name : List UInt8
  between : Nat
  args : List UInt8
  nameLength : 1 ≤ name.length ∧ name.length ≤ 32
  nameChars : ∀ c ∈ name, c ≠ 32 ∧ c ≠ 10 ∧ c ≠ 0
  argsLength : args.length ≤ 127
  argsText : 0 ∉ args
  argsStart : args.head? ≠ some 32
  separated : args ≠ [] → 1 ≤ between

namespace CommandLine

def blanks (n : Nat) : List UInt8 := List.replicate n 32

def text (c : CommandLine) : List UInt8 := blanks c.before ++ (c.name ++ (blanks c.between ++ c.args))

theorem text_chars (c : CommandLine) : 0 ∉ c.text := by
  simp only [text, blanks, List.mem_append, List.mem_replicate, not_or]
  refine ⟨by simp, fun member => ?_, by simp, c.argsText⟩
  exact (c.nameChars 0 member).2.2 rfl

theorem args_empty (c : CommandLine) (none : c.between = 0) : c.args = [] := by
  by_contra some
  have separated := c.separated some
  omega

/-- What follows the name does not go on with it. -/
theorem behind_name (c : CommandLine) (n : Nat) :
    ((blanks c.between ++ c.args).take n).takeWhile inName = [] := by
  cases n with
  | zero => simp
  | succ n =>
    by_cases none : c.between = 0
    · simp [none, c.args_empty none, blanks]
    · obtain ⟨m, more⟩ := Nat.exists_eq_succ_of_ne_zero none
      simp [more, blanks, List.replicate_succ, inName]

theorem dropBlanks (c : CommandLine) :
    c.text.dropWhile isBlank = c.name ++ (blanks c.between ++ c.args) := by
  have allBlank : ∀ b ∈ blanks c.before, isBlank b = true := by
    intro b member
    rw [List.eq_of_mem_replicate member]
    rfl
  rw [text, List.dropWhile_append_of_pos allBlank]
  cases shape : c.name with
  | nil =>
    have nonempty := c.nameLength.1
    rw [shape] at nonempty
    simp at nonempty
  | cons first rest =>
    have char := (c.nameChars first (shape ▸ List.mem_cons_self ..)).1
    rw [List.cons_append, List.dropWhile_cons_of_neg]
    simpa [isBlank] using char

theorem name_parsed (c : CommandLine) : commandName c.text = c.name := by
  have chars : ∀ b ∈ c.name, inName b = true := by
    intro b member
    obtain ⟨notBlank, notNewline, _⟩ := c.nameChars b member
    simp [inName, notBlank, notNewline]
  have short := c.nameLength.2
  rw [commandName, dropBlanks, List.take_append, List.take_of_length_le (by omega),
    List.takeWhile_append_of_pos chars, behind_name, List.append_nil]

/-- All but one of the blanks between name and arguments go to the arguments. -/
theorem args_parsed (c : CommandLine) : argumentPart c.text = blanks (c.between - 1) ++ c.args := by
  rw [argumentPart, name_parsed, dropBlanks, ← List.drop_drop, List.drop_left]
  by_cases none : c.between = 0
  · simp [none, c.args_empty none, blanks]
  · obtain ⟨m, more⟩ := Nat.exists_eq_succ_of_ne_zero none
    simp [more, blanks, List.replicate_succ]

/-- The arguments come back as they were given: all of them with their NUL to
a buffer that is large enough, and -1 to one that is not or without any. -/
def RoundTrips (c : CommandLine) (nbytes : Word) (reply : Int × List UInt8) : Prop :=
  if c.args = [] then reply = (-1, [])
  else (c.args.length < nbytes.toInt → reply = (0, c.args ++ [0])) ∧
    (0 ≤ nbytes.toInt → nbytes.toInt ≤ c.args.length → reply = (-1, []))

/-- With the buffer size taken for the arguments and for nothing but blanks. -/
def Separated (c : CommandLine) (nbytes : Word) : Prop :=
  c.between ≤ 1 ∨ (c.args ≠ [] ∧ nbytes.toInt ≤ c.args.length) ∨
    (c.args = [] ∧ (nbytes - 1).toInt < min (c.between - 1) 128)

/-- The reply for a stored argument string. -/
def reply (stored : List UInt8) (nbytes : Word) : Int × List UInt8 :=
  if stored.length = 0 ∨ (stored.length : Int) > (nbytes - 1).toInt then (-1, []) else (0, stored ++ [0])

theorem reply_refused {stored : List UInt8} {nbytes : Word} (some : stored ≠ []) :
    reply stored nbytes = (-1, []) ↔ (nbytes - 1).toInt < stored.length := by
  have length : stored.length ≠ 0 := fun none => some (List.eq_nil_of_length_eq_zero none)
  unfold reply
  constructor
  · intro refused
    by_contra room
    rw [if_neg (by omega)] at refused
    cases refused
  · intro short
    rw [if_pos (Or.inr short)]

/-- A buffer of at least one byte has a predecessor for its size. -/
theorem positive_pred {nbytes : Word} (count : 0 ≤ nbytes.toInt) : (nbytes - 1).toInt = nbytes.toInt - 1 := by
  refine Word.toInt_pred ?_
  rintro rfl
  exact absurd count (by decide)

/-- A single blank goes, so the arguments are stored as they stand. -/
theorem single_blank (c : CommandLine) (nbytes : Word) : c.RoundTrips nbytes (reply c.args nbytes) := by
  unfold RoundTrips
  by_cases none : c.args = []
  · rw [if_pos none, none]
    rfl
  · rw [if_neg none]
    refine ⟨fun room => ?_, fun count short => ?_⟩
    · have length : c.args.length ≠ 0 := fun zero => none (List.eq_nil_of_length_eq_zero zero)
      have pred : (nbytes - 1).toInt = nbytes.toInt - 1 := positive_pred (by omega)
      rw [reply, if_neg (by omega)]
    · have pred := positive_pred count
      rw [reply_refused none]
      omega

/-- Of several blanks at least one is stored in front of the arguments. -/
theorem several_blanks (c : CommandLine) {stored : List UInt8} (nbytes : Word)
    (starts : stored.head? = some 32) (longer : c.args.length < stored.length) (some : c.args ≠ []) :
    c.RoundTrips nbytes (reply stored nbytes) ↔ nbytes.toInt ≤ c.args.length := by
  have nonempty : stored ≠ [] := by
    rintro rfl
    cases starts
  unfold RoundTrips
  rw [if_neg some]
  constructor
  · rintro ⟨whole, _⟩
    by_contra room
    have returned := whole (by omega)
    unfold reply at returned
    split at returned
    · cases returned
    · have same : stored = c.args := List.append_cancel_right (congrArg Prod.snd returned)
      exact c.argsStart (same ▸ starts)
  · intro short
    refine ⟨fun room => by omega, fun count _ => ?_⟩
    have pred := positive_pred count
    rw [reply_refused nonempty]
    omega

theorem reply_iff (c : CommandLine) (nbytes : Word) :
    c.RoundTrips nbytes (reply ((blanks (c.between - 1) ++ c.args).take 128) nbytes) ↔
      c.Separated nbytes := by
  have argsLength := c.argsLength
  by_cases single : c.between ≤ 1
  · have alone : (blanks (c.between - 1) ++ c.args).take 128 = c.args := by
      rw [show c.between - 1 = 0 by omega, show blanks 0 = [] from rfl, List.nil_append,
        List.take_of_length_le (by omega)]
    rw [alone]
    exact ⟨fun _ => Or.inl single, fun _ => c.single_blank nbytes⟩
  · obtain ⟨m, more⟩ := Nat.exists_eq_add_of_le (show 2 ≤ c.between by omega)
    have starts : ((blanks (c.between - 1) ++ c.args).take 128).head? = some 32 := by
      rw [show c.between - 1 = m + 1 by omega, blanks, List.replicate_succ]
      rfl
    have length : ((blanks (c.between - 1) ++ c.args).take 128).length =
        min 128 (c.between - 1 + c.args.length) := by
      rw [List.length_take, List.length_append, blanks, List.length_replicate]
    generalize (blanks (c.between - 1) ++ c.args).take 128 = stored at starts length
    unfold Separated
    by_cases none : c.args = []
    · have nonempty : stored ≠ [] := by
        rintro rfl
        cases starts
      rw [none, List.length_nil] at length
      rw [RoundTrips, if_pos none, reply_refused nonempty, none]
      constructor
      · intro short
        exact Or.inr (Or.inr ⟨rfl, by omega⟩)
      · rintro (few | ⟨some, _⟩ | ⟨_, short⟩)
        · exact absurd few single
        · exact absurd rfl some
        · omega
    · rw [c.several_blanks nbytes starts (by omega) none]
      constructor
      · exact fun short => Or.inr (Or.inl ⟨none, short⟩)
      · rintro (few | ⟨_, short⟩ | ⟨empty, _⟩)
        · exact absurd few single
        · exact short
        · exact absurd empty none

end CommandLine

/-- From the start of a program on, as long as it runs, `sys_getargs` gives
back the arguments of its command line exactly when a single blank stands
before them, or the buffer is too small anyway. -/
theorem arguments_round_trip {fs : FsImage} {k k1 k2 : Kernel} (c : CommandLine)
    (fits : c.text.length < 2 ^ 32) {regs : Regs} {eip : Word}
    (started : k.sysExecute fs c.text regs = .started k1 eip) {history : List Happening}
    (run : Runs fs k1 history k2)
    (alive : ∀ e ∈ history, Starts k1.curPid e = false ∧ Halts k1.curPid e = false)
    (current : k2.curPid = k1.curPid) (nbytes : Word) :
    c.RoundTrips nbytes (k2.sysGetargs nbytes) ↔ c.Separated nbytes := by
  have kept := run_cmdArgs run alive
  have stored : stringAt k2.curPcb.cmdArgs = (CommandLine.blanks (c.between - 1) ++ c.args).take 128 := by
    rw [Kernel.curPcb, current, kept]
    have args := Kernel.sysExecute_args started
    rw [parseCommand_split, stringAt_cString c.text_chars fits.le, c.args_parsed] at args
    exact args
  rw [k2.sysGetargs_eq, stored]
  exact c.reply_iff nbytes

/-- The shell called with arguments `a b` behind one blank, or behind two. -/
def shellLine (between : Nat) (separated : 1 ≤ between) : CommandLine where
  before := 1
  name := shell
  between := between
  args := [97, 32, 98]
  nameLength := by decide
  nameChars := by decide +kernel
  argsLength := by decide
  argsText := by decide
  argsStart := by decide
  separated _ := separated

theorem shellLine_starts (between : Nat) (separated : 1 ≤ between) (short : between ≤ 100) :
    ∃ k eip, sampleEntry.sysExecute sampleImage (shellLine between separated).text ⟨0, 0⟩ = .started k eip := by
  have fits : (shellLine between separated).text.length ≤ 2 ^ 32 := by
    simp [CommandLine.text, CommandLine.blanks, shellLine, shell]
    omega
  have parsed : (parseCommand (cString (shellLine between separated).text)).1 = shell := by
    rw [parseCommand_split, stringAt_cString (shellLine between separated).text_chars fits]
    exact (shellLine between separated).name_parsed
  have program : findProgram sampleImage (parseCommand (cString (shellLine between separated).text)).1 =
      some (sampleImage.dentryAt 1) := by
    rw [parsed]
    exact sampleImage_program
  exact sampleEntry.sysExecute_starts ⟨0, 0⟩ program (show freePid _ = some 0 from rfl)
    (by rw [sampleImage_length]; decide)

theorem arguments_round_trip_sample : ∃ k eip,
    sampleEntry.sysExecute sampleImage (shellLine 1 le_rfl).text ⟨0, 0⟩ = .started k eip ∧
      k.sysGetargs 128 = (0, [97, 32, 98, 0]) := by
  obtain ⟨k, eip, started⟩ := shellLine_starts 1 le_rfl (by decide)
  have back := (arguments_round_trip (shellLine 1 le_rfl) (by decide) started .start (by simp) rfl 128).mpr
    (Or.inl le_rfl)
  rw [CommandLine.RoundTrips, if_neg (by simp [shellLine])] at back
  exact ⟨k, eip, started, back.1 (by decide)⟩

/-- With a second blank in between, the arguments come back with a blank in front. -/
theorem arguments_not_round_trip : ∃ k eip,
    sampleEntry.sysExecute sampleImage (shellLine 2 (by omega)).text ⟨0, 0⟩ = .started k eip ∧
      k.sysGetargs 128 = (0, [32, 97, 32, 98, 0]) := by
  obtain ⟨k, eip, started⟩ := shellLine_starts 2 (by omega) (by decide)
  have args := Kernel.sysExecute_args started
  rw [parseCommand_split, stringAt_cString (CommandLine.text_chars _) (by decide),
    CommandLine.args_parsed] at args
  refine ⟨k, eip, started, ?_⟩
  rw [k.sysGetargs_eq, args]
  decide

end UnixLite
