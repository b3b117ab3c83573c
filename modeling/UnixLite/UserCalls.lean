import UnixLite.Arguments
import UnixLite.Startup
import UnixLite.DirectoryIndex
import UnixLite.FileReads
import UnixLite.Grep
import UnixLite.Library.Clients

namespace UnixLite

open Transition Store

/-- The calls through which a user program uses descriptors and arguments,
with what it hands over. `src` is its memory at `buf`. -/
inductive SysCall
  | read (fd : Int) (buf : Nat) (nbytes : Word)
  | write (fd : Int) (buf : Nat) (src : Nat → UInt8) (nbytes : Word)
  | openFile (filename : List UInt8)
  | close (fd : Int)
  | getargs (nbytes : Word)

/-- What a call gives back: its value and the bytes stored from `buf` on. -/
abbrev Answer := Int × List UInt8

/-- Process `p` runs, and its call is answered. -/
def Serves (fs : FsImage) (p : Int) (k : Kernel) (q : SysCall) (a : Answer) (k' : Kernel) : Prop :=
  k.curPid = p ∧
    match q with
    | .read fd buf nbytes => Step fs k (.read fd buf nbytes, .value a.1 a.2) k'
    | .write fd buf src nbytes => Step fs k (.write fd buf src nbytes, .value a.1 a.2) k'
    | .openFile filename => Step fs k (.openFile filename, .value a.1 a.2) k'
    | .close fd => Step fs k (.close fd, .value a.1 a.2) k'
    | .getargs nbytes => k' = k ∧ a = k.sysGetargs nbytes

/-- A step of the system that process `p` does not make. -/
def Others (fs : FsImage) (p : Int) (k k' : Kernel) : Prop :=
  ∃ l, Step fs k l k' ∧ (k.curPid = p → l.1.isInterrupt = true)

/-- What the steps of others leave to a process: its slot, its table and its
arguments. -/
structure Spared (p : Int) (k k' : Kernel) : Prop where
  slot : k'.pidArray p = k.pidArray p
  entry : ∀ i, k'.entry p i = k.entry p i
  cmdArgs : (k'.pcb p).cmdArgs = (k.pcb p).cmdArgs

/-- A slot that is taken is not given away. -/
theorem Kernel.Started.other {fs : FsImage} {k k' : Kernel} {command : List UInt8} {regs : Regs} {pid p : Int}
    (run : k.Started fs command regs pid k') (taken : k.pidArray p ≠ 0) : p ≠ pid := by
  rintro rfl
  exact taken (freePid_some run.slot).2.2.1

theorem Others.apart {fs : FsImage} {p : Int} {k k' : Kernel} {l : Act × Reply} (move : Step fs k l k')
    (notOwn : k.curPid = p → l.1.isInterrupt = true) (taken : k.pidArray p ≠ 0) :
    Starts p ⟨k, l, k'⟩ = false ∧ Halts p ⟨k, l, k'⟩ = false ∧ k'.pidArray p = k.pidArray p := by
  obtain ⟨act, r⟩ := l
  have halts : Halts p ⟨k, (act, r), k'⟩ = false := by
    by_cases own : k.curPid = p
    · refine halts_false (Or.inl fun status regs halt => ?_)
      simp only at halt
      rw [halt] at notOwn
      exact absurd (notOwn own) (by simp [Act.isInterrupt])
    · exact halts_false (Or.inr own)
  have begun {k1 : Kernel} {command : List UInt8} {regs : Regs} {eip : Word} {pid : Int}
      (run : k1.Started fs command regs pid k') (slots : k1.pidArray p = k.pidArray p) :
      Starts p ⟨k, (act, .entered eip), k'⟩ = false ∧ k'.pidArray p = k.pidArray p := by
    have other := run.other (p := p) (by rw [slots]; exact taken)
    refine ⟨by simp [Starts, run.curPid, other.symm], ?_⟩
    rw [run.pidArray, Function.update_of_ne other, slots]
  cases step_effect move with
  | same notHalt notTick notEntered processes =>
    exact ⟨starts_false notEntered, halts, congrFun processes.pidArray p⟩
  | started run =>
    obtain ⟨notStarted, slot⟩ := begun run rfl
    exact ⟨notStarted, halts, slot⟩
  | resumed child =>
    have elsewhere : p ≠ k.curPid := by
      rintro rfl
      simp [Halts] at halts
    refine ⟨starts_false (by simp), halts, ?_⟩
    rw [k.haltBody_halted.pidArray, Function.update_of_ne elsewhere]
  | base orphan restarted =>
    have elsewhere : p ≠ k.curPid := by
      rintro rfl
      simp [Halts] at halts
    have freed : k.freeBase.pidArray p = k.pidArray p := Function.update_of_ne elsewhere _ _
    rcases Kernel.sysExecute_outcome restarted with ⟨prev, v, rfl, rfl⟩ | ⟨eip, pid, rfl, run⟩
    · exact ⟨starts_false (by simp), halts, freed⟩
    · obtain ⟨notStarted, slot⟩ := begun run freed
      exact ⟨notStarted, halts, slot⟩
  | switched ready switched shape =>
    exact ⟨starts_false (by simp), halts, congrFun switched.pidArray p⟩
  | @setup regs execRegs r k' inSetup launched =>
    rw [k.pitHandler_launches fs _ _ inSetup] at launched
    have slots : ((k.saveContext regs).launchTerminal ⟨_, inSetup⟩).pidArray p = k.pidArray p :=
      congrFun ((k.saveContext regs).launchTerminal_parts ⟨_, inSetup⟩).2.2.1 p
    rcases Kernel.sysExecute_outcome launched with ⟨prev, v, rfl, rfl⟩ | ⟨eip, pid, rfl, run⟩
    · exact ⟨starts_false (by simp), halts, slots⟩
    · obtain ⟨notStarted, slot⟩ := begun run slots
      exact ⟨notStarted, halts, slot⟩

theorem Others.spares {fs : FsImage} {p : Int} {k k' : Kernel} (others : Others fs p k k')
    (taken : k.pidArray p ≠ 0) : Spared p k k' := by
  obtain ⟨l, move, notOwn⟩ := others
  obtain ⟨notStarted, notHalted, slot⟩ := Others.apart move notOwn taken
  refine ⟨slot, fun i => ?_, step_cmdArgs move notStarted notHalted⟩
  have notCall (own : k.curPid = p) : l.1.isInterrupt = true := notOwn own
  cases step_table p move with
  | fresh starts _ => exact absurd starts (by simp [notStarted])
  | ended _ halts => exact absurd halts (by simp [notHalted])
  | openFile own act _ | close own act _ | read own act _ =>
    simp only at own act
    have interrupt := notCall own
    rw [act] at interrupt
    simp [Act.isInterrupt] at interrupt
  | apart _ _ _ kept => exact kept i

/-- A call neither ends the process nor takes its arguments. -/
theorem Serves.slot {fs : FsImage} {p : Int} {k k' : Kernel} {q : SysCall} {a : Answer}
    (served : Serves fs p k q a k') :
    k'.pidArray p = k.pidArray p ∧ (k'.pcb p).cmdArgs = (k.pcb p).cmdArgs := by
  obtain ⟨running, served⟩ := served
  have kept {act : Act} {v : Int} {out : List UInt8} (move : Step fs k (act, .value v out) k')
      (notHalt : ∀ status regs, act ≠ .halt status regs) (notTick : ∀ regs execRegs, act ≠ .tick regs execRegs)
      (notExecute : ∀ command regs, act ≠ .execute command regs) :
      k'.pidArray p = k.pidArray p ∧ (k'.pcb p).cmdArgs = (k.pcb p).cmdArgs := by
    refine ⟨?_, step_cmdArgs move (starts_false (by simp)) (halts_false (Or.inl notHalt))⟩
    cases step_effect move with
    | same _ _ _ processes => exact congrFun processes.pidArray p
    | base => exact absurd rfl (notHalt _ _)
    | setup => exact absurd rfl (notTick _ _)
  cases q with
  | read | write | openFile | close => exact kept served (by simp) (by simp) (by simp)
  | getargs nbytes =>
    rw [served.1]
    exact ⟨rfl, rfl⟩

/-- `ece391_fdputs` of a string at an address. -/
def fdputs (fd : Int) (addr : Nat) (s : Nat → UInt8) : SysCall := .write fd addr s (BitVec.ofNat 32 (ece391Strlen s))

def ascii (s : String) : List UInt8 := s.toList.map Char.toUInt8

/-- The bytes that a call has brought to the terminal. -/
def bytesWritten : SysCall × Answer → List UInt8
  | (.write fd _ src nbytes, a) => if fd = 1 ∧ a.1 ≠ -1 then (List.range nbytes.toInt.toNat).map src else []
  | _ => []

/-- All that a program has printed. -/
def printed (calls : List (SysCall × Answer)) : List UInt8 := calls.reverse.flatMap bytesWritten

theorem printed_cons (c : SysCall × Answer) (calls : List (SysCall × Answer)) :
    printed (c :: calls) = printed calls ++ bytesWritten c := by
  simp [printed]

/-- The addresses of a program's array and of its string literals. -/
structure Addresses where
  buf : Nat
  text : Nat
  buf_ne : buf ≠ 0
  text_ne : text ≠ 0

/-- Process `p` is there, with its terminal as second descriptor and `args`
as its arguments. -/
structure Resident (p : Int) (args : List UInt8) (k : Kernel) : Prop where
  slot : k.pidArray p ≠ 0
  stdout : (k.entry p 1).fileOpTablePtr = .stdoutOpt
  used : (k.entry p 1).flags ≠ 0
  args : stringAt (k.pcb p).cmdArgs = args

/-- A string at the beginning of an array. -/
theorem StringAt.string {cells : Nat → UInt8} {str : List UInt8} (holds : StringAt cells 0 str)
    (short : str.length ≤ 2 ^ 32) : stringAt cells = str := by
  have same := holds.fdputs short
  simpa only [Nat.zero_add, ece391Fdputs_eq] using same

section Residents

variable {fs : FsImage} {p : Int} {args : List UInt8} {k k' : Kernel} {a : Answer}

theorem Resident.stable (here : Resident p args k) (others : Others fs p k k') : Resident p args k' := by
  obtain ⟨slot, entry, cmdArgs⟩ := others.spares here.slot
  exact ⟨by rw [slot]; exact here.slot, by rw [entry]; exact here.stdout, by rw [entry]; exact here.used,
    by rw [cmdArgs]; exact here.args⟩

theorem Resident.served {q : SysCall} (here : Resident p args k) (served : Serves fs p k q a k')
    (kept : k'.entry p 1 = k.entry p 1) : Resident p args k' := by
  obtain ⟨slot, cmdArgs⟩ := served.slot
  exact ⟨by rw [slot]; exact here.slot, by rw [kept]; exact here.stdout, by rw [kept]; exact here.used,
    by rw [cmdArgs]; exact here.args⟩

/-- What a program finds when it is entered. -/
theorem Resident.entered {command : List UInt8} {regs : Regs} {eip : Word} {k0 : Kernel}
    (start : k0.sysExecute fs command regs = .started k eip) :
    Resident k.curPid (parseCommand (cString command)).2 k ∧
      ∀ i, 2 ≤ i → i < 8 → (k.entry k.curPid i).flags = 0 := by
  obtain ⟨pid, run⟩ := Kernel.sysExecute_started start
  have table (i : Nat) (inside : i < 8) : k.entry k.curPid i = freshTable i := by
    rw [run.curPid]
    exact run.table i inside
  refine ⟨⟨?_, ?_, ?_, Kernel.sysExecute_args start⟩, fun i lower inside => ?_⟩
  · rw [run.pidArray, run.curPid, Function.update_self]
    decide
  · rw [table 1 (by decide)]
    rfl
  · rw [table 1 (by decide)]
    decide
  · rw [table i inside, freshTable, if_neg (by omega), if_neg (by omega)]
    rfl

theorem Kernel.sysWrite_terminal (k : Kernel) {buf : Nat} {src : Nat → UInt8} {nbytes : Word}
    (stdout : (k.entry k.curPid 1).fileOpTablePtr = .stdoutOpt) (used : (k.entry k.curPid 1).flags ≠ 0) :
    k.sysWrite 1 buf src nbytes = .done (k.terminalWrite buf src nbytes) := by
  have inside : ¬ ((1 : Int) < 0 ∨ (1 : Int) > 8) := by decide
  have notLast : ¬ (1 : Int) = 8 := by decide
  unfold sysWrite
  rw [if_neg inside, if_neg notLast]
  exact (if_neg used).trans (congrArg (fun op : OpTable => op.write k buf src nbytes) stdout)

theorem Serves.write_readIndex {fd : Int} {buf : Nat} {src : Nat → UInt8} {nbytes : Word}
    (served : Serves fs p k (.write fd buf src nbytes) a k') : k'.readIndex = k.readIndex := by
  obtain ⟨_, move⟩ := served
  obtain ⟨v, call, _⟩ := step_write move
  exact (Kernel.sysWrite_kept call).2

/-- Writing to the terminal always succeeds. -/
theorem Resident.writes (here : Resident p args k) {buf : Nat} {src : Nat → UInt8} {nbytes : Word}
    (place : buf ≠ 0) (count : 0 ≤ nbytes.toInt) (served : Serves fs p k (.write 1 buf src nbytes) a k') :
    a.1 = nbytes.toInt ∧ ∀ i, k'.entry p i = k.entry p i := by
  obtain ⟨rfl, move⟩ := served
  obtain ⟨v, call, reply⟩ := step_write move
  have pcb := (Kernel.sysWrite_kept call).1
  rw [k.sysWrite_terminal here.stdout here.used, Kernel.terminalWrite, if_neg (by omega)] at call
  simp only [Outcome.done.injEq, Prod.mk.injEq] at call
  simp only [Reply.value.injEq] at reply
  exact ⟨by rw [reply.1, ← call.2], fun i => by rw [Kernel.entry, Kernel.entry, pcb]⟩

/-- Printing a string. -/
theorem Resident.puts (here : Resident p args k) {addr : Nat} {s : Nat → UInt8} {str : List UInt8} (place : addr ≠ 0)
    (string : stringAt s = str) (short : str.length < 2 ^ 31)
    (served : Serves fs p k (fdputs 1 addr s) a k') :
    bytesWritten (fdputs 1 addr s, a) = str ∧ ∀ i, k'.entry p i = k.entry p i := by
  have length : ece391Strlen s = str.length := by
    rw [← string, stringAt_length]
    rfl
  have count : (BitVec.ofNat 32 (ece391Strlen s)).toInt = str.length := by rw [length, Word.toInt_ofNat short]
  obtain ⟨value, kept⟩ := here.writes place (by omega) served
  refine ⟨?_, kept⟩
  have positive : a.1 ≠ -1 := by omega
  simp only [fdputs, bytesWritten, positive, ne_eq, not_false_eq_true, and_self, if_true, count, Int.toNat_natCast]
  rw [← string, stringAt_length]
  rfl

theorem Resident.canWrite (here : Resident p args k) (running : k.curPid = p) (buf : Nat) (src : Nat → UInt8)
    (nbytes : Word) : ∃ a k', Serves fs p k (.write 1 buf src nbytes) a k' := by
  subst running
  have call : k.sysWrite 1 buf src nbytes = .done (k.terminalWrite buf src nbytes) :=
    k.sysWrite_terminal here.stdout here.used
  refine ⟨((k.terminalWrite buf src nbytes).2, []), (k.terminalWrite buf src nbytes).1, rfl, ?_⟩
  simp [Step, perform, call]

/-- The arguments arrive in a buffer of 1024 bytes if there are any. -/
theorem Resident.getargs (here : Resident p args k) (short : args.length ≤ 128)
    (served : Serves fs p k (.getargs 1024) a k') : k' = k ∧
      ((args = [] ∧ a.1 ≠ 0) ∨ (args ≠ [] ∧ a.1 = 0 ∧ ∀ buf, stringAt (storeList buf 0 a.2) = args)) := by
  obtain ⟨running, same, reply⟩ := served
  subst same
  refine ⟨rfl, ?_⟩
  have pcb : stringAt k'.curPcb.cmdArgs = args := by
    rw [Kernel.curPcb, running]
    exact here.args
  rw [Kernel.sysGetargs_eq, pcb] at reply
  by_cases none : args = []
  · subst none
    rw [List.length_nil, if_pos (Or.inl rfl)] at reply
    subst reply
    exact Or.inl ⟨rfl, by decide⟩
  · have fits : ¬ (args.length = 0 ∨ (args.length : Int) > ((1024 : Word) - 1).toInt) := by
      have length := List.length_pos_of_ne_nil none
      have limit : ((1024 : Word) - 1).toInt = 1023 := by decide
      omega
    rw [if_neg fits] at reply
    subst reply
    refine Or.inr ⟨none, rfl, fun buf => StringAt.string ⟨fun i inside => ?_, ?_, ?_⟩ (by omega)⟩
    · rw [storeList_within (by simp; omega), List.getElem_append_left inside]
    · intro c member zero
      refine stringAt_text (k'.pcb p).cmdArgs ?_
      rw [here.args, ← zero]
      exact member
    · rw [storeList_within (by simp)]
      simp

/-- A program gets the lowest descriptor that is free, set up by the type of
the entry found. -/
theorem Serves.opens {name : List UInt8} {fd : Nat} (served : Serves fs p k (.openFile name) a k')
    (lower : 2 ≤ fd) (slot : fd < 8) (free : (k.entry p fd).flags = 0)
    (taken : ∀ i, 2 ≤ i → i < fd → (k.entry p i).flags ≠ 0) : k'.readIndex = k.readIndex ∧
    ((readDentryByName fs (cString name) = none ∧ a.1 = -1 ∧ k' = k) ∨
      ∃ d, readDentryByName fs (cString name) = some d ∧ a.1 = fd ∧
        ((tableOfType d.fileType = none ∧ k' = k) ∨
          ∃ op, tableOfType d.fileType = some op ∧ ∀ i, k'.entry p i =
            if i = fd then ⟨op, d.inodeNum, 0, 1⟩ else k.entry p i)) := by
  obtain ⟨rfl, move⟩ := served
  simp only [Step, perform, Option.some.injEq, Prod.mk.injEq, Reply.value.injEq] at move
  obtain ⟨rfl, value, _⟩ := move
  refine ⟨k.sysOpen_readIndex fs name, ?_⟩
  rw [← value]
  rcases k.sysOpen_cases fs name with ⟨refused, same⟩ | ⟨d, fd', found, lower', upper', free', below, result, set⟩
  · rcases refused with missing | full
    · exact Or.inl ⟨missing, by rw [same], by rw [same]⟩
    · exact absurd free (full fd lower slot)
  · have lowest : fd' = fd := by
      rcases Nat.lt_trichotomy fd' fd with less | same | more
      · exact absurd free' (taken fd' lower' less)
      · exact same
      · exact absurd free (below fd lower more)
    subst lowest
    refine Or.inr ⟨d, found, result, ?_⟩
    rcases set with ⟨untyped, same⟩ | ⟨op, typed, entries⟩
    · exact Or.inl ⟨untyped, same⟩
    · exact Or.inr ⟨op, typed, fun i => by rw [entries]; simp⟩

/-- A descriptor in use is closed. -/
theorem Serves.closes {fd : Nat} (served : Serves fs p k (.close fd) a k') (lower : 2 ≤ fd) (slot : fd < 8)
    (used : (k.entry p fd).flags ≠ 0) (notDirectory : (k.entry p fd).fileOpTablePtr ≠ .dirOpt) :
    a.1 = 0 ∧ (k'.entry p fd).flags = 0 ∧ (∀ i, i ≠ fd → k'.entry p i = k.entry p i) ∧ k'.readIndex = k.readIndex := by
  obtain ⟨rfl, move⟩ := served
  simp only [Step, perform, Option.some.injEq, Prod.mk.injEq, Reply.value.injEq] at move
  obtain ⟨rfl, value, _⟩ := move
  have calm := Kernel.sysClose_calm (k := k) fun (_ : (fd : Int).toNat < 8) used => notDirectory used.1
  rcases k.sysClose_cases fd with ⟨refused, _⟩ | ⟨_, _, _, zero, entries⟩
  · rcases refused with below | above | unused
    · omega
    · omega
    · exact absurd unused used
  · refine ⟨value.symm.trans zero, ?_, fun i other => ?_, calm.readIndex⟩
    · rw [entries, if_pos ⟨rfl, rfl⟩]
      rfl
    · rw [entries, if_neg]
      rintro ⟨_, rfl⟩
      exact other rfl

/-- An entry open on a regular file, at a position inside. -/
structure OpenOn (fs : FsImage) (d : Dentry) (e : Fd) (pos : Nat) : Prop where
  table : e.fileOpTablePtr = .fileOpt
  inode : e.inodeNum = d.inodeNum
  used : e.flags ≠ 0
  position : e.filePos.toNat = pos
  within : pos ≤ (fs.contents d.inodeNum).length

/-- The next piece of a regular file. -/
theorem OpenOn.read {d : Dentry} {name : Nat → UInt8} {fd pos buf : Nat} {n : Word}
    (opened : OpenOn fs d (k.entry p fd) pos) (ok : FilesOk fs) (file : d.fileType = 2)
    (found : readDentryByName fs name = some d) (slot : fd < 8) (count : 0 ≤ n.toInt)
    (served : Serves fs p k (.read fd buf n) a k') :
    a.2 = ((fs.contents d.inodeNum).drop pos).take n.toNat ∧ a.1 = a.2.length ∧
      (∀ i, i ≠ fd → k'.entry p i = k.entry p i) ∧ OpenOn fs d (k'.entry p fd) (pos + a.2.length) ∧
      k'.readIndex = k.readIndex := by
  obtain ⟨rfl, move⟩ := served
  obtain ⟨v, out, call, reply⟩ := step_read move
  simp only [Reply.value.injEq] at reply
  obtain ⟨rfl, rfl⟩ := reply
  obtain ⟨table, inode, used, position, within⟩ := opened
  obtain ⟨known, short⟩ := ok.found found file
  have length := fs.contents_length d.inodeNum
  rw [← inode] at known short
  obtain ⟨slice, value⟩ := fileRead_slice known short
    (by rw [position, inode, ← length]; exact within) count
  rw [Kernel.sysRead_file slot table used] at call
  obtain ⟨post, reading⟩ := Prod.mk.inj (Outcome.done.inj call)
  have piece : a.2 = ((fs.contents d.inodeNum).drop pos).take n.toNat := by
    rw [← inode, ← position]
    exact (congrArg Prod.snd reading).symm.trans slice
  have amount : a.1 = a.2.length := by
    rw [reading] at value
    exact value
  have total : pos + a.2.length ≤ (fs.contents d.inodeNum).length := by
    rw [piece, List.length_take, List.length_drop]
    omega
  refine ⟨piece, amount, fun i other => ?_, ?_, by rw [← post]; rfl⟩
  · rw [← post, k.setFd_entry, if_neg fun both => other both.2]
  · have entry : k'.entry k.curPid fd = { k.entry k.curPid fd with
        filePos := (k.entry k.curPid fd).filePos + BitVec.ofInt 32 a.1 } := by
      rw [← post, k.setFd_entry, if_pos ⟨rfl, rfl⟩, reading]
    rw [entry]
    refine ⟨table, inode, used, ?_, total⟩
    rw [inode, ← length] at short
    rw [amount, BitVec.ofInt_natCast, BitVec.toNat_add, BitVec.toNat_ofNat, position]
    omega

end Residents

/-- The answer to a call of the running process, where it has one at once. -/
def Kernel.answer (fs : FsImage) (p : Int) (k : Kernel) (q : SysCall) : Option (Answer × Kernel) :=
  if k.curPid = p then
    match q with
    | .read fd buf nbytes =>
      match k.sysRead fs fd buf nbytes with
      | .done r => some (r.2, r.1)
      | .blocks | .wild => none
    | .write fd buf src nbytes =>
      match k.sysWrite fd buf src nbytes with
      | .done r => some ((r.2, []), r.1)
      | .blocks | .wild => none
    | .openFile filename => some (((k.sysOpen fs filename).2, []), (k.sysOpen fs filename).1)
    | .close fd => some (((k.sysClose fd).2, []), (k.sysClose fd).1)
    | .getargs nbytes => some (k.sysGetargs nbytes, k)
  else none

theorem Kernel.answer_serves {fs : FsImage} {p : Int} {k k' : Kernel} {q : SysCall} {a : Answer}
    (answered : k.answer fs p q = some (a, k')) : Serves fs p k q a k' := by
  unfold answer at answered
  split at answered
  · rename_i running
    refine ⟨running, ?_⟩
    cases q with
    | read fd buf nbytes =>
      simp only at answered
      split at answered <;> cases answered
      rename_i r call
      exact congrArg ReadReply.outcome call
    | write fd buf src nbytes =>
      simp only at answered
      split at answered <;> cases answered
      rename_i r call
      simp [Step, perform, call]
    | openFile filename =>
      cases answered
      rfl
    | close fd =>
      cases answered
      rfl
    | getargs nbytes =>
      cases answered
      exact ⟨rfl, rfl⟩
  · cases answered

def sampleAddresses : Addresses := ⟨1, 2, by decide, by decide⟩

end UnixLite
