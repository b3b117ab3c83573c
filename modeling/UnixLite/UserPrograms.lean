import UnixLite.Linkage
import UnixLite.Shell
import UnixLite.Library.Programs

namespace UnixLite

open Transition Store

/-- The calls of a program, with `sys_vidmap` and calls by a number that is none. -/
inductive UserCall
  | sys (q : SysCall)
  | vidmap (screenStart : Word)
  | number (eax : Word)

/-- Process `p` runs, and its call is answered. What `sys_vidmap` stores does
not belong to the answer; a number that is none is answered by `sys_call` itself. -/
def UserServes (fs : FsImage) (p : Int) (k : Kernel) (q : UserCall) (a : Answer) (k' : Kernel) : Prop :=
  match q with
  | .sys q => Serves fs p k q a k'
  | .vidmap screenStart => k.curPid = p ∧ k' = k ∧ a.1 = (k.sysVidmap screenStart).1
  | .number eax => k.curPid = p ∧ k' = k ∧ ∃ callee returnAddress entry n c,
      entry.reg .eax = eax ∧ (linkage callee returnAddress).run n ⟨sysCall, entry, []⟩ = some c ∧
        c.calls = [] ∧ a.1 = (c.machine.reg .eax).toInt

/-- A number outside the table comes back as -1, however the machine is. -/
theorem sys_call_refuses (callee : Handler → I386.Machine → I386.Machine) (returnAddress : Word) (entry : I386.Machine)
    (outside : ¬ (1 ≤ (entry.reg .eax).toInt ∧ (entry.reg .eax).toInt ≤ 10)) :
    ∃ n c, (linkage callee returnAddress).run n ⟨sysCall, entry, []⟩ = some c ∧ c.calls = [] ∧
      c.machine.reg .eax = -1 := by
  have eax : (saveRegs entry).reg .eax = entry.reg .eax := saveRegs_reg entry (by decide)
  have saved := saveRegs_saved entry
  obtain ⟨n, m, esp, mem, refusal, runs⟩ := linkage_refuses callee returnAddress (saveRegs entry) [] 9
    (by rw [eax]; exact outside)
  obtain ⟨_, kept, _⟩ := (saved.same esp mem).restores
  refine ⟨9 + n + 7, ⟨sysCall.drop 27, restoreRegs m, []⟩, ?_, rfl, kept.trans refusal⟩
  rw [linkage_enters, runs]
  exact linkage_leaves callee returnAddress _ _ 0

theorem UserServes.number {fs : FsImage} {p : Int} {k k' : Kernel} {eax : Word} {a : Answer}
    (served : UserServes fs p k (.number eax) a k') (outside : ¬ (1 ≤ eax.toInt ∧ eax.toInt ≤ 10)) : a.1 = -1 := by
  obtain ⟨_, _, callee, returnAddress, entry, n, c, rfl, run, _, value⟩ := served
  obtain ⟨m, c', refused, _, result⟩ := sys_call_refuses callee returnAddress entry outside
  have both := I386.Program.run_more run m
  rw [Nat.add_comm, I386.Program.run_more refused n] at both
  cases both
  rw [value, result]
  decide

/-- What a program has printed. -/
def said (calls : List (UserCall × Answer)) : List UInt8 :=
  calls.reverse.flatMap fun c =>
    match c.1 with
    | .sys q => bytesWritten (q, c.2)
    | _ => []

theorem said_cons (q : SysCall) (a : Answer) (calls : List (UserCall × Answer)) :
    said ((.sys q, a) :: calls) = said calls ++ bytesWritten (q, a) := by
  rw [said, List.reverse_cons, List.flatMap_append, ← said, List.flatMap_singleton]

/-- The line that it has read from the keyboard. -/
def lineRead (calls : List (UserCall × Answer)) : Option (List UInt8) :=
  calls.reverse.findSome? fun c =>
    match c.1 with
    | .sys (.read fd _ _) => if fd = 0 then some c.2.2 else none
    | _ => none

/-- What a program has printed and the line that it has read. -/
structure Told (calls : List (UserCall × Answer)) (text : List UInt8) (line : Option (List UInt8)) : Prop where
  text : said calls = text
  line : lineRead calls = line

/-- A call that neither prints nor reads a line. -/
def UserCall.Silent (q : UserCall) : Prop := ∀ a, said [(q, a)] = [] ∧ lineRead [(q, a)] = none

/-- Process `p` is there with its two descriptors, and of the others those in use are known. -/
structure Equipped (p : Int) (used : Nat → Bool) (k : Kernel) : Prop where
  slot : k.pidArray p ≠ 0
  stdin : (k.entry p 0).fileOpTablePtr = .stdinOpt
  stdinUsed : (k.entry p 0).flags ≠ 0
  stdout : (k.entry p 1).fileOpTablePtr = .stdoutOpt
  stdoutUsed : (k.entry p 1).flags ≠ 0
  others : ∀ i, 2 ≤ i → i < 8 → ((k.entry p i).flags ≠ 0 ↔ used i = true)

section Calls

variable {fs : FsImage} {p : Int} {k k' : Kernel} {a : Answer} {used : Nat → Bool}

theorem Told.call {calls : List (UserCall × Answer)} {text : List UInt8} {line : Option (List UInt8)} {q : UserCall}
    (told : Told calls text line) (silent : q.Silent) (a : Answer) : Told ((q, a) :: calls) text line := by
  obtain ⟨nothing, none⟩ := silent a
  simp only [said, lineRead, List.reverse_singleton, List.flatMap_cons, List.flatMap_nil, List.append_nil,
    List.findSome?_cons, List.findSome?_nil] at nothing none
  constructor
  · rw [said, List.reverse_cons, List.flatMap_append, List.flatMap_cons, List.flatMap_nil, List.append_nil,
      nothing, List.append_nil]
    exact told.text
  · rw [lineRead, List.reverse_cons, List.findSome?_append, ← lineRead, told.line]
    cases line with
    | some _ => rfl
    | none =>
      rw [Option.none_or, List.findSome?_cons]
      exact none

theorem Equipped.kept (here : Equipped p used k) (slot : k'.pidArray p = k.pidArray p)
    (table : ∀ i, i < 2 → (k'.entry p i).fileOpTablePtr = (k.entry p i).fileOpTablePtr)
    (flags : ∀ i, (k'.entry p i).flags = (k.entry p i).flags) : Equipped p used k' :=
  ⟨by rw [slot]; exact here.slot, by rw [table 0 (by decide)]; exact here.stdin, by rw [flags]; exact here.stdinUsed,
    by rw [table 1 (by decide)]; exact here.stdout, by rw [flags]; exact here.stdoutUsed,
    fun i lower upper => by rw [flags]; exact here.others i lower upper⟩

theorem Equipped.stable (here : Equipped p used k) (others : Bystander fs p k k') : Equipped p used k' := by
  obtain ⟨slot, entry, _⟩ := others.spares here.slot
  exact here.kept slot (fun i _ => by rw [entry]) fun i => by rw [entry]

theorem Equipped.resident (here : Equipped p used k) : Resident p (stringAt (k.pcb p).cmdArgs) k :=
  ⟨here.slot, here.stdout, here.stdoutUsed, rfl⟩

/-- A program that has just been entered. -/
theorem Equipped.entered {act : Act} {eip : Word} (move : Step fs k (act, .entered eip) k') :
    Equipped k'.curPid (fun _ => false) k' := by
  obtain ⟨slot, table⟩ := step_fresh move
  refine ⟨slot, ?_, ?_, ?_, ?_, fun i lower upper => ?_⟩
  · rw [table 0 (by decide)]
    rfl
  · rw [table 0 (by decide)]
    decide
  · rw [table 1 (by decide)]
    rfl
  · rw [table 1 (by decide)]
    decide
  · have free : (freshTable i).flags = 0 := by
      rw [freshTable, if_neg (by omega), if_neg (by omega)]
      rfl
    rw [table i upper, free]
    simp

theorem Equipped.congr {used' : Nat → Bool} (here : Equipped p used k) (same : ∀ i, 2 ≤ i → i < 8 → used i = used' i) :
    Equipped p used' k :=
  { here with others := fun i lower upper => by rw [← same i lower upper]; exact here.others i lower upper }

/-- No call is made through this descriptor. -/
def BadFd (used : Nat → Bool) (fd : Int) : Prop := fd < 0 ∨ 8 < fd ∨ (2 ≤ fd ∧ fd < 8 ∧ used fd.toNat = false)

theorem Equipped.unused (here : Equipped p used k) {fd : Int} (lower : 2 ≤ fd) (upper : fd < 8)
    (free : used fd.toNat = false) : (k.entry p fd.toNat).flags = 0 := by
  by_contra inUse
  have taken := (here.others fd.toNat (by omega) (by omega)).mp inUse
  rw [free] at taken
  cases taken

/-- A call that is refused, and changes neither slot nor descriptors. -/
structure Refuses (fs : FsImage) (p : Int) (used : Nat → Bool) (q : UserCall) : Prop where
  silent : q.Silent
  answered : ∀ k, Equipped p used k → k.curPid = p → ∃ a k', UserServes fs p k q a k'
  refused : ∀ k a k', Equipped p used k → UserServes fs p k q a k' → a.1 = -1 ∧ Equipped p used k'

/-- A call that comes back with -1 and leaves the kernel as it is. -/
theorem Refuses.same {q : SysCall} (act : Act) (silent : (UserCall.sys q).Silent)
    (made : ∀ k a k', Serves fs p k q a k' ↔ k.curPid = p ∧ Step fs k (act, .value a.1 a.2) k')
    (call : ∀ k, Equipped p used k → k.curPid = p → perform fs k act = some (k, .value (-1) [])) :
    Refuses fs p used (.sys q) := by
  refine ⟨silent, fun k here running => ?_, fun k a k' here served => ?_⟩
  · exact ⟨(-1, []), k, (made _ _ _).mpr ⟨running, call k here running⟩⟩
  · obtain ⟨running, move⟩ := (made _ _ _).mp served
    rw [Step, call k here running] at move
    simp only [Option.some.injEq, Prod.mk.injEq, Reply.value.injEq] at move
    obtain ⟨rfl, value, _⟩ := move
    exact ⟨value.symm, here⟩

/-- A bad descriptor is out of range for the kernel or not in use. -/
theorem BadFd.cases {fd : Int} (bad : BadFd used fd) (here : Equipped p used k) (running : k.curPid = p) :
    (fd < 0 ∨ fd > 8) ∨ (¬ (fd < 0 ∨ fd > 8) ∧ ¬ fd = 8 ∧ (k.curPcb.fileDescriptorTable fd.toNat).flags = 0) := by
  rcases bad with below | above | ⟨lower, upper, free⟩
  · exact Or.inl (Or.inl below)
  · exact Or.inl (Or.inr above)
  · refine Or.inr ⟨by omega, by omega, ?_⟩
    rw [Kernel.curPcb, running]
    exact here.unused lower upper free

theorem BadFd.other {fd : Int} (bad : BadFd used fd) : fd ≠ 0 ∧ fd ≠ 1 := by
  rcases bad with below | above | ⟨lower, _⟩
  · omega
  · omega
  · omega

theorem Refuses.read {fd : Int} (bad : BadFd used fd) (buf : Nat) (n : Word) :
    Refuses fs p used (.sys (.read fd buf n)) := by
  refine .same (.read fd buf n) (fun a => ⟨rfl, by simp [lineRead, bad.other.1]⟩) (fun _ _ _ => Iff.rfl)
    fun k here running => ?_
  have call : k.sysRead fs fd buf n = .done (k, -1, []) := by
    unfold Kernel.sysRead
    rcases bad.cases here running with outside | ⟨inside, notLast, unused⟩
    · rw [if_pos outside]
    · rw [if_neg inside, if_neg notLast]
      exact if_pos unused
  exact congrArg ReadReply.outcome call

theorem Refuses.write {fd : Int} (bad : BadFd used fd) (buf : Nat) (src : Nat → UInt8) (n : Word) :
    Refuses fs p used (.sys (.write fd buf src n)) := by
  refine .same (.write fd buf src n) (fun a => ⟨by simp [said, bytesWritten, bad.other.2], rfl⟩)
    (fun _ _ _ => Iff.rfl) fun k here running => ?_
  have call : k.sysWrite fd buf src n = .done (k, -1) := by
    unfold Kernel.sysWrite
    rcases bad.cases here running with outside | ⟨inside, notLast, unused⟩
    · rw [if_pos outside]
    · rw [if_neg inside, if_neg notLast]
      exact if_pos unused
  simp only [perform, call]

theorem Refuses.close {fd : Int} (bad : fd < 2 ∨ BadFd used fd) : Refuses fs p used (.sys (.close fd)) := by
  refine .same (.close fd) (fun a => ⟨rfl, rfl⟩) (fun _ _ _ => Iff.rfl) fun k here running => ?_
  have call : k.sysClose fd = (k, -1) := by
    rcases k.sysClose_cases fd with ⟨_, refused⟩ | ⟨lower, upper, inUse, _⟩
    · exact refused
    · rw [running] at inUse
      rcases bad with below | below | above | ⟨_, _, free⟩
      · omega
      · omega
      · omega
      · exact absurd (here.unused lower (by omega) free) inUse
  simp only [perform, call]

theorem Refuses.openFile {name : List UInt8} (missing : readDentryByName fs (cString name) = none) :
    Refuses fs p used (.sys (.openFile name)) := by
  refine .same (.openFile name) (fun a => ⟨rfl, rfl⟩) (fun _ _ _ => Iff.rfl) fun k _ _ => ?_
  simp only [perform, Kernel.sysOpen, missing]

/-- The keyboard takes nothing. -/
theorem Refuses.writeStdin (buf : Nat) (src : Nat → UInt8) (n : Word) :
    Refuses fs p used (.sys (.write 0 buf src n)) := by
  refine .same (.write 0 buf src n) (fun a => ⟨rfl, rfl⟩) (fun _ _ _ => Iff.rfl) fun k here running => ?_
  subst running
  have stdin : (k.curPcb.fileDescriptorTable (0 : Int).toNat).fileOpTablePtr = .stdinOpt := here.stdin
  have call : k.sysWrite 0 buf src n = .done (k, -1) := by
    unfold Kernel.sysWrite
    rw [if_neg (by decide), if_neg (by decide)]
    exact (if_neg here.stdinUsed).trans (congrArg (fun op : OpTable => op.write k buf src n) stdin)
  simp only [perform, call]

/-- The screen gives nothing. -/
theorem Refuses.readStdout (buf : Nat) (n : Word) : Refuses fs p used (.sys (.read 1 buf n)) := by
  have call (k : Kernel) (here : Equipped p used k) (running : k.curPid = p) : k.sysRead fs (1 : Nat) buf n =
      .done (k.setFd p 1 fun e => { e with filePos := e.filePos + BitVec.ofInt 32 (-1) }, -1, []) := by
    subst running
    rw [k.sysRead_used fs buf n (by decide) here.stdoutUsed, here.stdout]
    rfl
  refine ⟨fun a => ⟨rfl, rfl⟩, fun k here running => ?_, fun k a k' here served => ?_⟩
  · exact ⟨(-1, []), _, running, congrArg ReadReply.outcome (call k here running)⟩
  · have made : Serves fs p k (.read 1 buf n) a k' := served
    obtain ⟨running, move⟩ := served
    obtain ⟨v, out, done, reply⟩ := step_read move
    have same : k.sysRead fs 1 buf n = _ := call k here running
    rw [same] at done
    cases done
    simp only [Reply.value.injEq] at reply
    have entry (i : Nat) : ((k.setFd p 1 fun e => { e with filePos := e.filePos + BitVec.ofInt 32 (-1) }).entry p i) =
        if i = 1 then { k.entry p 1 with filePos := (k.entry p 1).filePos + BitVec.ofInt 32 (-1) }
        else k.entry p i := by
      rw [k.setFd_entry]
      simp
    refine ⟨reply.1, here.kept made.slot.1 (fun i _ => ?_) fun i => ?_⟩
    · rw [entry]
      split
      · rename_i one
        rw [one]
      · rfl
    · rw [entry]
      split
      · rename_i one
        rw [one]
      · rfl

theorem Refuses.vidmap {screenStart : Word} (below : screenStart < 0x8000000) :
    Refuses fs p used (.vidmap screenStart) := by
  have call (k : Kernel) : (k.sysVidmap screenStart).1 = -1 := by
    unfold Kernel.sysVidmap
    split
    · rfl
    · rw [if_pos (Or.inl below)]
  refine ⟨fun a => ⟨rfl, rfl⟩, fun k here running => ⟨(-1, []), k, running, rfl, (call k).symm⟩,
    fun k a k' here served => ?_⟩
  obtain ⟨_, rfl, value⟩ := served
  exact ⟨value.trans (call k'), here⟩

theorem Refuses.number {eax : Word} (outside : ¬ (1 ≤ eax.toInt ∧ eax.toInt ≤ 10)) :
    Refuses fs p used (.number eax) := by
  refine ⟨fun a => ⟨rfl, rfl⟩, fun k here running => ?_, fun k a k' here served => ?_⟩
  · obtain ⟨n, c, run, none, value⟩ :=
      sys_call_refuses (fun _ m => m) 0 ⟨fun _ => eax, fun _ => 0, false, false, false⟩ outside
    exact ⟨((c.machine.reg .eax).toInt, []), k, running, rfl, _, _, _, n, c, rfl, run, none, rfl⟩
  · have value := served.number outside
    obtain ⟨_, rfl, _⟩ := served
    exact ⟨value, here⟩

end Calls

/-- A user program: its calls with what happens between them. -/
abbrev UserProgram (R : Type) := Program UserCall Answer R

/-- `ece391_fdputs` to the terminal. -/
def tell (addr : Nat) (s : Nat → UInt8) : UserProgram Answer := Program.ask (.sys (fdputs 1 addr s))

/-- What has been printed is the beginning of what is expected of a program
that has read this line, or none yet. -/
def Shows (expected : Option (List UInt8) → List UInt8) (calls : List (UserCall × Answer)) : Prop :=
  said calls <+: expected (lineRead calls)

/-- A call that can be made is answered, or waits for a line to be typed. -/
def Ready (fs : FsImage) (p : Int) (k : Kernel) (q : UserCall) : Prop :=
  k.curPid = p → (∃ a k', UserServes fs p k q a k') ∨ ((∃ buf n, q = .sys (.read 0 buf n)) ∧ k.doneTyping = false)

/-- The logic of the library for user programs. -/
abbrev Does (fs : FsImage) (p : Int) (expected : Option (List UInt8) → List UInt8) {R : Type} (x : UserProgram R)
    (post : R → List (UserCall × Answer) → Kernel → Prop) (calls : List (UserCall × Answer)) (k : Kernel) : Prop :=
  Program.Yields (Bystander fs p) (UserServes fs p) (Shows expected) (fun _ => Ready fs p) x post calls k

section Rules

variable {fs : FsImage} {p : Int} {k : Kernel} {used : Nat → Bool} {expected : Option (List UInt8) → List UInt8}
  {calls : List (UserCall × Answer)} {text before : List UInt8} {line : Option (List UInt8)}

theorem Told.shows (told : Told calls before line) (fits : before <+: expected line) : Shows expected calls := by
  rw [Shows, told.text, told.line]
  exact fits

/-- A program prints a string. -/
theorem Told.tells {addr : Nat} {s : Nat → UInt8} (told : Told calls before line) (here : Equipped p used k)
    (place : addr ≠ 0) (string : stringAt s = text) (short : text.length < 2 ^ 31)
    (fits : before ++ text <+: expected line) :
    Does fs p expected (tell addr s) (fun _ calls k => Told calls (before ++ text) line ∧ Equipped p used k)
      calls k := by
  refine Program.Yields.ask (told.shows ((List.prefix_append _ _).trans fits)) here (fun _ _ here => here.stable)
    (fun k here running => ?_) (fun k a k' here served => ?_) fun a _ _ holds others => ⟨holds.1, holds.2.stable others⟩
  · obtain ⟨a, k', answered⟩ := here.resident.canWrite running addr s (BitVec.ofNat 32 (ece391Strlen s))
    exact Or.inl ⟨a, k', answered⟩
  · have made : Serves fs p k (fdputs 1 addr s) a k' := served
    obtain ⟨bytes, kept⟩ := here.resident.puts place string short made
    have next : Told ((.sys (fdputs 1 addr s), a) :: calls) (before ++ text) line := by
      constructor
      · rw [fdputs, said_cons, told.text]
        exact congrArg (before ++ ·) bytes
      · rw [lineRead, List.reverse_cons, List.findSome?_append, ← lineRead, told.line]
        exact Option.or_none
    exact ⟨next.shows fits, next, here.kept made.slot.1 (fun i _ => by rw [kept]) fun i => by rw [kept]⟩

/-- A program reads a line. -/
theorem Told.reads {buf : Nat} {n : Word} (told : Told calls before none) (here : Equipped p used k) (place : buf ≠ 0)
    (room : 127 ≤ n.toInt) (fits : before <+: expected none)
    (fitsThen : ∀ typed, Shell.Typed typed → before <+: expected (some (typed ++ [10]))) :
    Does fs p expected (Program.ask (.sys (.read 0 buf n))) (fun r calls k =>
      (∃ typed, Shell.Typed typed ∧ r = ((typed.length : Int) + 1, typed ++ [10]) ∧
        Told calls before (some (typed ++ [10]))) ∧ Equipped p used k) calls k := by
  refine Program.Yields.ask (told.shows fits) here (fun _ _ here => here.stable)
    (fun k here running => ?_) (fun k a k' here served => ?_) fun a _ _ holds others => ⟨holds.1, holds.2.stable others⟩
  · by_cases typing : k.doneTyping = true
    · subst running
      have call : k.sysRead fs (0 : Nat) buf n = _ := k.sysRead_used fs buf n (by decide) here.stdinUsed
      have count : ¬ (buf = 0 ∨ n.toInt < 0) := by
        rintro (null | negative)
        · exact place null
        · omega
      rw [here.stdin, OpTable.read, Kernel.terminalRead, if_neg count, if_pos typing] at call
      have reads {k' : Kernel} {r : Answer} (done : k.sysRead fs (0 : Nat) buf n = .done (k', r)) :
          ∃ a k', UserServes fs k.curPid k (.sys (.read 0 buf n)) a k' := by
        have done' : k.sysRead fs 0 buf n = .done (k', r) := done
        exact ⟨r, k', rfl, congrArg ReadReply.outcome done'⟩
      exact Or.inl (reads call)
    · exact Or.inr ⟨⟨buf, n, rfl⟩, Bool.eq_false_iff.mpr typing⟩
  · have made : Serves fs p k (.read 0 buf n) a k' := served
    obtain ⟨⟨typed, whole, rfl⟩, kept⟩ := made.line place room here.stdin here.stdinUsed
    have next : Told ((.sys (.read 0 buf n), ((typed.length : Int) + 1, typed ++ [10])) :: calls) before
        (some (typed ++ [10])) := by
      constructor
      · rw [said_cons, told.text]
        exact List.append_nil _
      · rw [lineRead, List.reverse_cons, List.findSome?_append, ← lineRead, told.line]
        rfl
    exact ⟨next.shows (fitsThen typed whole), ⟨typed, whole, rfl, next⟩,
      here.kept made.slot.1 (fun i _ => (kept i).1) fun i => (kept i).2⟩

/-- A program begins with a prompt and the line that is typed behind it. -/
theorem Equipped.prompts {R : Type} {prompt : List UInt8} {n : Word} {go : Answer → UserProgram R}
    {post : R → List (UserCall × Answer) → Kernel → Prop} (here : Equipped p used k) (addr : Addresses)
    (plain : 0 ∉ prompt) (short : prompt.length < 2 ^ 31) (room : 127 ≤ n.toInt) (fits : prompt <+: expected none)
    (fitsThen : ∀ typed, Shell.Typed typed → prompt <+: expected (some (typed ++ [10])))
    (goesOn : ∀ typed calls k, Shell.Typed typed → Told calls prompt (some (typed ++ [10])) → Equipped p used k →
      Does fs p expected (go ((typed.length : Int) + 1, typed ++ [10])) post calls k) :
    Does fs p expected (tell addr.text (cString prompt) >>= fun _ => Program.ask (.sys (.read 0 addr.buf n)) >>= go)
      post [] k := by
  have start : Told [] [] none := ⟨rfl, rfl⟩
  refine (start.tells here addr.text_ne (stringAt_cString plain (by omega)) short fits).bind
    fun _ calls k prompted => ?_
  refine (prompted.1.reads prompted.2 addr.buf_ne room fits fitsThen).bind fun r calls k answered => ?_
  obtain ⟨⟨typed, whole, answer, told⟩, here⟩ := answered
  rw [answer]
  exact goesOn typed calls k whole told here

/-- A call that is refused. -/
theorem Refuses.yields {q : UserCall} (refuses : Refuses fs p used q) (told : Told calls before line)
    (here : Equipped p used k) (fits : before <+: expected line) :
    Does fs p expected (Program.ask q) (fun r calls k => r.1 = -1 ∧ Told calls before line ∧ Equipped p used k)
      calls k := by
  refine Program.Yields.ask (told.shows fits) here (fun _ _ here => here.stable)
    (fun k here running => Or.inl (refuses.answered k here running)) (fun k a k' here served => ?_)
    fun a _ _ holds others => ⟨holds.1, holds.2.1, holds.2.2.stable others⟩
  obtain ⟨value, still⟩ := refuses.refused k a k' here served
  have next := told.call refuses.silent a
  exact ⟨next.shows fits, value, next, still⟩

end Rules

section Descriptors

variable {fs : FsImage} {p : Int} {k k' : Kernel} {a : Answer} {used : Nat → Bool}

/-- What an open of an entry of a known type gives: the first descriptor that is free. -/
theorem Equipped.opens {name : List UInt8} {d : Dentry} (here : Equipped p used k)
    (found : readDentryByName fs (cString name) = some d) (typed : tableOfType d.fileType ≠ none)
    (served : Serves fs p k (.openFile name) a k') :
    (∀ fd, 2 ≤ fd → fd < 8 → used fd = false → (∀ i, 2 ≤ i → i < fd → used i = true) →
      a.1 = fd ∧ Equipped p (fun i => decide (i = fd) || used i) k') ∧
    ((∀ i, 2 ≤ i → i < 8 → used i = true) → a.1 = -1 ∧ k' = k) := by
  constructor
  · intro fd lower upper free taken
    have unused : (k.entry p fd).flags = 0 := by
      by_contra inUse
      rw [(here.others fd lower upper).mp inUse] at free
      cases free
    rcases (served.opens lower upper unused fun i least less =>
      (here.others i least (by omega)).mpr (taken i least less)).2 with ⟨missing, _⟩ | ⟨d', found', value, set⟩
    · rw [missing] at found
      cases found
    · rw [found] at found'
      cases found'
      refine ⟨value, ?_⟩
      rcases set with ⟨untyped, _⟩ | ⟨op, _, entries⟩
      · exact absurd untyped typed
      · have kept (i : Nat) (other : i ≠ fd) : k'.entry p i = k.entry p i := by rw [entries, if_neg other]
        refine ⟨by rw [served.slot.1]; exact here.slot, by rw [kept 0 (by omega)]; exact here.stdin,
          by rw [kept 0 (by omega)]; exact here.stdinUsed, by rw [kept 1 (by omega)]; exact here.stdout,
          by rw [kept 1 (by omega)]; exact here.stdoutUsed, fun i least most => ?_⟩
        by_cases same : i = fd
        · have one : (1 : Word) ≠ 0 := by decide
          rw [entries, if_pos same]
          exact ⟨fun _ => by simp [same], fun _ => one⟩
        · rw [kept i same, here.others i least most]
          simp [same]
  · intro full
    obtain ⟨running, move⟩ := served
    have taken (i : Nat) (least : 2 ≤ i) (most : i < 8) : (k.entry k.curPid i).flags ≠ 0 := by
      rw [running]
      exact (here.others i least most).mpr (full i least most)
    rcases k.sysOpen_cases fs name with ⟨_, refused⟩ | ⟨_, fd, _, least, most, free, _⟩
    · simp only [Step, perform, refused, Option.some.injEq, Prod.mk.injEq, Reply.value.injEq] at move
      exact ⟨move.2.1.symm, move.1.symm⟩
    · exact absurd free (taken fd least most)

theorem Equipped.closes {fd : Nat} (here : Equipped p used k) (lower : 2 ≤ fd) (upper : fd < 8)
    (served : Serves fs p k (.close fd) a k') : Equipped p (fun i => !decide (i = fd) && used i) k' := by
  have slot := served.slot.1
  obtain ⟨running, move⟩ := served
  simp only [Step, perform, Option.some.injEq, Prod.mk.injEq, Reply.value.injEq] at move
  obtain ⟨rfl, _⟩ := move
  have flags (i : Nat) : ((k.sysClose fd).1.entry p i).flags = if i = fd then 0 else (k.entry p i).flags := by
    rcases k.sysClose_cases fd with ⟨refused | refused | unused, same⟩ | ⟨_, _, _, _, entries⟩
    · omega
    · omega
    · rw [running] at unused
      rw [same]
      split
      · rename_i own
        rw [own]
        exact unused
      · rfl
    · rw [entries, running, Int.toNat_natCast]
      by_cases own : i = fd
      · rw [if_pos ⟨rfl, own⟩, if_pos own]
        rfl
      · rw [if_neg fun both => own both.2, if_neg own]
  have table (i : Nat) (other : i ≠ fd) : (k.sysClose fd).1.entry p i = k.entry p i := by
    rcases k.sysClose_cases fd with ⟨_, same⟩ | ⟨_, _, _, _, entries⟩
    · rw [same]
    · rw [entries, if_neg fun both => other both.2]
  refine ⟨by rw [slot]; exact here.slot, by rw [table 0 (by omega)]; exact here.stdin,
    by rw [table 0 (by omega)]; exact here.stdinUsed, by rw [table 1 (by omega)]; exact here.stdout,
    by rw [table 1 (by omega)]; exact here.stdoutUsed, fun i least most => ?_⟩
  rw [flags]
  by_cases own : i = fd
  · simp [own]
  · rw [if_neg own, here.others i least most]
    simp [own]

end Descriptors

/-- The runs of the system in which process `p` is a client of the kernel, with
exceptions of others too. -/
abbrev PerformsAs {γ : Type} (c : Client γ UserCall Answer) (fs : FsImage) (p : Int) (first : Kernel × γ)
    (history : List (Event (Kernel × γ) (Option (UserCall × Answer)))) (current : Kernel × γ) : Prop :=
  Run (c.step (Bystander fs p) (UserServes fs p)) first history current

/-- The runs with a program. -/
abbrev Performs {R : Type} (fs : FsImage) (p : Int) (first : Kernel × UserProgram R)
    (history : List (Event (Kernel × UserProgram R) (Option (UserCall × Answer)))) (current : Kernel × UserProgram R) :
    Prop :=
  PerformsAs Program.client fs p first history current

/-- What holds of a program that reads one line and returns 0, wherever it has
come to: what it is expected to print, and how many calls it makes. -/
structure Fulfils (fs : FsImage) (p : Int) (expected : Option (List UInt8) → List UInt8) (most : Nat)
    (calls : List (UserCall × Answer)) (k : Kernel) (x : UserProgram Int) : Prop where
  soFar : said calls <+: expected (lineRead calls)
  done : ∀ v, x.result = some v → v = 0 ∧ said calls = expected (lineRead calls) ∧
    ∃ typed, Shell.Typed typed ∧ lineRead calls = some (typed ++ [10])
  answered : ∀ q, Program.client.ask x = some q → Ready fs p k q
  bounded : calls.length ≤ most

theorem Fulfils.of_yields {fs : FsImage} {p : Int} {expected : Option (List UInt8) → List UInt8} {most : Nat}
    {k1 k : Kernel} {main x : UserProgram Int}
    {history : List (Event (Kernel × UserProgram Int) (Option (UserCall × Answer)))}
    (yields : Does fs p expected main (fun v calls _ => v = 0 ∧ ∃ typed, Shell.Typed typed ∧
      Told calls (expected (some (typed ++ [10]))) (some (typed ++ [10]))) [] k1)
    (bound : Program.AtMost most main) (run : Performs fs p (k1, main) history (k, x)) :
    Fulfils fs p expected most (asked history) k x := by
  have here := yields.holds run
  refine ⟨here.now, fun v returned => ?_, fun q asks => here.asks asks, bound.holds run⟩
  obtain ⟨zero, typed, whole, told⟩ := here.returned returned
  exact ⟨zero, by rw [told.text, told.line], typed, whole, told.line⟩

theorem tell_atMost {R : Type} (addr : Nat) (s : Nat → UInt8) (v : R) :
    Program.AtMost 1 (tell addr s >>= fun _ => pure v) :=
  Program.AtMost.bind (n := 0) (.ask _) fun _ => .ret 0 v

end UnixLite
