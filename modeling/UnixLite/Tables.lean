import UnixLite.OpenFiles

namespace UnixLite

open Transition

/-- Every entry of the directory is an rtc, a directory or a regular file. -/
def TypedEntries (fs : FsImage) : Prop :=
  ∀ i, i < fs.numDirEntries → (fs.dentryAt i.toNat).fileType = 0 ∨
    (fs.dentryAt i.toNat).fileType = 1 ∨ (fs.dentryAt i.toNat).fileType = 2

theorem TypedEntries.table {fs : FsImage} (typed : TypedEntries fs) {name : Nat → UInt8} {d : Dentry}
    (found : readDentryByName fs name = some d) : ∃ op, tableOfType d.fileType = some op := by
  obtain ⟨i, inside, rfl⟩ := readDentryByName_some found
  rcases typed i inside with rtc | dir | file
  · exact ⟨.rtcOpt, by simp [tableOfType, rtc]⟩
  · exact ⟨.dirOpt, by simp [tableOfType, dir]⟩
  · exact ⟨.fileOpt, by simp [tableOfType, file]⟩

/-- The table of a process: the standard streams, and six entries each of which
is as it was opened or is closed. -/
structure TableOk (fs : FsImage) (history : List Happening) (p : Int) (k : Kernel) : Prop where
  stdin : (k.entry p 0).fileOpTablePtr = .stdinOpt ∧ (k.entry p 0).flags = 1
  stdout : (k.entry p 1).fileOpTablePtr = .stdoutOpt ∧ (k.entry p 1).flags = 1
  inUse : ∀ i o, 2 ≤ i → i < 8 → opened fs p i history = some o →
    tableOfType o.dentry.fileType = some (k.entry p i).fileOpTablePtr ∧
      (k.entry p i).inodeNum = o.dentry.inodeNum ∧ (k.entry p i).flags = 1
  closed : ∀ i, 2 ≤ i → i < 8 → opened fs p i history = none → k.entry p i = closedFd

/-- The parts of `TableOk` that look at one step alone. -/
structure Streams (fs : FsImage) (history : List Happening) (p : Int) (k : Kernel) : Prop where
  stdin : (k.entry p 0).fileOpTablePtr = .stdinOpt ∧ (k.entry p 0).flags = 1
  stdout : (k.entry p 1).fileOpTablePtr = .stdoutOpt ∧ (k.entry p 1).flags = 1
  closed : ∀ i, 2 ≤ i → i < 8 → opened fs p i history = none → k.entry p i = closedFd

/-- A program starts with its standard streams and nothing else. -/
theorem Streams.fresh {fs : FsImage} {history : List Happening} {p : Int} {k : Kernel}
    (table : ∀ i, i < 8 → k.entry p i = freshTable i) : Streams fs history p k := by
  refine ⟨?_, ?_, fun i lower upper _ => ?_⟩
  · rw [table 0 (by omega)]
    exact ⟨rfl, rfl⟩
  · rw [table 1 (by omega)]
    exact ⟨rfl, rfl⟩
  · rw [table i upper]
    have later : i ≠ 0 ∧ i ≠ 1 := by omega
    simp [freshTable, later]

/-- The streams survive a step that leaves the first two entries in place and
gives no entry up without closing it. -/
theorem Streams.kept {fs : FsImage} {past now : List Happening} {p : Int} {k k' : Kernel}
    (old : Streams fs past p k)
    (first : ∀ i, i < 2 → (k'.entry p i).fileOpTablePtr = (k.entry p i).fileOpTablePtr ∧
      (k'.entry p i).flags = (k.entry p i).flags)
    (rest : ∀ i, 2 ≤ i → i < 8 → opened fs p i now = none → k'.entry p i = closedFd) :
    Streams fs now p k' := by
  obtain ⟨table0, flags0⟩ := first 0 (by omega)
  obtain ⟨table1, flags1⟩ := first 1 (by omega)
  exact ⟨⟨table0.trans old.stdin.1, flags0.trans old.stdin.2⟩,
    ⟨table1.trans old.stdout.1, flags1.trans old.stdout.2⟩, rest⟩

/-- Only descriptors from 2 on are handed out. -/
theorem sysOpen_from_two {fs : FsImage} {k : Kernel} {name : List UInt8} {i : Nat}
    (given : (k.sysOpen fs name).2 = i) : 2 ≤ i := by
  rcases k.sysOpen_cases fs name with ⟨_, refused⟩ | ⟨_, fd, _, from_two, _, _, _, returned, _⟩
  · rw [refused] at given
    simp only at given
    omega
  · omega

theorem Streams.openFile {fs : FsImage} {past : List Happening} {k : Kernel}
    (old : Streams fs past k.curPid k) (name : List UInt8) :
    Streams fs (⟨k, (.openFile name, .value (k.sysOpen fs name).2 []), (k.sysOpen fs name).1⟩ :: past)
      k.curPid (k.sysOpen fs name).1 := by
  refine old.kept (fun i low => ?_) (fun i lower upper unopened => ?_)
  · have other : (k.sysOpen fs name).2 ≠ i := by
      intro given
      have from_two := sysOpen_from_two given
      omega
    rw [sysOpen_otherEntry other]
    exact ⟨rfl, rfl⟩
  · rw [opened_openFile] at unopened
    by_cases here : (k.sysOpen fs name).2 = i
    · obtain ⟨d, found⟩ := k.sysOpen_found here
      rw [if_pos here, found] at unopened
      simp at unopened
    · rw [if_neg here] at unopened
      rw [sysOpen_otherEntry here]
      exact old.closed i lower upper unopened

/-- What is closed is an entry from 2 on, and it is emptied. -/
theorem sysClose_emptied {k : Kernel} {i : Int} (closed : (k.sysClose i).2 = 0) :
    2 ≤ i ∧ (k.sysClose i).1.entry k.curPid i.toNat = closedFd := by
  rcases k.sysClose_cases i with ⟨_, refused⟩ | ⟨from_two, _, _, _, entries⟩
  · rw [refused] at closed
    simp only at closed
    omega
  · rw [entries, if_pos ⟨rfl, rfl⟩]
    exact ⟨from_two, rfl⟩

theorem Streams.close {fs : FsImage} {past : List Happening} {k : Kernel}
    (old : Streams fs past k.curPid k) (i : Int) :
    Streams fs (⟨k, (.close i, .value (k.sysClose i).2 []), (k.sysClose i).1⟩ :: past)
      k.curPid (k.sysClose i).1 := by
  refine old.kept (fun j low => ?_) (fun j lower upper unopened => ?_)
  · have other : ¬ (i = j ∧ (k.sysClose i).2 = 0) := by
      rintro ⟨rfl, closed⟩
      have from_two := (sysClose_emptied closed).1
      omega
    rw [sysClose_otherEntry other]
    exact ⟨rfl, rfl⟩
  · rw [opened_close] at unopened
    by_cases here : i = j ∧ (k.sysClose i).2 = 0
    · obtain ⟨rfl, closed⟩ := here
      exact (sysClose_emptied closed).2
    · rw [if_neg here] at unopened
      rw [sysClose_otherEntry here]
      exact old.closed j lower upper unopened

theorem Streams.read {fs : FsImage} {past : List Happening} {k k' : Kernel}
    (old : Streams fs past k.curPid k) {i : Int} {buf : Nat} {nbytes : Word} {v : Int} {out : List UInt8}
    (call : k.sysRead fs i buf nbytes = .done (k', v, out)) :
    Streams fs (⟨k, (.read i buf nbytes, .value v out), k'⟩ :: past) k.curPid k' := by
  refine old.kept (fun j _ => ?_) (fun j lower upper unopened => ?_)
  · rcases Kernel.sysRead_entry call k.curPid j with same | ⟨_, _, _, moved⟩
    · rw [same]
      exact ⟨rfl, rfl⟩
    · rw [moved]
      exact ⟨rfl, rfl⟩
  · have closed : opened fs k.curPid j past = none := by
      rw [opened_read] at unopened
      split at unopened
      · exact Option.map_eq_none_iff.mp unopened
      · exact unopened
    have entry := old.closed j lower upper closed
    rcases Kernel.sysRead_entry call k.curPid j with same | ⟨_, _, used, _⟩
    · rw [same]
      exact entry
    · rw [entry] at used
      exact absurd rfl used

theorem Streams.step {fs : FsImage} {p : Int} {past : List Happening}
    {k k' : Kernel} {l : Act × Reply} (held : live p past = true → Streams fs past p k)
    (move : Step fs k l k') (started : live p (⟨k, l, k'⟩ :: past) = true) :
    Streams fs (⟨k, l, k'⟩ :: past) p k' := by
  have before (notStarted : Starts p ⟨k, l, k'⟩ = false) : Streams fs past p k := by
    simp only [live, notStarted, Bool.false_or, Bool.and_eq_true] at started
    exact held started.2
  cases step_table p move with
  | fresh _ table => exact .fresh table
  | ended notStarted halts =>
    simp only [live, notStarted, halts, Bool.not_true, Bool.false_and, Bool.or_self] at started
    cases started
  | apart notStarted notHalted notCall kept =>
    have old := before notStarted
    refine old.kept (fun i _ => by rw [kept]; exact ⟨rfl, rfl⟩) (fun i lower upper unopened => ?_)
    rw [opened_apart past notStarted notHalted notCall] at unopened
    rw [kept]
    exact old.closed i lower upper unopened
  | @openFile name own act post =>
    simp only at own act post
    subst own act post
    exact (before rfl).openFile name
  | @close i own act post =>
    simp only at own act post
    subst own act post
    exact (before rfl).close i
  | @read i buf nbytes v out own act call =>
    simp only at own act call
    subst own act
    exact (before rfl).read call

theorem tableOk {fs : FsImage} (typed : TypedEntries fs) {first k : Kernel} {history : List Happening}
    (run : Runs fs first history k) {p : Int} (started : live p history = true) :
    TableOk fs history p k := by
  have streams := run.history_invariant (fun past s => live p past = true → Streams fs past p s)
    (fun unstarted => by cases unstarted) (fun _ _ _ _ _ held move => Streams.step held move) started
  refine ⟨streams.stdin, streams.stdout, fun i o _ _ known => ?_, streams.closed⟩
  obtain ⟨_, found⟩ := opened_dentry known
  obtain ⟨op, table⟩ := typed.table found
  obtain ⟨same, inode, flags⟩ := (entries_match run p i o known).2.2 op table
  rw [same]
  exact ⟨table, inode, flags⟩

/-- `sys_open` for a name: it returns -1 and changes nothing exactly when the
name is unknown or all is in use, and else the lowest descriptor not in use. -/
structure OpensLowest (fs : FsImage) (k : Kernel) (name : List UInt8) : Prop where
  refused : (k.sysOpen fs name).2 = -1 ↔ readDentryByName fs (cString name) = none ∨
    ∀ i, 2 ≤ i → i < 8 → (k.entry k.curPid i).flags ≠ 0
  unchanged : (k.sysOpen fs name).2 = -1 → (k.sysOpen fs name).1 = k
  lowest : (k.sysOpen fs name).2 ≠ -1 → ∃ fd : Nat, (k.sysOpen fs name).2 = fd ∧ 2 ≤ fd ∧ fd < 8 ∧
    (k.entry k.curPid fd).flags = 0 ∧ ∀ j, 2 ≤ j → j < fd → (k.entry k.curPid j).flags ≠ 0

theorem Kernel.opensLowest (fs : FsImage) (k : Kernel) (name : List UInt8) : OpensLowest fs k name := by
  rcases k.sysOpen_cases fs name with
    ⟨reason, refused⟩ | ⟨d, fd, found, lower, upper, free, below, returned, _⟩
  · exact ⟨⟨fun _ => reason, fun _ => by rw [refused]⟩, fun _ => by rw [refused],
      fun other => absurd (by rw [refused]) other⟩
  · have success : (k.sysOpen fs name).2 ≠ -1 := by omega
    refine ⟨⟨fun refused => absurd refused success, ?_⟩, fun refused => absurd refused success,
      fun _ => ⟨fd, returned, lower, upper, free, below⟩⟩
    rintro (unknown | full)
    · rw [found] at unknown
      cases unknown
    · exact absurd free (full fd lower upper)

/-- `sys_close` succeeds exactly on a descriptor in use; else it returns -1 and
changes nothing. -/
structure ClosesUsed (k : Kernel) (fd : Int) : Prop where
  closed : (k.sysClose fd).2 = 0 ↔ 2 ≤ fd ∧ fd ≤ 7 ∧ (k.entry k.curPid fd.toNat).flags ≠ 0
  refused : (k.sysClose fd).2 ≠ 0 → k.sysClose fd = (k, -1)

theorem Kernel.closesUsed (k : Kernel) (fd : Int) : ClosesUsed k fd := by
  rcases k.sysClose_cases fd with ⟨reason, refused⟩ | ⟨lower, upper, used, closed, _⟩
  · have failed : (k.sysClose fd).2 ≠ 0 := by
      rw [refused]
      simp
    refine ⟨⟨fun success => absurd success failed, ?_⟩, fun _ => refused⟩
    rintro ⟨lower, upper, used⟩
    rcases reason with low | high | unused
    · omega
    · omega
    · exact absurd unused used
  · exact ⟨⟨fun _ => ⟨lower, upper, used⟩, fun _ => closed⟩, fun failed => absurd closed failed⟩

/-- In the event process `p` is given descriptor `fd`. -/
def OpenedAs (p : Int) (fd : Nat) (e : Happening) : Prop :=
  e.pre.curPid = p ∧ ∃ name out, e.act = (.openFile name, .value fd out)

/-- In the event process `p` closes descriptor `fd`. -/
def ClosedBy (p : Int) (fd : Nat) (e : Happening) : Prop :=
  e.pre.curPid = p ∧ ∃ out, e.act = (.close fd, .value 0 out)

/-- What is open stays open until it is closed. -/
theorem opened_kept {fs : FsImage} {first k : Kernel} {p : Int} {fd : Nat} {past : List Happening}
    (before : (opened fs p fd past).isSome = true) {mid : List Happening}
    (run : Runs fs first (mid ++ past) k)
    (sameProcess : ∀ e ∈ mid, Starts p e = false ∧ Halts p e = false)
    (noClose : ∀ e ∈ mid, ¬ ClosedBy p fd e) : (opened fs p fd (mid ++ past)).isSome = true := by
  induction mid generalizing k with
  | nil => exact before
  | cons e mid ih =>
    obtain ⟨previous, move⟩ := run.event_of_suffix List.suffix_rfl
    obtain ⟨notStarted, notHalted⟩ := sameProcess e (List.mem_cons_self ..)
    have notClosed := noClose e (List.mem_cons_self ..)
    have old := ih previous (fun e member => sameProcess e (List.mem_cons_of_mem _ member))
      (fun e member => noClose e (List.mem_cons_of_mem _ member))
    obtain ⟨s, l, s'⟩ := e
    rw [List.cons_append]
    cases step_table p move with
    | fresh starts _ => exact absurd (starts.symm.trans notStarted) (by decide)
    | ended _ halts => exact absurd (halts.symm.trans notHalted) (by decide)
    | apart _ _ notCall _ =>
      rw [opened_apart _ notStarted notHalted notCall]
      exact old
    | @openFile name own act _ =>
      simp only at own act
      subst own act
      rw [opened_openFile]
      by_cases here : (s.sysOpen fs name).2 = fd
      · obtain ⟨d, found⟩ := s.sysOpen_found here
        rw [if_pos here, found]
        rfl
      · rw [if_neg here]
        exact old
    | @close i own act _ =>
      simp only at own act
      subst own act
      rw [opened_close, if_neg]
      · exact old
      · rintro ⟨rfl, closed⟩
        exact notClosed ⟨rfl, [], by rw [closed]⟩
    | @read i buf nbytes v out own act _ =>
      simp only at own act
      subst own act
      rw [opened_read]
      split
      · rw [Option.isSome_map]
        exact old
      · exact old

/-- A process is given a descriptor again only after it has closed it. -/
def ClosedInBetween (p : Int) (history : List Happening) : Prop :=
  ∀ (later earlier : Happening) (mid past : List Happening) (fd : Nat),
    (later :: (mid ++ earlier :: past)) <:+ history → OpenedAs p fd later → OpenedAs p fd earlier →
    (∀ e ∈ mid, Starts p e = false ∧ Halts p e = false) → ∃ e ∈ mid, ClosedBy p fd e

theorem closed_in_between {fs : FsImage} (typed : TypedEntries fs) {first k : Kernel}
    {history : List Happening} (run : Runs fs first history k) (p : Int) :
    ClosedInBetween p history := by
  intro later earlier mid past fd tail openedLater openedEarlier sameProcess
  by_contra closed
  have noClose : ∀ e ∈ mid, ¬ ClosedBy p fd e := fun e member closes => closed ⟨e, member, closes⟩
  obtain ⟨reach, move⟩ := run.event_of_suffix tail
  obtain ⟨reachEarlier, moveEarlier⟩ := reach.event_of_suffix (List.suffix_append mid _)
  obtain ⟨own, name, out, act⟩ := openedLater
  obtain ⟨ownEarlier, nameEarlier, outEarlier, actEarlier⟩ := openedEarlier
  obtain ⟨s, l, s'⟩ := later
  obtain ⟨u, l', u'⟩ := earlier
  simp only at own act ownEarlier actEarlier reach move moveEarlier
  subst own act actEarlier
  have given : (s.sysOpen fs name).2 = fd := by
    simp only [Step, perform, Option.some.injEq, Prod.mk.injEq, Reply.value.injEq] at move
    exact move.2.1
  have givenEarlier : (u.sysOpen fs nameEarlier).2 = fd := by
    simp only [Step, perform, Option.some.injEq, Prod.mk.injEq, Reply.value.injEq] at moveEarlier
    exact moveEarlier.2.1
  obtain ⟨d, found⟩ := u.sysOpen_found givenEarlier
  have known : (opened fs s.curPid fd
      (⟨u, (.openFile nameEarlier, .value fd outEarlier), u'⟩ :: past)).isSome = true := by
    rw [← ownEarlier, opened_openFile, if_pos rfl, found]
    rfl
  obtain ⟨o, still⟩ := Option.isSome_iff_exists.mp
    (opened_kept known reach sameProcess noClose)
  obtain ⟨lower, upper, free, _⟩ := opened_moved (s.sysOpen_found given).choose_spec given
  obtain ⟨_, resolved⟩ := opened_dentry still
  obtain ⟨op, table⟩ := typed.table resolved
  obtain ⟨_, _, flags⟩ := (entries_match reach s.curPid fd o still).2.2 op table
  rw [flags] at free
  cases free

/-- The descriptor table of a process that has been started, over any run; no
buffer that a call reads into lies over a PCB. -/
theorem descriptor_table {fs : FsImage} (typed : TypedEntries fs) {first k : Kernel}
    {history : List Happening} (run : Runs fs first history k) {p : Int}
    (started : live p history = true) :
    TableOk fs history p k ∧ (k.curPid = p → (∀ name, OpensLowest fs k name) ∧ ∀ fd, ClosesUsed k fd) ∧
      ClosedInBetween p history :=
  ⟨tableOk typed run started, fun _ => ⟨k.opensLowest fs, k.closesUsed⟩, closed_in_between typed run p⟩

theorem sampleImage_typed : TypedEntries sampleImage := by
  intro i inside
  have entries : sampleImage.numDirEntries.toNat = 3 := by decide
  have small : i.toNat < 3 := by
    rw [BitVec.lt_def, entries] at inside
    exact inside
  obtain dot | name | rtc : i.toNat = 0 ∨ i.toNat = 1 ∨ i.toNat = 2 := by omega
  · rw [dot]
    exact Or.inr (Or.inl (by decide))
  · rw [name]
    exact Or.inr (Or.inr (by decide))
  · rw [rtc]
    exact Or.inl (by decide)

/-- Opens and closes of the third shell: the rtc takes the slot that the
regular file left, the directory keeps its own. -/
def openingActs : List Act :=
  setUpActs ++ [.openFile shell, .openFile [46], .close 2, .openFile [114, 116, 99]]

theorem descriptor_table_sample : ∃ history k, TableOk sampleImage history 2 k ∧
    (k.entry 2 2).fileOpTablePtr = .rtcOpt ∧ (k.entry 2 3).fileOpTablePtr = .dirOpt ∧
    OpensLowest sampleImage k shell := by
  have computed : (performAll sampleImage openingActs ([], sampleEntry)).map (fun r =>
      (live 2 r.1, r.2.curPid, (r.2.entry 2 2).fileOpTablePtr, (r.2.entry 2 3).fileOpTablePtr)) =
      some (true, 2, .rtcOpt, .dirOpt) := by
    decide +kernel
  obtain ⟨r, done, values⟩ := Option.map_eq_some_iff.mp computed
  obtain ⟨started, rest⟩ := Prod.mk.inj values
  obtain ⟨running, entries⟩ := Prod.mk.inj rest
  obtain ⟨second, third⟩ := Prod.mk.inj entries
  have run : Runs sampleImage sampleEntry r.1 r.2 := performAll_run .start done
  obtain ⟨table, calls, _⟩ := descriptor_table sampleImage_typed run started
  exact ⟨r.1, r.2, table, second, third, (calls running).1 shell⟩

end UnixLite
