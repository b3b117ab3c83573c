import UnixLite.Directory

namespace UnixLite

open Transition

/-- The event is a read on a directory that was opened as `o`. -/
structure ReadsDir (fs : FsImage) (past : List Happening) (e : Happening) (o : Opened) (v : Int)
    (out : List UInt8) : Prop where
  act : ∃ (fd : Nat) (buf : Nat) (nbytes : Word), e.act = (.read fd buf nbytes, .value v out) ∧
    opened fs e.pre.curPid fd past = some o
  dir : o.dentry.fileType = 1

/-- A read on a directory descriptor gives the entry after those that the
reads made on it before gave. -/
def Enumerates (fs : FsImage) (past : List Happening) (e : Happening) : Prop :=
  ∀ o v out, ReadsDir fs past e o v out → Gives (listedName fs o.reads.length) v out

/-- At a read on a directory descriptor the global index is the number of the
reads made on it, or points to the same name, or both are past the end. -/
def IndexFits (fs : FsImage) (past : List Happening) (e : Happening) : Prop :=
  ∀ o v out, ReadsDir fs past e o v out →
    listedName fs e.pre.readIndex.toNat = listedName fs o.reads.length

theorem tableOfType_dir : tableOfType 1 = some .dirOpt := by decide

/-- The entry of a directory descriptor is one of the directory driver. -/
theorem EntriesMatch.dir {fs : FsImage} {past : List Happening} {k : Kernel} (held : EntriesMatch fs past k)
    {p : Int} {fd : Nat} {o : Opened} (known : opened fs p fd past = some o)
    (dir : o.dentry.fileType = 1) :
    2 ≤ fd ∧ fd < 8 ∧ (k.entry p fd).fileOpTablePtr = .dirOpt ∧ (k.entry p fd).flags = 1 := by
  obtain ⟨lower, upper, agrees⟩ := held p fd o known
  obtain ⟨table, _, flags⟩ := agrees .dirOpt (by rw [dir]; exact tableOfType_dir)
  exact ⟨lower, upper, table, flags⟩

theorem Kernel.sysRead_dir {fs : FsImage} {k : Kernel} {fd buf : Nat} {n : Word} (slot : fd < 8)
    (table : (k.entry k.curPid fd).fileOpTablePtr = .dirOpt)
    (used : (k.entry k.curPid fd).flags ≠ 0) :
    k.sysRead fs fd buf n = .done ((k.dirRead fs).1.setFd k.curPid fd fun e =>
      { e with filePos := e.filePos + BitVec.ofInt 32 (k.dirRead fs).2.1 }, (k.dirRead fs).2) := by
  rw [sysRead_used fs k buf n slot used, table]
  rfl

theorem ReadsDir.reply {fs : FsImage} {past : List Happening} {e : Happening} {o : Opened} {v : Int}
    {out : List UInt8} (reads : ReadsDir fs past e o v out) (held : EntriesMatch fs past e.pre)
    (move : Step fs e.pre e.act e.post) : (e.pre.dirRead fs).2 = (v, out) := by
  obtain ⟨⟨fd, buf, nbytes, act, known⟩, dir⟩ := reads
  obtain ⟨_, slot, table, flags⟩ := held.dir known dir
  have used : (e.pre.entry e.pre.curPid fd).flags ≠ 0 := by
    rw [flags]
    decide
  simp only [Step, perform, act, Kernel.sysRead_dir slot table used, ReadReply.outcome,
    Option.some.injEq, Prod.mk.injEq, Reply.value.injEq] at move
  exact Prod.ext move.2.1 move.2.2

theorem enumerates_iff {fs : FsImage} (named : NamedEntries fs) {past : List Happening} {e : Happening}
    (held : EntriesMatch fs past e.pre) (move : Step fs e.pre e.act e.post) :
    Enumerates fs past e ↔ IndexFits fs past e := by
  have given (o : Opened) (v : Int) (out : List UInt8) (reads : ReadsDir fs past e o v out) :
      Gives (listedName fs e.pre.readIndex.toNat) v out := by
    have gives := e.pre.dirRead_gives fs
    rw [reads.reply held move] at gives
    exact gives
  constructor
  · intro good o v out reads
    exact (given o v out reads).unique named (good o v out reads)
  · intro fits o v out reads
    rw [← fits o v out reads]
    exact given o v out reads

/-- The entry is that of an open directory. -/
def Fd.InUseDir (e : Fd) : Prop := e.fileOpTablePtr = .dirOpt ∧ e.flags ≠ 0

theorem closedFd_notDir : ¬ closedFd.InUseDir := by
  rintro ⟨table, _⟩
  cases table

theorem freshTable_notDir (i : Nat) : ¬ (freshTable i).InUseDir := by
  rintro ⟨table, _⟩
  unfold freshTable at table
  split at table
  · cases table
  split at table <;> cases table

namespace Kernel

/-- The global index is kept, and no directory comes into use. -/
structure Calm (k k' : Kernel) : Prop where
  readIndex : k'.readIndex = k.readIndex
  entries : ∀ q i, i < 8 → (k'.entry q i).InUseDir → (k.entry q i).InUseDir

theorem Calm.trans {k k' k'' : Kernel} (first : Calm k k') (second : Calm k' k'') : Calm k k'' :=
  ⟨second.readIndex.trans first.readIndex,
    fun q i inside used => first.entries q i inside (second.entries q i inside used)⟩

theorem calm_of_pcb {k k' : Kernel} (readIndex : k'.readIndex = k.readIndex) (pcb : k'.pcb = k.pcb) :
    Calm k k' := by
  refine ⟨readIndex, fun q i _ used => ?_⟩
  simp only [entry, pcb] at used
  exact used

theorem ttyOnly_calm {k k' : Kernel} (frame : TtyOnly k k') : Calm k k' :=
  calm_of_pcb frame.readIndex frame.pcb

theorem Started.calm {fs : FsImage} {k k' : Kernel} {command : List UInt8} {regs : Regs} {pid : Int}
    (run : k.Started fs command regs pid k') : Calm k k' := by
  refine ⟨run.readIndex, fun q i inside used => ?_⟩
  by_cases own : q = pid
  · have fresh : k'.entry q i = freshTable i := by
      rw [own]
      exact run.table i inside
    rw [fresh] at used
    exact absurd used (freshTable_notDir i)
  · simp only [entry, run.otherPcb q own] at used
    exact used

theorem sysExecute_calm {fs : FsImage} {k k' : Kernel} {command : List UInt8} {regs : Regs} {r : Reply}
    (run : (k.sysExecute fs command regs).outcome = some (k', r)) : Calm k k' := by
  rcases sysExecute_outcome run with ⟨prev, v, rfl, _⟩ | ⟨_, _, _, started⟩
  · exact calm_of_pcb rfl rfl
  · exact started.calm

theorem sysOpen_readIndex (fs : FsImage) (k : Kernel) (name : List UInt8) :
    (k.sysOpen fs name).1.readIndex = k.readIndex := by
  unfold sysOpen
  split
  · rfl
  extract_lets fd
  split
  · rfl
  split
  · rfl
  · dsimp only
    split <;> rfl

/-- Opening anything but a directory. -/
theorem sysOpen_calm {fs : FsImage} {k : Kernel} {name : List UInt8}
    (noDir : ∀ d, readDentryByName fs (cString name) = some d → d.fileType ≠ 1) :
    Calm k (k.sysOpen fs name).1 := by
  refine ⟨k.sysOpen_readIndex fs name, fun q i _ used => ?_⟩
  rcases k.sysOpen_cases fs name with ⟨_, refused⟩ | ⟨d, fd, found, _, _, _, _, _, set⟩
  · rw [refused] at used
    exact used
  · rcases set with ⟨_, same⟩ | ⟨op, typed, entries⟩
    · rw [same] at used
      exact used
    · rw [entries] at used
      split at used
      · obtain ⟨isDir, _⟩ := used
        simp only at isDir
        subst isDir
        have dir : d.fileType = 1 := by
          unfold tableOfType at typed
          split at typed
          · cases typed
          split at typed
          · assumption
          split at typed <;> cases typed
        exact absurd dir (noDir d found)
      · exact used

/-- Closing anything but a directory. -/
theorem sysClose_calm {k : Kernel} {fd : Int}
    (noDir : fd.toNat < 8 → ¬ (k.entry k.curPid fd.toNat).InUseDir) : Calm k (k.sysClose fd).1 := by
  constructor
  · unfold sysClose
    split
    · rfl
    extract_lets curFd
    split
    · rfl
    · rename_i inside used
      have other : curFd.fileOpTablePtr ≠ .dirOpt := fun dir => noDir (by omega) ⟨dir, used⟩
      cases table : curFd.fileOpTablePtr <;> first | rfl | exact absurd table other
  · intro q i _ used
    rcases k.sysClose_cases fd with ⟨_, refused⟩ | ⟨_, _, _, _, entries⟩
    · rw [refused] at used
      exact used
    · rw [entries] at used
      split at used
      · exact absurd used closedFd_notDir
      · exact used

theorem closeLoop_calm (fds : List Int) {k : Kernel}
    (noDir : ∀ i, i < 8 → ¬ (k.entry k.curPid i).InUseDir) :
    Calm k (fds.foldl (fun k i => (k.sysClose i).1) k) := by
  induction fds generalizing k with
  | nil => exact calm_of_pcb rfl rfl
  | cons fd rest ih =>
    have head := sysClose_calm (noDir fd.toNat)
    have same := (k.sysClose_quiet fd).processes.curPid
    refine head.trans (ih fun i inside used => ?_)
    rw [same] at used
    exact noDir i inside (head.entries _ i inside used)

theorem setFd_calm {k : Kernel} {p : Int} {fd : Nat} {f : Fd → Fd}
    (noDir : (f (k.entry p fd)).InUseDir → (k.entry p fd).InUseDir) : Calm k (k.setFd p fd f) := by
  refine ⟨rfl, fun q i _ used => ?_⟩
  rw [setFd_entry] at used
  split at used
  · rename_i here
    rw [here.1, here.2]
    exact noDir used
  · exact used

theorem resumeParent_readIndex (k : Kernel) (t : Fin 3) (p : Int) :
    (k.resumeParent t p).readIndex = k.readIndex := by
  by_cases shown : k.ts = t <;> simp [resumeParent, setTerm, clearKeyboardBuf, shown]

/-- The halt of a process that has no directory open. -/
theorem haltBody_calm {k : Kernel} (noDir : ∀ i, i < 8 → ¬ (k.entry k.curPid i).InUseDir) :
    Calm k k.haltBody := by
  have cleared (k : Kernel) (p : Int) (fd : Nat) : Calm k (k.setFd p fd fun _ => ⟨.nullPtr, 0, 0, 0⟩) :=
    setFd_calm (fun used => absurd rfl used.2)
  have released : Calm k k.haltRelease := calm_of_pcb rfl rfl
  have closed : Calm k k.haltRelease.closeFiles := by
    unfold closeFiles
    extract_lets k1 k2
    have before : Calm k k2 := (released.trans (cleared _ _ _)).trans (cleared _ _ _)
    refine before.trans (closeLoop_calm _ fun i inside used => ?_)
    exact noDir i inside (before.entries _ i inside used)
  have resumed := k.haltRelease.closeFiles.resumeParent_same k.ta k.curPcb.parentPid
  exact closed.trans (calm_of_pcb (resumeParent_readIndex _ _ _) resumed.1)

theorem sysRead_calm {fs : FsImage} {k k' : Kernel} {fd : Int} {buf : Nat} {n : Word} {v : Int}
    {out : List UInt8} (noDir : fd.toNat < 8 → ¬ (k.entry k.curPid fd.toNat).InUseDir)
    (run : k.sysRead fs fd buf n = .done (k', v, out)) : Calm k k' := by
  constructor
  · rcases sysRead_done run with ⟨rfl, _⟩ | ⟨_, inside, used, k1, driver, rfl⟩
    · rfl
    · have other : (k.curPcb.fileDescriptorTable fd.toNat).fileOpTablePtr ≠ .dirOpt :=
        fun dir => noDir (by omega) ⟨dir, used⟩
      have kept : k1.readIndex = k.readIndex := by
        cases table : (k.curPcb.fileDescriptorTable fd.toNat).fileOpTablePtr with
        | dirOpt => exact absurd table other
        | stdinOpt =>
          simp only [table, OpTable.read, terminalRead] at driver
          split at driver
          · cases driver
            rfl
          · split at driver <;> cases driver
            rfl
        | fileOpt =>
          simp only [table, OpTable.read, Outcome.done.injEq, Prod.mk.injEq] at driver
          rw [driver.1]
        | nullPtr =>
          rw [table] at driver
          cases driver
        | rtcOpt | stdoutOpt | nullOpt =>
          rw [table] at driver
          cases driver
          rfl
      exact kept
  · intro q i _ used
    rcases sysRead_entry run q i with same | ⟨_, _, _, moved⟩
    · rw [same] at used
      exact used
    · rw [moved] at used
      exact used

theorem sysWrite_calm {k k' : Kernel} {fd : Int} {buf : Nat} {src : Nat → UInt8} {nbytes : Word}
    {v : Int} (run : k.sysWrite fd buf src nbytes = .done (k', v)) : Calm k k' :=
  calm_of_pcb (sysWrite_kept run).2 (sysWrite_kept run).1

end Kernel

/-- The act opens no directory and reads or closes none. -/
def Spares (fs : FsImage) (k : Kernel) : Act → Prop
  | .openFile name => ∀ d, readDentryByName fs (cString name) = some d → d.fileType ≠ 1
  | .close fd | .read fd _ _ => fd.toNat < 8 → ¬ (k.entry k.curPid fd.toNat).InUseDir
  | .halt _ _ => ∀ i, i < 8 → ¬ (k.entry k.curPid i).InUseDir
  | _ => True

theorem step_calm {fs : FsImage} {k k' : Kernel} {l : Act × Reply} (move : Step fs k l k')
    (spares : Spares fs k l.1) : Kernel.Calm k k' := by
  obtain ⟨act, r⟩ := l
  cases act with
  | execute command regs => exact Kernel.sysExecute_calm move
  | halt status regs =>
    rcases step_halt move with ⟨_, rfl, _⟩ | ⟨_, restarted⟩
    · exact Kernel.haltBody_calm spares
    · have freed : Kernel.Calm k k.freeBase := Kernel.calm_of_pcb rfl rfl
      exact freed.trans (Kernel.sysExecute_calm restarted)
  | tick regs execRegs =>
    rcases step_tick move with ⟨_, switched, _, _⟩ | ⟨inSetup, launched⟩
    · refine ⟨switched.readIndex, fun q i _ used => ?_⟩
      simp only [Kernel.entry, switched.table] at used
      exact used
    · have readIndex : ((k.saveContext regs).launchTerminal ⟨_, inSetup⟩).readIndex = k.readIndex :=
        ((k.saveContext regs).launchTerminal_parts ⟨_, inSetup⟩).2.2.2.2.2.2.2
      have calm : Kernel.Calm k ((k.saveContext regs).launchTerminal ⟨_, inSetup⟩) := by
        refine ⟨readIndex, fun q i _ used => ?_⟩
        rw [k.launchTerminal_entry] at used
        exact used
      exact calm.trans (Kernel.sysExecute_calm launched)
  | key keypress =>
    cases move
    exact Kernel.ttyOnly_calm (k.keyboardHandler_ttyOnly keypress)
  | switchTo function =>
    cases move
    exact Kernel.ttyOnly_calm (k.terminalSwitch_ttyOnly function)
  | read fd buf nbytes =>
    obtain ⟨v, out, call, rfl⟩ := step_read move
    exact Kernel.sysRead_calm spares call
  | write fd buf src nbytes =>
    obtain ⟨v, call, rfl⟩ := step_write move
    exact Kernel.sysWrite_calm call
  | openFile filename =>
    cases move
    exact Kernel.sysOpen_calm spares
  | close fd =>
    cases move
    exact Kernel.sysClose_calm spares
  | putc c =>
    cases move
    exact Kernel.ttyOnly_calm (k.putc_ttyOnly c)
  | vidStore off b =>
    cases move
    exact Kernel.calm_of_pcb rfl rfl

/-- A directory is opened only while no other one is open, and from the start. -/
def OpenedAlone (fs : FsImage) (k : Kernel) (act : Act) : Prop :=
  ∀ name d, act = .openFile name → readDentryByName fs (cString name) = some d → d.fileType = 1 →
    k.readIndex = 0 ∧ ∀ q i, i < 8 → ¬ (k.entry q i).InUseDir

/-- An open directory is the only one, and the global index is its position. -/
def Lone (fs : FsImage) (history : List Happening) (k : Kernel) : Prop :=
  ∀ p fd o, opened fs p fd history = some o → o.dentry.fileType = 1 →
    k.readIndex.toNat = min o.reads.length fs.numDirEntries.toNat ∧
      ∀ q i, i < 8 → (k.entry q i).InUseDir → q = p ∧ i = fd

/-- A read moves the position on while entries are left. -/
theorem dirRead_next (fs : FsImage) (k : Kernel) : (k.dirRead fs).1.readIndex.toNat =
    if k.readIndex.toNat < fs.numDirEntries.toNat then k.readIndex.toNat + 1 else k.readIndex.toNat := by
  unfold Kernel.dirRead readDentryByIndex
  by_cases finished : k.readIndex ≥ fs.numDirEntries
  · rw [if_pos finished]
    simp only [ge_iff_le, BitVec.le_def] at finished
    rw [if_neg (by omega)]
  · rw [if_neg finished]
    simp only [ge_iff_le, BitVec.le_def, Nat.not_le] at finished
    have size := fs.numDirEntries.isLt
    rw [if_pos finished, BitVec.toNat_add, show (1 : Word).toNat = 1 from rfl]
    omega

theorem dirRead_index (fs : FsImage) (k : Kernel) {m : Nat}
    (index : k.readIndex.toNat = min m fs.numDirEntries.toNat) :
    (k.dirRead fs).1.readIndex.toNat = min (m + 1) fs.numDirEntries.toNat := by
  rw [dirRead_next, index]
  split <;> omega

theorem EntriesMatch.inUse {fs : FsImage} {past : List Happening} {k : Kernel} {p : Int} {fd : Nat} {o : Opened}
    (entries : EntriesMatch fs past k) (was : opened fs p fd past = some o) (dir : o.dentry.fileType = 1) :
    fd < 8 ∧ (k.entry p fd).InUseDir := by
  obtain ⟨_, slot, table, flags⟩ := entries.dir was dir
  exact ⟨slot, table, by rw [flags]; decide⟩

/-- A step after which the descriptor of the directory is still open, and which
reads it no further, spares it. -/
theorem Lone.spares {fs : FsImage} {past : List Happening} {k k' : Kernel} {l : Act × Reply} {p : Int} {fd : Nat}
    {o : Opened} (entries : EntriesMatch fs past k) (held : Lone fs past k) (allowed : OpenedAlone fs k l.1)
    (was : opened fs p fd past = some o) (dir : o.dentry.fileType = 1) (notHalted : Halts p ⟨k, l, k'⟩ = false)
    (notCall : k.curPid = p → (∀ i, l.1 = .close i → ¬ (i = fd ∧ (k.sysClose i).2 = 0)) ∧
      ∀ i buf nbytes, l.1 = .read i buf nbytes → i ≠ fd) : Spares fs k l.1 := by
  obtain ⟨_, only⟩ := held p fd o was dir
  obtain ⟨lower, _⟩ := entries.dir was dir
  have isOwn {i : Nat} (slot : i < 8) (used : (k.entry k.curPid i).InUseDir) : k.curPid = p ∧ i = fd :=
    only _ _ slot used
  obtain ⟨act, r⟩ := l
  cases act with
  | openFile name =>
    intro d found isDir
    obtain ⟨slot, used⟩ := entries.inUse was dir
    exact (allowed name d rfl found isDir).2 p fd slot used
  | close i =>
    intro slot used
    obtain ⟨own, here⟩ := isOwn slot used
    refine (notCall own).1 i rfl ⟨by omega, ?_⟩
    rcases k.sysClose_cases i with ⟨low | high | unused, _⟩ | ⟨_, _, _, closed, _⟩
    · omega
    · omega
    · exact absurd unused used.2
    · exact closed
  | read i buf nbytes =>
    intro slot used
    obtain ⟨own, here⟩ := isOwn slot used
    exact (notCall own).2 i buf nbytes rfl (by omega)
  | halt status regs =>
    intro i slot used
    exact absurd (isOwn slot used).1 (by simpa [Halts] using notHalted)
  | _ => trivial

theorem Lone.step {fs : FsImage} {past : List Happening} {k k' : Kernel} {l : Act × Reply}
    (entries : EntriesMatch fs past k) (held : Lone fs past k) (allowed : OpenedAlone fs k l.1)
    (move : Step fs k l k') : Lone fs (⟨k, l, k'⟩ :: past) k' := by
  intro p fd o known dir
  cases step_open move known with
  | @opens name d own act found fresh result post =>
    simp only at own act result post
    subst own fresh
    obtain ⟨index, none⟩ := allowed name d act found dir
    rw [post]
    refine ⟨by rw [k.sysOpen_readIndex, index]; simp, fun q i inside used => ?_⟩
    by_contra other
    have kept : (k.sysOpen fs name).1.entry q i = k.entry q i := by
      by_cases same : (k.sysOpen fs name).2 = i
      · have apart : q ≠ k.curPid := fun own => other ⟨own, by omega⟩
        simp only [Kernel.entry, k.sysOpen_otherPcb fs name apart]
      · exact sysOpen_otherEntry same q
    rw [kept] at used
    exact none q i inside used
  | @reads buf nbytes v out before own _ was more call =>
    simp only at own call
    subst own more
    obtain ⟨index, only⟩ := held _ fd before was dir
    obtain ⟨_, slot, table, flags⟩ := entries.dir was dir
    have moved := call
    rw [Kernel.sysRead_dir slot table (by rw [flags]; decide)] at moved
    refine ⟨?_, fun q i inside used => only q i inside ?_⟩
    · rw [← (Prod.mk.inj (Outcome.done.inj moved)).1]
      exact dirRead_index fs k index
    · rcases Kernel.sysRead_entry call q i with same | ⟨_, _, _, shifted⟩
      · rw [same] at used
        exact used
      · rw [shifted] at used
        exact used
  | other was _ notHalted notCall =>
    obtain ⟨index, only⟩ := held p fd o was dir
    have calm := step_calm move (Lone.spares entries held allowed was dir notHalted notCall)
    exact ⟨calm.readIndex ▸ index, fun q i inside used => only q i inside (calm.entries q i inside used)⟩

theorem listedName_min (fs : FsImage) (m : Nat) :
    listedName fs (min m fs.numDirEntries.toNat) = listedName fs m := by
  by_cases inside : m < fs.numDirEntries.toNat
  · rw [Nat.min_eq_left (by omega)]
  · have last : ¬ min m fs.numDirEntries.toNat < fs.numDirEntries.toNat := by omega
    rw [listedName, listedName, if_neg inside, if_neg last]

/-- Directories that are opened one at a time are read by their own index. -/
theorem lone_indexFits {fs : FsImage} {first k : Kernel} {history : List Happening}
    (run : Runs fs first history k) (alone : ∀ e ∈ history, OpenedAlone fs e.pre e.act.1)
    (past : List Happening) (e : Happening) (tail : (e :: past) <:+ history) : IndexFits fs past e := by
  obtain ⟨reach, _⟩ := run.event_of_suffix tail
  have within (e' : Happening) (member : e' ∈ past) : OpenedAlone fs e'.pre e'.act.1 :=
    alone e' (tail.subset (List.mem_cons_of_mem _ member))
  have lone : Lone fs past e.pre :=
    reach.history_invariant_of_events (Lone fs) (fun s l => OpenedAlone fs s l.1)
      (fun _ _ _ known => by cases known)
      (fun _ _ _ _ previous held allowed move => held.step (entries_match previous) allowed move) within
  rintro o v out ⟨⟨fd, buf, nbytes, act, known⟩, dir⟩
  rw [(lone _ fd o known dir).1]
  exact listedName_min fs o.reads.length

end UnixLite
