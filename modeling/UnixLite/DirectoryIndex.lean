import UnixLite.DirectoryRuns

namespace UnixLite

open Transition

/-- The name is that of a directory. -/
def FsImage.isDirectory (fs : FsImage) (name : List UInt8) : Bool :=
  (readDentryByName fs (cString name)).any fun d => d.fileType == 1

/-- Process `p` has a directory open as `fd`, as the calls made so far tell. A
base shell that halts closes nothing. -/
def dirOpen (fs : FsImage) (p : Int) (fd : Nat) : List Happening → Bool
  | [] => false
  | e :: past =>
    if Starts p e then false
    else if e.pre.curPid = p then
      match e.act with
      | (.openFile name, .value v _) => if v = fd then fs.isDirectory name else dirOpen fs p fd past
      | (.close i, .value v _) => if i = fd ∧ v = 0 then false else dirOpen fs p fd past
      | (.halt _ _, .resumed _ _) => false
      | _ => dirOpen fs p fd past
    else dirOpen fs p fd past

/-- What an event makes of the position in the directory: a read on a directory
moves it on while entries are left, and each close of a directory, those of a
halt among them, sends it back to the start. -/
def nextIndex (fs : FsImage) (past : List Happening) (e : Happening) (index : Nat) : Nat :=
  match e.act with
  | (.read fd _ _, .value _ _) =>
    if 0 ≤ fd ∧ dirOpen fs e.pre.curPid fd.toNat past ∧ index < fs.numDirEntries.toNat then index + 1
    else index
  | (.close fd, .value v _) => if v = 0 ∧ dirOpen fs e.pre.curPid fd.toNat past then 0 else index
  | (.halt _ _, .resumed _ _) =>
    if [2, 3, 4, 5, 6, 7].any fun fd => dirOpen fs e.pre.curPid fd past then 0 else index
  | _ => index

/-- The position in the directory, as the calls made so far tell. -/
def indexAfter (fs : FsImage) (first : Nat) : List Happening → Nat
  | [] => first
  | e :: past => nextIndex fs past e (indexAfter fs first past)

instance (e : Fd) : Decidable e.InUseDir := inferInstanceAs (Decidable (_ ∧ _))

theorem isDirectory_found {fs : FsImage} {name : List UInt8} {d : Dentry}
    (found : readDentryByName fs (cString name) = some d) :
    fs.isDirectory name = true ↔ d.fileType = 1 := by
  simp [FsImage.isDirectory, found]

theorem tableOfType_eq_dir {type : Word} : tableOfType type = some .dirOpt ↔ type = 1 := by
  refine ⟨fun typed => ?_, fun dir => dir ▸ tableOfType_dir⟩
  unfold tableOfType at typed
  split at typed
  · cases typed
  split at typed
  · assumption
  split at typed <;> cases typed

namespace Kernel

/-- Which directories are open after an open. -/
theorem sysOpen_inUseDir (fs : FsImage) (k : Kernel) (name : List UInt8) (i : Nat) :
    ((k.sysOpen fs name).1.entry k.curPid i).InUseDir ↔
      if (k.sysOpen fs name).2 = i then fs.isDirectory name = true else (k.entry k.curPid i).InUseDir := by
  by_cases here : (k.sysOpen fs name).2 = i
  · rw [if_pos here]
    obtain ⟨d, found⟩ := sysOpen_found here
    obtain ⟨_, _, free, set⟩ := opened_moved found here
    rw [isDirectory_found found]
    rcases k.sysOpen_cases fs name with ⟨_, refused⟩ | ⟨d', fd', found', _, _, _, _, _, untyped | typed⟩
    · rw [refused] at here
      simp only at here
      omega
    · rw [found] at found'
      cases found'
      rw [untyped.2]
      refine ⟨fun used => absurd free used.2, fun dir => ?_⟩
      rw [tableOfType_eq_dir.mpr dir] at untyped
      cases untyped.1
    · rw [found] at found'
      cases found'
      obtain ⟨op, typed, _⟩ := typed
      rw [set op typed, ← tableOfType_eq_dir, typed]
      simp [Fd.InUseDir]
  · rw [if_neg here, sysOpen_otherEntry here]

theorem sysClose_inUseDir (k : Kernel) (fd : Int) (i : Nat) :
    ((k.sysClose fd).1.entry k.curPid i).InUseDir ↔
      ¬ (fd = i ∧ (k.sysClose fd).2 = 0) ∧ (k.entry k.curPid i).InUseDir := by
  by_cases here : fd = i ∧ (k.sysClose fd).2 = 0
  · rcases k.sysClose_cases fd with ⟨_, refused⟩ | ⟨_, _, _, _, entries⟩
    · rw [refused] at here
      omega
    · rw [entries, if_pos ⟨rfl, by omega⟩]
      exact ⟨fun used => absurd used closedFd_notDir, fun both => absurd here both.1⟩
  · rw [sysClose_otherEntry here]
    exact (and_iff_right here).symm

/-- Closing a directory sends the position back. -/
theorem sysClose_readIndex (k : Kernel) (fd : Int) : (k.sysClose fd).1.readIndex =
    if (k.sysClose fd).2 = 0 ∧ (k.entry k.curPid fd.toNat).InUseDir then 0 else k.readIndex := by
  by_cases dir : (k.entry k.curPid fd.toNat).InUseDir
  · unfold sysClose
    split
    · simp
    dsimp only
    split
    · rename_i unused
      exact absurd unused dir.2
    · rw [if_pos ⟨rfl, dir⟩]
      have table : (k.curPcb.fileDescriptorTable fd.toNat).fileOpTablePtr = .dirOpt := dir.1
      rw [table]
      rfl
  · rw [if_neg fun both => dir both.2]
    exact (sysClose_calm fun _ => dir).readIndex

/-- A directory is closed, and nothing else is then another directory. -/
theorem sysClose_slot {k : Kernel} {fd : Nat} (slot : 2 ≤ fd ∧ fd ≤ 7) :
    ((k.entry k.curPid fd).InUseDir → (k.sysClose fd).2 = 0) ∧
      ∀ i, ((k.sysClose fd).1.entry k.curPid i).InUseDir ↔ i ≠ fd ∧ (k.entry k.curPid i).InUseDir := by
  have closes (used : (k.entry k.curPid fd).InUseDir) : (k.sysClose fd).2 = 0 := by
    rcases k.sysClose_cases fd with ⟨low | high | unused, _⟩ | ⟨_, _, _, closed, _⟩
    · omega
    · omega
    · exact absurd unused used.2
    · exact closed
  refine ⟨closes, fun i => ?_⟩
  rw [sysClose_inUseDir]
  constructor
  · rintro ⟨other, used⟩
    refine ⟨?_, used⟩
    rintro rfl
    exact other ⟨rfl, closes used⟩
  · rintro ⟨other, used⟩
    exact ⟨fun both => other (by omega), used⟩

/-- Closing descriptors one after the other: none of them is a directory then,
and the position is at the start if one of them was. -/
theorem closeLoop_dirs (fds : List Nat) (slots : ∀ fd ∈ fds, 2 ≤ fd ∧ fd ≤ 7) (k : Kernel) :
    (∀ i, (((fds.map Int.ofNat).foldl (fun k i => (k.sysClose i).1) k).entry k.curPid i).InUseDir ↔
        i ∉ fds ∧ (k.entry k.curPid i).InUseDir) ∧
      ((fds.map Int.ofNat).foldl (fun k i => (k.sysClose i).1) k).readIndex =
        if ∃ i ∈ fds, (k.entry k.curPid i).InUseDir then 0 else k.readIndex := by
  induction fds generalizing k with
  | nil => simp
  | cons fd rest ih =>
    have slot := slots fd (List.mem_cons_self ..)
    have same := (k.sysClose_quiet fd).processes.curPid
    obtain ⟨entries, index⟩ := ih (fun i member => slots i (List.mem_cons_of_mem _ member)) (k.sysClose fd).1
    rw [same] at entries index
    obtain ⟨closes, one⟩ := sysClose_slot (k := k) slot
    simp only [List.map_cons, List.foldl_cons, Int.ofNat_eq_natCast]
    constructor
    · intro i
      rw [entries, one, List.mem_cons, not_or]
      tauto
    · rw [index, sysClose_readIndex, Int.toNat_natCast]
      by_cases here : (k.entry k.curPid fd).InUseDir
      · have whole : ∃ i ∈ fd :: rest, (k.entry k.curPid i).InUseDir := ⟨fd, List.mem_cons_self .., here⟩
        have closed : (k.sysClose fd).2 = 0 ∧ (k.entry k.curPid fd).InUseDir := ⟨closes here, here⟩
        rw [if_pos whole, if_pos closed]
        split <;> rfl
      · have notClosed : ¬ ((k.sysClose fd).2 = 0 ∧ (k.entry k.curPid fd).InUseDir) := fun both => here both.2
        rw [if_neg notClosed]
        refine if_congr ?_ rfl rfl
        constructor
        · rintro ⟨i, member, used⟩
          exact ⟨i, List.mem_cons_of_mem _ member, ((one i).mp used).2⟩
        · rintro ⟨i, member, used⟩
          have apart : i ≠ fd := by
            rintro rfl
            exact here used
          rcases List.mem_cons.mp member with same | later
          · exact absurd same apart
          · exact ⟨i, later, (one i).mpr ⟨apart, used⟩⟩

/-- A process that dies leaves no directory open, and the position at the start
if it had one. -/
theorem haltBody_dirs (k : Kernel) : (∀ i, i < 8 → ¬ (k.haltBody.entry k.curPid i).InUseDir) ∧
    k.haltBody.readIndex =
      if ∃ i ∈ ([2, 3, 4, 5, 6, 7] : List Nat), (k.entry k.curPid i).InUseDir then 0 else k.readIndex := by
  have resumed := k.haltRelease.closeFiles.resumeParent_same k.ta k.curPcb.parentPid
  have entry (i : Nat) : k.haltBody.entry k.curPid i = k.haltRelease.closeFiles.entry k.curPid i := by
    simp only [haltBody, Kernel.entry, resumed.1]
  have index : k.haltBody.readIndex = k.haltRelease.closeFiles.readIndex := resumeParent_readIndex _ _ _
  simp only [entry, index]
  unfold closeFiles
  extract_lets k1 k2
  have cleared (i : Nat) : k2.entry k.curPid i =
      if i = 0 ∨ i = 1 then ⟨.nullPtr, 0, 0, 0⟩ else k.entry k.curPid i :=
    k.haltRelease.cleared_entry k.curPid i
  obtain ⟨entries, position⟩ := closeLoop_dirs [2, 3, 4, 5, 6, 7] (by decide) k2
  have same : k2.curPid = k.curPid := rfl
  have start : k2.readIndex = k.readIndex := rfl
  simp only [List.map_cons, List.map_nil, Int.ofNat_eq_natCast, Nat.cast_ofNat] at entries position
  rw [same] at entries position
  constructor
  · intro i slot used
    obtain ⟨other, open_⟩ := (entries i).mp used
    rw [cleared] at open_
    by_cases low : i = 0 ∨ i = 1
    · rw [if_pos low] at open_
      exact open_.2 rfl
    · simp only [List.mem_cons, List.not_mem_nil, or_false, not_or] at other
      omega
  · rw [position, start]
    refine if_congr (exists_congr fun i => and_congr_right fun member => ?_) rfl rfl
    rw [cleared, if_neg]
    simp only [List.mem_cons, List.not_mem_nil, or_false] at member
    omega

theorem sysRead_inUseDir {fs : FsImage} {k k' : Kernel} {fd : Int} {buf : Nat} {n : Word} {v : Int}
    {out : List UInt8} (run : k.sysRead fs fd buf n = .done (k', v, out)) (q : Int) (i : Nat) :
    (k'.entry q i).InUseDir ↔ (k.entry q i).InUseDir := by
  rcases sysRead_entry run q i with same | ⟨_, _, _, moved⟩
  · rw [same]
  · rw [moved]
    rfl

end Kernel

/-- The directories that the calls made so far left open are those in the tables. -/
def DirsMatch (fs : FsImage) (past : List Happening) (k : Kernel) : Prop :=
  ∀ p fd, dirOpen fs p fd past = true ↔ fd < 8 ∧ (k.entry p fd).InUseDir

theorem dirOpen_started {fs : FsImage} {p : Int} {e : Happening} (past : List Happening)
    (started : Starts p e = true) (fd : Nat) : dirOpen fs p fd (e :: past) = false := by
  rw [dirOpen, if_pos started]

/-- What is no call on descriptors of `p`, and no halt that closes them, leaves
them as they are. -/
theorem dirOpen_apart {fs : FsImage} {p : Int} {e : Happening} (past : List Happening)
    (notStarted : Starts p e = false)
    (notCall : e.pre.curPid = p → (∀ name, e.act.1 ≠ .openFile name) ∧ (∀ fd, e.act.1 ≠ .close fd) ∧
      ((∀ status regs, e.act.1 ≠ .halt status regs) ∨ ∀ ebp eax, e.act.2 ≠ .resumed ebp eax)) (fd : Nat) :
    dirOpen fs p fd (e :: past) = dirOpen fs p fd past := by
  simp only [dirOpen, notStarted, Bool.false_eq_true, if_false]
  by_cases own : e.pre.curPid = p
  · obtain ⟨notOpen, notClose, notResumed⟩ := notCall own
    rw [if_pos own]
    split
    · rename_i name v out act
      exact absurd (congrArg Prod.fst act) (notOpen name)
    · rename_i i v out act
      exact absurd (congrArg Prod.fst act) (notClose i)
    · rename_i status regs ebp eax act
      rcases notResumed with notHalt | notBack
      · exact absurd (congrArg Prod.fst act) (notHalt status regs)
      · exact absurd (congrArg Prod.snd act) (notBack ebp eax)
    · rfl
  · rw [if_neg own]

/-- A halt leaves the table of the process empty of directories, or as it is. -/
theorem DirsMatch.halt {fs : FsImage} {past : List Happening} {k k' : Kernel} {status : Word} {regs : Regs}
    {r : Reply} (held : DirsMatch fs past k) (move : Step fs k (.halt status regs, r) k')
    (notStarted : Starts k.curPid ⟨k, (.halt status regs, r), k'⟩ = false) (fd : Nat) :
    dirOpen fs k.curPid fd (⟨k, (.halt status regs, r), k'⟩ :: past) = true ↔
      fd < 8 ∧ (k'.entry k.curPid fd).InUseDir := by
  rcases step_halt move with ⟨_, rfl, rfl⟩ | ⟨_, restarted⟩
  · simp only [dirOpen, notStarted, Bool.false_eq_true, if_false, if_true, false_iff]
    exact fun used => k.haltBody_dirs.1 fd used.1 used.2
  · rcases Kernel.sysExecute_outcome restarted with ⟨_, _, rfl, rfl⟩ | ⟨_, pid, rfl, run⟩
    · rw [dirOpen_apart past notStarted (by simp)]
      exact held k.curPid fd
    · rw [dirOpen_apart past notStarted (by simp)]
      have other : k.curPid ≠ pid := by
        rintro same
        simp [Starts, run.curPid, same] at notStarted
      have kept : k'.pcb k.curPid = k.pcb k.curPid := run.otherPcb _ other
      simp only [Kernel.entry, kept]
      exact held k.curPid fd

/-- One step keeps the directories that the calls tell of those in the tables. -/
theorem DirsMatch.step {fs : FsImage} {past : List Happening} {k k' : Kernel} {l : Act × Reply}
    (held : DirsMatch fs past k) (move : Step fs k l k') : DirsMatch fs (⟨k, l, k'⟩ :: past) k' := by
  intro p fd
  cases step_table p move with
  | fresh starts fresh =>
    rw [dirOpen_started past starts]
    refine ⟨fun no => absurd no (by decide), fun used => absurd used.2 ?_⟩
    rw [fresh fd used.1]
    exact freshTable_notDir fd
  | ended notStarted halts =>
    obtain ⟨act, r⟩ := l
    cases act with
    | halt status regs =>
      have own : k.curPid = p := by simpa [Halts] using halts
      subst own
      exact held.halt move notStarted fd
    | _ => cases halts
  | @openFile name own act post =>
    simp only at own act post
    subst own act post
    have next : dirOpen fs k.curPid fd
        (⟨k, (.openFile name, .value (k.sysOpen fs name).2 []), (k.sysOpen fs name).1⟩ :: past) =
        if (k.sysOpen fs name).2 = fd then fs.isDirectory name else dirOpen fs k.curPid fd past := by
      simp [dirOpen, Starts]
    rw [next, k.sysOpen_inUseDir fs name fd]
    by_cases here : (k.sysOpen fs name).2 = fd
    · obtain ⟨d, found⟩ := Kernel.sysOpen_found here
      rw [if_pos here, if_pos here]
      exact (and_iff_right (opened_moved found here).2.1).symm
    · rw [if_neg here, if_neg here]
      exact held k.curPid fd
  | @close i own act post =>
    simp only at own act post
    subst own act post
    have next : dirOpen fs k.curPid fd
        (⟨k, (.close i, .value (k.sysClose i).2 []), (k.sysClose i).1⟩ :: past) =
        if i = fd ∧ (k.sysClose i).2 = 0 then false else dirOpen fs k.curPid fd past := by
      simp [dirOpen, Starts]
    rw [next, k.sysClose_inUseDir i fd]
    by_cases here : i = fd ∧ (k.sysClose i).2 = 0
    · rw [if_pos here]
      exact ⟨fun no => absurd no (by decide), fun both => absurd here both.2.1⟩
    · rw [if_neg here, held k.curPid fd]
      exact and_congr_right fun _ => (and_iff_right here).symm
  | @read i buf nbytes v out own act call =>
    simp only at own act call
    subst own act
    rw [dirOpen_apart past (starts_false (by simp)) (by simp), Kernel.sysRead_inUseDir call]
    exact held k.curPid fd
  | apart notStarted notHalted notCall kept =>
    have notHalt (own : k.curPid = p) (status : Word) (regs : Regs) : l.1 ≠ .halt status regs := by
      intro act
      simp [Halts, act, own] at notHalted
    rw [dirOpen_apart past notStarted
      (fun own => ⟨(notCall own).1, (notCall own).2.1, Or.inl (notHalt own)⟩), kept]
    exact held p fd

theorem nextIndex_read {fs : FsImage} {past : List Happening} {k k' : Kernel} {fd : Int} {buf : Nat}
    {nbytes : Word} {v : Int} {out : List UInt8} (held : DirsMatch fs past k)
    (call : k.sysRead fs fd buf nbytes = .done (k', v, out)) : k'.readIndex.toNat =
      nextIndex fs past ⟨k, (.read fd buf nbytes, .value v out), k'⟩ k.readIndex.toNat := by
  simp only [nextIndex]
  by_cases own : 0 ≤ fd ∧ dirOpen fs k.curPid fd.toNat past = true
  · obtain ⟨slot, used⟩ := (held k.curPid fd.toNat).mp own.2
    have same : ((fd.toNat : Nat) : Int) = fd := Int.toNat_of_nonneg own.1
    rw [← same, Kernel.sysRead_dir slot used.1 used.2] at call
    rw [← (Prod.mk.inj (Outcome.done.inj call)).1]
    refine (dirRead_next fs k).trans (if_congr ?_ rfl rfl)
    exact ⟨fun inside => ⟨own.1, own.2, inside⟩, fun all => all.2.2⟩
  · rw [if_neg fun all => own ⟨all.1, all.2.1⟩]
    by_cases negative : fd < 0
    · rcases Kernel.sysRead_done call with ⟨rfl, _⟩ | ⟨lower, _⟩
      · rfl
      · omega
    · have calm := Kernel.sysRead_calm
        (fun slot used => own ⟨by omega, (held k.curPid fd.toNat).mpr ⟨slot, used⟩⟩) call
      rw [calm.readIndex]

theorem nextIndex_close {fs : FsImage} {past : List Happening} {k : Kernel} (held : DirsMatch fs past k)
    (fd : Int) : (k.sysClose fd).1.readIndex.toNat =
      nextIndex fs past ⟨k, (.close fd, .value (k.sysClose fd).2 []), (k.sysClose fd).1⟩ k.readIndex.toNat := by
  simp only [nextIndex, k.sysClose_readIndex fd]
  by_cases closed : (k.sysClose fd).2 = 0
  · have slot : fd.toNat < 8 := by
      rcases k.sysClose_cases fd with ⟨_, refused⟩ | ⟨_, upper, _⟩
      · rw [refused] at closed
        cases closed
      · omega
    have agree := (held k.curPid fd.toNat).trans (and_iff_right slot)
    simp only [closed, true_and, agree]
    split <;> rfl
  · rw [if_neg fun both => closed both.1, if_neg fun both => closed both.1]

theorem nextIndex_halt {fs : FsImage} {past : List Happening} {k k' : Kernel} {status : Word} {regs : Regs}
    {r : Reply} (held : DirsMatch fs past k) (move : Step fs k (.halt status regs, r) k') :
    k'.readIndex.toNat = nextIndex fs past ⟨k, (.halt status regs, r), k'⟩ k.readIndex.toNat := by
  rcases step_halt move with ⟨_, rfl, rfl⟩ | ⟨_, restarted⟩
  · have agree : ([2, 3, 4, 5, 6, 7].any fun fd => dirOpen fs k.curPid fd past) = true ↔
        ∃ i ∈ ([2, 3, 4, 5, 6, 7] : List Nat), (k.entry k.curPid i).InUseDir := by
      rw [List.any_eq_true]
      refine exists_congr fun i => and_congr_right fun member => ?_
      refine (held k.curPid i).trans (and_iff_right ?_)
      simp only [List.mem_cons, List.not_mem_nil, or_false] at member
      omega
    simp only [nextIndex, k.haltBody_dirs.2, agree]
    split <;> rfl
  · rw [(Kernel.sysExecute_calm restarted).readIndex, show k.freeBase.readIndex = k.readIndex from rfl]
    rcases Kernel.sysExecute_outcome restarted with ⟨_, _, _, rfl⟩ | ⟨_, _, rfl, _⟩ <;> rfl

/-- One step makes of the position what the calls tell. -/
theorem nextIndex_step {fs : FsImage} {past : List Happening} {k k' : Kernel} {l : Act × Reply}
    (held : DirsMatch fs past k) (move : Step fs k l k') :
    k'.readIndex.toNat = nextIndex fs past ⟨k, l, k'⟩ k.readIndex.toNat := by
  obtain ⟨act, r⟩ := l
  cases act with
  | read fd buf nbytes =>
    obtain ⟨v, out, call, rfl⟩ := step_read move
    exact nextIndex_read held call
  | close fd =>
    cases move
    exact nextIndex_close held fd
  | halt status regs => exact nextIndex_halt held move
  | openFile name =>
    cases move
    exact congrArg BitVec.toNat (k.sysOpen_readIndex fs name)
  | _ =>
    rw [(step_calm move trivial).readIndex]
    rfl

/-- The calls made so far tell which directories are open and where the reads
stand, if none was open at first. -/
theorem readIndex_history {fs : FsImage} {first k : Kernel} {history : List Happening}
    (run : Runs fs first history k) (none : ∀ p fd, fd < 8 → ¬ (first.entry p fd).InUseDir) :
    DirsMatch fs history k ∧ k.readIndex.toNat = indexAfter fs first.readIndex.toNat history := by
  refine run.history_invariant
    (fun past k => DirsMatch fs past k ∧ k.readIndex.toNat = indexAfter fs first.readIndex.toNat past)
    ⟨fun p fd => ?_, rfl⟩ (fun past k l k' _ held move => ⟨held.1.step move, ?_⟩)
  · exact ⟨nofun, fun used => absurd used.2 (none p fd used.1)⟩
  · rw [indexAfter, ← held.2]
    exact nextIndex_step held.1 move

/-- At a read on a directory descriptor the opens, reads and closes before it
leave the position where the reads on this descriptor alone would. -/
def HistoryFits (fs : FsImage) (first : Nat) (past : List Happening) (e : Happening) : Prop :=
  ∀ o v out, ReadsDir fs past e o v out →
    listedName fs (indexAfter fs first past) = listedName fs o.reads.length

/-- Every directory descriptor enumerates the directory exactly when the global
index fits at each read, which the opens, reads and closes before the read
decide; it does in runs that open one directory at a time. -/
theorem directory_reads {fs : FsImage} (named : NamedEntries fs) {first k : Kernel}
    {history : List Happening} (run : Runs fs first history k) :
    ((∀ past e, (e :: past) <:+ history → Enumerates fs past e) ↔
        ∀ past e, (e :: past) <:+ history → IndexFits fs past e) ∧
      ((∀ p fd, fd < 8 → ¬ (first.entry p fd).InUseDir) →
        ((∀ past e, (e :: past) <:+ history → Enumerates fs past e) ↔
          ∀ past e, (e :: past) <:+ history → HistoryFits fs first.readIndex.toNat past e)) ∧
      ((∀ e ∈ history, OpenedAlone fs e.pre e.act.1) →
        ∀ past e, (e :: past) <:+ history → Enumerates fs past e) := by
  have each (past : List Happening) (e : Happening) (tail : (e :: past) <:+ history) :
      Enumerates fs past e ↔ IndexFits fs past e := by
    obtain ⟨reach, move⟩ := run.event_of_suffix tail
    exact enumerates_iff named (entries_match reach) move
  refine ⟨?_, fun none => ?_, fun alone past e tail =>
    (each past e tail).mpr (lone_indexFits run alone past e tail)⟩
  · exact forall_congr' fun past => forall_congr' fun e => forall_congr' fun tail => each past e tail
  · refine forall_congr' fun past => forall_congr' fun e => forall_congr' fun tail => ?_
    obtain ⟨reach, _⟩ := run.event_of_suffix tail
    rw [each past e tail, IndexFits, HistoryFits, (readIndex_history reach none).2]

/-- The check of `IndexFits` at every step of a run. -/
def allFit (fs : FsImage) : List Happening → Bool
  | [] => true
  | e :: past =>
    (match e.act with
      | (.read fd _ _, .value _ _) =>
        (opened fs e.pre.curPid fd.toNat past).all fun o =>
          o.dentry.fileType != 1 || listedName fs e.pre.readIndex.toNat == listedName fs o.reads.length
      | _ => true) && allFit fs past

theorem allFit_sound {fs : FsImage} {history : List Happening} (fit : allFit fs history = true)
    (past : List Happening) (e : Happening) (tail : (e :: past) <:+ history) : IndexFits fs past e := by
  induction history with
  | nil => simp at tail
  | cons latest earlier ih =>
    obtain ⟨now, before⟩ := Bool.and_eq_true_iff.mp fit
    rcases List.suffix_cons_iff.mp tail with same | inside
    · cases same
      rintro o v out ⟨⟨fd, buf, nbytes, act, known⟩, dir⟩
      rw [act] at now
      simpa [known, dir] using now
    · exact ih before inside

/-- The latest step as a read on a directory: the reads before it on its
descriptor and its result. -/
def lastDirRead (fs : FsImage) : List Happening → Option (Nat × Int)
  | ⟨k, (.read fd _ _, .value v _), _⟩ :: past =>
    match opened fs k.curPid fd.toNat past with
    | some o => if 0 ≤ fd ∧ o.dentry.fileType = 1 then some (o.reads.length, v) else none
    | none => none
  | _ => none

theorem lastDirRead_some {fs : FsImage} {history : List Happening} {m : Nat} {v : Int}
    (last : lastDirRead fs history = some (m, v)) : ∃ e past o out, history = e :: past ∧
      ReadsDir fs past e o v out ∧ o.reads.length = m := by
  unfold lastDirRead at last
  split at last
  · rename_i k fd buf nbytes v' out k' past
    split at last
    · rename_i o known
      split at last
      · rename_i valid
        cases last
        have same : ((fd.toNat : Nat) : Int) = fd := Int.toNat_of_nonneg valid.1
        exact ⟨_, past, o, out, rfl, ⟨⟨fd.toNat, buf, nbytes, by rw [same], known⟩, valid.2⟩, rfl⟩
      · cases last
    · cases last
  · cases last

theorem sampleImage_named : NamedEntries sampleImage := by
  intro i name known
  have entries : sampleImage.numDirEntries.toNat = 3 := by decide
  rw [listedName, entries] at known
  split at known
  · obtain dot | program | rtc : i = 0 ∨ i = 1 ∨ i = 2 := by omega
    all_goals
      subst i
      cases known
      decide
  · cases known

theorem directory_reads_sample : ∃ e past o out, ReadsDir sampleImage past e o 5 out ∧
    o.reads.length = 1 ∧ Gives (listedName sampleImage 1) 5 out := by
  have computed : (performAll sampleImage
      (setUpActs ++ [.openFile [46], .openFile shell, .read 2 1 33, .read 3 1 9, .read 2 1 33])
      ([], sampleEntry)).map (fun r => (lastDirRead sampleImage r.1, allFit sampleImage r.1)) =
      some (some (1, 5), true) := by
    decide +kernel
  obtain ⟨r, done, values⟩ := Option.map_eq_some_iff.mp computed
  obtain ⟨last, fit⟩ := Prod.mk.inj values
  obtain ⟨e, past, o, out, history, reads, count⟩ := lastDirRead_some last
  have run : Runs sampleImage sampleEntry r.1 r.2 := performAll_run .start done
  have good := (directory_reads sampleImage_named run).1.mpr (allFit_sound fit) past e
    (history ▸ List.suffix_rfl) o 5 out reads
  rw [count] at good
  exact ⟨e, past, o, out, reads, count, good⟩

/-- Two descriptors of the directory share the index: the first read on the
second one gives the second entry. -/
theorem directory_reads_shared : ¬ ∀ (fs : FsImage) (first k : Kernel) (history : List Happening),
    NamedEntries fs → fs.numDirEntries.toNat ≤ 63 → first.readIndex = 0 → Runs fs first history k →
    ∀ past e, (e :: past) <:+ history → Enumerates fs past e := by
  intro always
  have computed : (performAll sampleImage
      (setUpActs ++ [.openFile [46], .openFile [46], .read 2 1 33, .read 3 1 33])
      ([], sampleEntry)).map (fun r => lastDirRead sampleImage r.1) = some (some (0, 5)) := by
    decide +kernel
  obtain ⟨r, done, last⟩ := Option.map_eq_some_iff.mp computed
  obtain ⟨e, past, o, out, history, reads, count⟩ := lastDirRead_some last
  have run : Runs sampleImage sampleEntry r.1 r.2 := performAll_run .start done
  have good := always _ _ _ _ sampleImage_named (by decide) rfl run past e
    (history ▸ List.suffix_rfl) o 5 out reads
  have first : listedName sampleImage 0 = some [46] := by decide
  rw [count, first] at good
  exact absurd good.1 (by decide)

end UnixLite
