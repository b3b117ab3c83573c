import UnixLite.Descriptors

namespace UnixLite

open Transition

/-- A descriptor that `sys_open` returned: the entry found and the reads made
since, each with its count, its result and its bytes, the newest first. -/
structure Opened where
  dentry : Dentry
  reads : List (Word × Int × List UInt8)

/-- What an event makes of descriptor `fd` of process `p`. -/
def nextOpened (fs : FsImage) (p : Int) (fd : Nat) (e : Happening) (old : Option Opened) :
    Option Opened :=
  if Starts p e || Halts p e then none
  else if e.pre.curPid = p then
    match e.act with
    | (.openFile name, .value v _) =>
      if v = fd then (readDentryByName fs (cString name)).map fun d => ⟨d, []⟩ else old
    | (.close i, .value v _) => if i = fd ∧ v = 0 then none else old
    | (.read i _ nbytes, .value v out) =>
      if i = fd then old.map fun o => { o with reads := (nbytes, v, out) :: o.reads } else old
    | _ => old
  else old

/-- Descriptor `fd` of process `p` as the calls made on it tell. -/
def opened (fs : FsImage) (p : Int) (fd : Nat) : List Happening → Option Opened
  | [] => none
  | e :: past => nextOpened fs p fd e (opened fs p fd past)

/-- Process `p` has been started and has not halted since. -/
def live (p : Int) : List Happening → Bool
  | [] => false
  | e :: past => Starts p e || (!Halts p e && live p past)

theorem freeFd_spec (table : Nat → Fd) (n fd : Nat) : fd ≤ freeFd table n fd ∧
    freeFd table n fd ≤ fd + n ∧ (∀ j, fd ≤ j → j < freeFd table n fd → (table j).flags ≠ 0) ∧
    (freeFd table n fd < fd + n → (table (freeFd table n fd)).flags = 0) := by
  induction n generalizing fd with
  | zero =>
    refine ⟨Nat.le_refl fd, Nat.le_refl fd, ?_, ?_⟩
    · intro j lower upper
      simp only [freeFd] at upper
      omega
    · intro upper
      simp only [freeFd] at upper
      omega
  | succ n ih =>
    by_cases used : (table fd).flags ≠ 0
    · obtain ⟨lower, upper, before, free⟩ := ih (fd + 1)
      simp only [freeFd, if_pos used]
      refine ⟨by omega, by omega, ?_, fun inside => free (by omega)⟩
      intro j from_fd below
      by_cases here : j = fd
      · rw [here]
        exact used
      · exact before j (by omega) below
    · simp only [freeFd, if_neg used]
      refine ⟨Nat.le_refl fd, by omega, fun j lower upper => by omega, fun _ => ?_⟩
      exact not_not.mp used

namespace Kernel

/-- `sys_open` changes nothing and returns -1, or it returns the lowest free
descriptor; with a known file type that descriptor is set up. -/
theorem sysOpen_cases (fs : FsImage) (k : Kernel) (name : List UInt8) :
    ((readDentryByName fs (cString name) = none ∨
        ∀ i, 2 ≤ i → i < 8 → (k.entry k.curPid i).flags ≠ 0) ∧ k.sysOpen fs name = (k, -1)) ∨
      ∃ d fd, readDentryByName fs (cString name) = some d ∧ 2 ≤ fd ∧ fd < 8 ∧
        (k.entry k.curPid fd).flags = 0 ∧
        (∀ j, 2 ≤ j → j < fd → (k.entry k.curPid j).flags ≠ 0) ∧ (k.sysOpen fs name).2 = (fd : Nat) ∧
        ((tableOfType d.fileType = none ∧ (k.sysOpen fs name).1 = k) ∨
          ∃ op, tableOfType d.fileType = some op ∧ ∀ q i, (k.sysOpen fs name).1.entry q i =
            if q = k.curPid ∧ i = fd then ⟨op, d.inodeNum, 0, 1⟩ else k.entry q i) := by
  obtain ⟨lower, upper, before, free⟩ := freeFd_spec k.curPcb.fileDescriptorTable 6 2
  unfold sysOpen
  cases found : readDentryByName fs (cString name) with
  | none => exact Or.inl ⟨Or.inl rfl, rfl⟩
  | some d =>
    dsimp only
    generalize freeFd k.curPcb.fileDescriptorTable 6 2 = fd at lower upper before free ⊢
    by_cases full : fd ≥ 8
    · rw [if_pos full]
      exact Or.inl ⟨Or.inr fun i from_two inside => before i from_two (by omega), rfl⟩
    · rw [if_neg full]
      refine Or.inr ⟨d, fd, rfl, lower, by omega, free (by omega), before, ?_⟩
      cases typed : tableOfType d.fileType with
      | none => exact ⟨rfl, Or.inl ⟨rfl, rfl⟩⟩
      | some op =>
        refine ⟨rfl, Or.inr ⟨op, rfl, fun q i => ?_⟩⟩
        have set := k.setFd_entry k.curPid q fd i fun _ => ⟨op, d.inodeNum, 0, 1⟩
        dsimp only
        split <;> exact set

theorem sysOpen_found {fs : FsImage} {k : Kernel} {name : List UInt8} {fd : Nat}
    (result : (k.sysOpen fs name).2 = fd) : ∃ d, readDentryByName fs (cString name) = some d := by
  rcases k.sysOpen_cases fs name with ⟨_, refused⟩ | ⟨d, _, found, _⟩
  · rw [refused] at result
    simp only at result
    omega
  · exact ⟨d, found⟩

/-- `sys_close` refuses what is not an open descriptor, and frees what is. -/
theorem sysClose_cases (k : Kernel) (fd : Int) :
    ((fd < 2 ∨ 7 < fd ∨ (k.entry k.curPid fd.toNat).flags = 0) ∧ k.sysClose fd = (k, -1)) ∨
      (2 ≤ fd ∧ fd ≤ 7 ∧ (k.entry k.curPid fd.toNat).flags ≠ 0 ∧ (k.sysClose fd).2 = 0 ∧
        ∀ q i, (k.sysClose fd).1.entry q i =
          if q = k.curPid ∧ i = fd.toNat then closedFd else k.entry q i) := by
  unfold sysClose
  by_cases outside : fd < 2 ∨ fd > 7
  · rw [if_pos outside]
    exact Or.inl ⟨by omega, rfl⟩
  · rw [if_neg outside]
    dsimp only
    by_cases unused : (k.curPcb.fileDescriptorTable fd.toNat).flags = 0
    · rw [if_pos unused]
      exact Or.inl ⟨Or.inr (Or.inr unused), rfl⟩
    · rw [if_neg unused]
      refine Or.inr ⟨by omega, by omega, unused, rfl, fun q i => ?_⟩
      have hook (q : Int) (i : Nat) :
          ((k.curPcb.fileDescriptorTable fd.toNat).fileOpTablePtr.close k).entry q i = k.entry q i := by
        cases (k.curPcb.fileDescriptorTable fd.toNat).fileOpTablePtr <;> rfl
      rw [setFd_entry, hook]

/-- A read moves the position of its descriptor and touches no other entry. -/
theorem sysRead_entry {fs : FsImage} {k k' : Kernel} {fd : Int} {buf : Nat} {nbytes : Word}
    {v : Int} {out : List UInt8} (run : k.sysRead fs fd buf nbytes = .done (k', v, out)) (q : Int)
    (i : Nat) : k'.entry q i = k.entry q i ∨
      (q = k.curPid ∧ fd = i ∧ (k.entry q i).flags ≠ 0 ∧ k'.entry q i = { k.entry q i with
        filePos := (k.entry q i).filePos + BitVec.ofInt 32 v }) := by
  rcases sysRead_done run with ⟨rfl, _⟩ | ⟨lower, _, used, k1, driver, rfl⟩
  · exact Or.inl rfl
  · have same (q : Int) (i : Nat) : k1.entry q i = k.entry q i := by
      simp only [entry, (OpTable.read_kept driver).1]
    rw [setFd_entry, same, same]
    by_cases here : q = k.curPid ∧ i = fd.toNat
    · rw [if_pos here, here.1, here.2]
      exact Or.inr ⟨rfl, by omega, used, rfl⟩
    · rw [if_neg here]
      exact Or.inl rfl

end Kernel

/-- The entry of a descriptor is the one its type calls for. -/
def Opened.Matches (o : Opened) (e : Fd) : Prop :=
  ∀ op, tableOfType o.dentry.fileType = some op →
    e.fileOpTablePtr = op ∧ e.inodeNum = o.dentry.inodeNum ∧ e.flags = 1

/-- The entries of a process agree with what its calls say is open. -/
def EntriesMatch (fs : FsImage) (history : List Happening) (k : Kernel) : Prop :=
  ∀ p fd o, opened fs p fd history = some o → 2 ≤ fd ∧ fd < 8 ∧ o.Matches (k.entry p fd)

/-- What is open was found in the directory. -/
theorem opened_dentry {fs : FsImage} {p : Int} {fd : Nat} {history : List Happening} {o : Opened}
    (known : opened fs p fd history = some o) : ∃ name, readDentryByName fs name = some o.dentry := by
  induction history generalizing o with
  | nil => cases known
  | cons e past ih =>
    unfold opened nextOpened at known
    split at known
    · cases known
    split at known
    · split at known
      · split at known
        · obtain ⟨d, found, rfl⟩ := Option.map_eq_some_iff.mp known
          exact ⟨_, found⟩
        · exact ih known
      · split at known
        · cases known
        · exact ih known
      · split at known
        · obtain ⟨before, was, rfl⟩ := Option.map_eq_some_iff.mp known
          have found := ih was
          exact found
        · exact ih known
      · exact ih known
    · exact ih known

theorem opened_ended {fs : FsImage} {p : Int} {e : Happening} (past : List Happening)
    (gone : Starts p e = true ∨ Halts p e = true) (fd : Nat) : opened fs p fd (e :: past) = none := by
  unfold opened nextOpened
  rw [if_pos (by simpa using gone)]

theorem opened_apart {fs : FsImage} {p : Int} {e : Happening} (past : List Happening)
    (notStarted : Starts p e = false) (notHalted : Halts p e = false)
    (notCall : e.pre.curPid = p → (∀ name, e.act.1 ≠ .openFile name) ∧ (∀ fd, e.act.1 ≠ .close fd) ∧
      ∀ fd buf nbytes, e.act.1 ≠ .read fd buf nbytes) (fd : Nat) :
    opened fs p fd (e :: past) = opened fs p fd past := by
  simp only [opened, nextOpened, notStarted, notHalted, Bool.or_self, Bool.false_eq_true, if_false]
  by_cases own : e.pre.curPid = p
  · obtain ⟨notOpen, notClose, notRead⟩ := notCall own
    rw [if_pos own]
    split
    · rename_i name v out act
      exact absurd (congrArg Prod.fst act) (notOpen name)
    · rename_i i v out act
      exact absurd (congrArg Prod.fst act) (notClose i)
    · rename_i i buf nbytes v out act
      exact absurd (congrArg Prod.fst act) (notRead i buf nbytes)
    · rfl
  · rw [if_neg own]

theorem opened_openFile {fs : FsImage} (past : List Happening) (k k' : Kernel) (name : List UInt8)
    (v : Int) (out : List UInt8) (fd : Nat) :
    opened fs k.curPid fd (⟨k, (.openFile name, .value v out), k'⟩ :: past) =
      if v = fd then (readDentryByName fs (cString name)).map fun d => ⟨d, []⟩
      else opened fs k.curPid fd past := by
  simp [opened, nextOpened, Starts, Halts]

theorem opened_close {fs : FsImage} (past : List Happening) (k k' : Kernel) (i v : Int)
    (out : List UInt8) (fd : Nat) :
    opened fs k.curPid fd (⟨k, (.close i, .value v out), k'⟩ :: past) =
      if i = fd ∧ v = 0 then none else opened fs k.curPid fd past := by
  simp [opened, nextOpened, Starts, Halts]

theorem opened_read {fs : FsImage} (past : List Happening) (k k' : Kernel) (i : Int) (buf : Nat)
    (nbytes : Word) (v : Int) (out : List UInt8) (fd : Nat) :
    opened fs k.curPid fd (⟨k, (.read i buf nbytes, .value v out), k'⟩ :: past) =
      if i = fd then (opened fs k.curPid fd past).map fun o =>
        { o with reads := (nbytes, v, out) :: o.reads }
      else opened fs k.curPid fd past := by
  simp [opened, nextOpened, Starts, Halts]

/-- A descriptor of the process that runs is opened only where it was free. -/
theorem opened_moved {fs : FsImage} {k : Kernel} {name : List UInt8} {d : Dentry} {fd : Nat}
    (found : readDentryByName fs (cString name) = some d) (result : (k.sysOpen fs name).2 = fd) :
    2 ≤ fd ∧ fd < 8 ∧ (k.entry k.curPid fd).flags = 0 ∧ ∀ op, tableOfType d.fileType = some op →
      (k.sysOpen fs name).1.entry k.curPid fd = ⟨op, d.inodeNum, 0, 1⟩ := by
  rcases k.sysOpen_cases fs name with ⟨_, refused⟩ | ⟨d', fd', found', lower, upper, free, _, returned, set⟩
  · rw [refused] at result
    simp only at result
    omega
  · rw [found] at found'
    cases found'
    have same : fd' = fd := Int.ofNat_inj.mp (returned.symm.trans result)
    subst same
    refine ⟨lower, upper, free, fun op typed => ?_⟩
    rcases set with ⟨untyped, _⟩ | ⟨op', typed', entries⟩
    · rw [typed] at untyped
      cases untyped
    · rw [typed] at typed'
      cases typed'
      rw [entries, if_pos ⟨rfl, rfl⟩]

/-- Opening or closing another descriptor leaves an entry as it is. -/
theorem sysOpen_otherEntry {fs : FsImage} {k : Kernel} {name : List UInt8} {fd : Nat}
    (other : (k.sysOpen fs name).2 ≠ fd) (p : Int) :
    (k.sysOpen fs name).1.entry p fd = k.entry p fd := by
  rcases k.sysOpen_cases fs name with ⟨_, refused⟩ | ⟨_, fd', _, _, _, _, _, returned, set⟩
  · rw [refused]
  · have apart : fd ≠ fd' := by
      rintro rfl
      exact other returned
    rcases set with ⟨_, same⟩ | ⟨_, _, entries⟩
    · rw [same]
    · rw [entries, if_neg (fun both => apart both.2)]

theorem sysClose_otherEntry {k : Kernel} {i : Int} {fd : Nat}
    (other : ¬ (i = fd ∧ (k.sysClose i).2 = 0)) (p : Int) :
    (k.sysClose i).1.entry p fd = k.entry p fd := by
  rcases k.sysClose_cases i with ⟨_, refused⟩ | ⟨lower, _, _, closed, entries⟩
  · rw [refused]
  · have apart : fd ≠ i.toNat := fun same => other ⟨by omega, closed⟩
    rw [entries, if_neg (fun both => apart both.2)]

/-- How a step leaves descriptor `fd` of process `p` open with `o`: it opens
it, it reads from it, or it does something else and leaves its entry alone. -/
inductive OpenEffect (fs : FsImage) (past : List Happening) (p : Int) (fd : Nat) (o : Opened)
    (e : Happening) : Prop
  | opens {name d} : e.pre.curPid = p → e.act.1 = .openFile name →
      readDentryByName fs (cString name) = some d → o = ⟨d, []⟩ → (e.pre.sysOpen fs name).2 = fd →
      e.post = (e.pre.sysOpen fs name).1 → OpenEffect fs past p fd o e
  | reads {buf nbytes v out before} : e.pre.curPid = p → e.act.1 = .read fd buf nbytes →
      opened fs p fd past = some before → o = { before with reads := (nbytes, v, out) :: before.reads } →
      e.pre.sysRead fs fd buf nbytes = .done (e.post, v, out) → OpenEffect fs past p fd o e
  | other : opened fs p fd past = some o → e.post.entry p fd = e.pre.entry p fd → Halts p e = false →
      (e.pre.curPid = p → (∀ i, e.act.1 = .close i → ¬ (i = fd ∧ (e.pre.sysClose i).2 = 0)) ∧
        ∀ i buf nbytes, e.act.1 = .read i buf nbytes → i ≠ fd) → OpenEffect fs past p fd o e

/-- Inversion of a step after which a descriptor is open. -/
theorem step_open {fs : FsImage} {past : List Happening} {k k' : Kernel} {l : Act × Reply} {p : Int}
    {fd : Nat} {o : Opened} (move : Step fs k l k')
    (known : opened fs p fd (⟨k, l, k'⟩ :: past) = some o) : OpenEffect fs past p fd o ⟨k, l, k'⟩ := by
  cases step_table p move with
  | fresh starts _ =>
    rw [opened_ended past (Or.inl starts)] at known
    cases known
  | ended _ halts =>
    rw [opened_ended past (Or.inr halts)] at known
    cases known
  | apart notStarted notHalted notCall kept =>
    rw [opened_apart past notStarted notHalted notCall] at known
    refine .other known (kept fd) notHalted fun own => ?_
    obtain ⟨_, notClose, notRead⟩ := notCall own
    exact ⟨fun i act => absurd act (notClose i), fun i buf nbytes act => absurd act (notRead i buf nbytes)⟩
  | @openFile name own act post =>
    simp only at own act post
    subst own act post
    rw [opened_openFile] at known
    by_cases here : (k.sysOpen fs name).2 = fd
    · rw [if_pos here] at known
      obtain ⟨d, found, rfl⟩ := Option.map_eq_some_iff.mp known
      exact .opens rfl rfl found rfl here rfl
    · rw [if_neg here] at known
      exact .other known (sysOpen_otherEntry here _) rfl fun _ => ⟨by simp, by simp⟩
  | @close i own act post =>
    simp only at own act post
    subst own act post
    rw [opened_close] at known
    by_cases here : i = fd ∧ (k.sysClose i).2 = 0
    · rw [if_pos here] at known
      cases known
    · rw [if_neg here] at known
      refine .other known (sysClose_otherEntry here _) rfl fun _ => ⟨?_, by simp⟩
      intro j act
      cases act
      exact here
  | @read i buf nbytes v out own act call =>
    simp only at own act call
    subst own act
    rw [opened_read] at known
    by_cases here : i = fd
    · subst here
      rw [if_pos rfl] at known
      obtain ⟨before, was, rfl⟩ := Option.map_eq_some_iff.mp known
      exact .reads rfl rfl was rfl call
    · rw [if_neg here] at known
      refine .other known ?_ rfl fun _ => ⟨by simp, ?_⟩
      · rcases Kernel.sysRead_entry call k.curPid fd with same | ⟨_, isHere, _⟩
        · exact same
        · exact absurd isHere here
      · intro j buf nbytes act
        cases act
        exact here

theorem EntriesMatch.step {fs : FsImage} {past : List Happening} {k k' : Kernel} {l : Act × Reply}
    (held : EntriesMatch fs past k) (move : Step fs k l k') : EntriesMatch fs (⟨k, l, k'⟩ :: past) k' := by
  intro p fd o known
  cases step_open move known with
  | opens own _ found fresh result post =>
    simp only at own result post
    subst own fresh
    obtain ⟨lower, upper, _, entry⟩ := opened_moved found result
    refine ⟨lower, upper, fun op typed => ?_⟩
    rw [post, entry op typed]
    exact ⟨rfl, rfl, rfl⟩
  | reads own _ was more call =>
    subst more
    obtain ⟨lower, upper, agrees⟩ := held p fd _ was
    refine ⟨lower, upper, fun op typed => ?_⟩
    have matched := agrees op typed
    rcases Kernel.sysRead_entry call p fd with same | ⟨_, _, _, moved⟩
    · rw [same]
      exact matched
    · rw [moved]
      exact matched
  | other was kept =>
    rw [kept]
    exact held p fd o was

theorem entries_match {fs : FsImage} {first k : Kernel} {history : List Happening}
    (run : Runs fs first history k) : EntriesMatch fs history k :=
  run.history_invariant (EntriesMatch fs) (fun _ _ _ known => by cases known)
    (fun _ _ _ _ _ held move => held.step move)

end UnixLite
