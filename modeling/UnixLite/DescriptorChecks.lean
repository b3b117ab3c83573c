import UnixLite.Tables

namespace UnixLite

open Transition

/-- An entry that can be told used from free, with a table to call through. -/
def Fd.Tidy (e : Fd) : Prop := (e.flags = 0 ∨ e.flags = 1) ∧ e.fileOpTablePtr ≠ .nullPtr

/-- The eight entries of every process that has been started and has not
halted since are tidy. -/
def TidyTables (history : List Happening) (k : Kernel) : Prop :=
  ∀ p, live p history = true → ∀ i, i < 8 → (k.entry p i).Tidy

theorem freshTable_tidy (i : Nat) : (freshTable i).Tidy := by
  unfold freshTable
  split
  · exact ⟨Or.inr rfl, by decide⟩
  · split
    · exact ⟨Or.inr rfl, by decide⟩
    · exact ⟨Or.inl rfl, by decide⟩

theorem closedFd_tidy : closedFd.Tidy := ⟨Or.inl rfl, by decide⟩

theorem tableOfType_tidy {fileType : Word} {op : OpTable} (typed : tableOfType fileType = some op)
    (inode : Word) : Fd.Tidy ⟨op, inode, 0, 1⟩ := by
  refine ⟨Or.inr rfl, ?_⟩
  rintro rfl
  unfold tableOfType at typed
  split at typed
  · cases typed
  · split at typed
    · cases typed
    · split at typed <;> cases typed

/-- A process that an event neither starts nor halts was live before it. -/
theorem live_before {p : Int} {e : Happening} {past : List Happening} (now : live p (e :: past) = true)
    (notStarted : Starts p e = false) : Halts p e = false ∧ live p past = true := by
  simpa [live, notStarted] using now

theorem TidyTables.step {fs : FsImage} {past : List Happening} {k k' : Kernel} {l : Act × Reply}
    (tidy : TidyTables past k) (move : Step fs k l k') : TidyTables (⟨k, l, k'⟩ :: past) k' := by
  intro p now i inside
  cases step_table p move with
  | fresh _ entries =>
    have fresh := entries i inside
    simp only at fresh
    rw [fresh]
    exact freshTable_tidy i
  | ended notStarted halts =>
    obtain ⟨notHalted, _⟩ := live_before now notStarted
    rw [notHalted] at halts
    cases halts
  | apart notStarted _ _ kept =>
    have same := kept i
    simp only at same
    rw [same]
    exact tidy p (live_before now notStarted).2 i inside
  | @openFile name own act post =>
    simp only at own act post
    subst own act
    have old := tidy k.curPid (live_before now (starts_false (by simp))).2 i inside
    rw [post]
    rcases k.sysOpen_cases fs name with ⟨_, refused⟩ | ⟨d, fd, _, _, _, _, _, _, set⟩
    · rw [refused]
      exact old
    · rcases set with ⟨_, same⟩ | ⟨op, typed, entries⟩
      · rw [same]
        exact old
      · rw [entries]
        split
        · exact tableOfType_tidy typed d.inodeNum
        · exact old
  | @close fd own act post =>
    simp only at own act post
    subst own act
    have old := tidy k.curPid (live_before now (starts_false (by simp))).2 i inside
    rw [post]
    rcases k.sysClose_cases fd with ⟨_, refused⟩ | ⟨_, _, _, _, entries⟩
    · rw [refused]
      exact old
    · rw [entries]
      split
      · exact closedFd_tidy
      · exact old
  | @read fd buf nbytes v out own act call =>
    simp only at own act call
    subst own act
    have old := tidy k.curPid (live_before now (starts_false (by simp))).2 i inside
    rcases Kernel.sysRead_entry call k.curPid i with same | ⟨_, _, _, moved⟩
    · rw [same]
      exact old
    · rw [moved]
      exact old

theorem tidyTables {fs : FsImage} {first k : Kernel} {history : List Happening}
    (run : Runs fs first history k) : TidyTables history k :=
  run.history_invariant TidyTables (fun _ now => by cases now)
    (fun _ _ _ _ _ tidy move => tidy.step move)

/-- A descriptor of the current process whose entry is marked as used. -/
def Kernel.Used (k : Kernel) (fd : Int) : Prop :=
  0 ≤ fd ∧ fd ≤ 7 ∧ (k.entry k.curPid fd.toNat).flags = 1

def Outcome.map {α β : Type} (f : α → β) : Outcome α → Outcome β
  | .done a => .done (f a)
  | .blocks => .blocks
  | .wild => .wild

/-- The position of a descriptor moves by the result of a read. -/
def Kernel.movePos (k : Kernel) (fd : Nat) (r : ReadReply) : ReadReply :=
  (r.1.setFd k.curPid fd fun e => { e with filePos := e.filePos + BitVec.ofInt 32 r.2.1 }, r.2)

/-- A read goes through the driver of a used entry, or it is refused with
nothing changed. -/
structure ReadChecked (fs : FsImage) (k : Kernel) (fd : Int) : Prop where
  used : k.Used fd → ∀ buf nbytes, k.sysRead fs fd buf nbytes =
    ((k.entry k.curPid fd.toNat).fileOpTablePtr.read fs k (k.entry k.curPid fd.toNat) buf nbytes).map
      (k.movePos fd.toNat)
  unused : ¬ k.Used fd → ∀ buf nbytes, k.sysRead fs fd buf nbytes = .done (k, -1, [])

structure WriteChecked (k : Kernel) (fd : Int) : Prop where
  used : k.Used fd → ∀ buf src nbytes, k.sysWrite fd buf src nbytes =
    (k.entry k.curPid fd.toNat).fileOpTablePtr.write k buf src nbytes
  unused : ¬ k.Used fd → ∀ buf src nbytes, k.sysWrite fd buf src nbytes = .done (k, -1)

/-- The first two descriptors are not closed, used or not. -/
structure CloseChecked (k : Kernel) (fd : Int) : Prop where
  used : k.Used fd → 2 ≤ fd → k.sysClose fd =
    (((k.entry k.curPid fd.toNat).fileOpTablePtr.close k).setFd k.curPid fd.toNat fun _ => closedFd, 0)
  unused : ¬ (k.Used fd ∧ 2 ≤ fd) → k.sysClose fd = (k, -1)

namespace Kernel

/-- With tidy entries a descriptor is used exactly when its flags are not 0. -/
theorem used_iff {k : Kernel} (tidy : ∀ i, i < 8 → (k.entry k.curPid i).Tidy) (fd : Int) :
    k.Used fd ↔ 0 ≤ fd ∧ fd ≤ 7 ∧ (k.entry k.curPid fd.toNat).flags ≠ 0 := by
  constructor
  · rintro ⟨lower, upper, flags⟩
    refine ⟨lower, upper, ?_⟩
    rw [flags]
    decide
  · rintro ⟨lower, upper, used⟩
    exact ⟨lower, upper, (tidy fd.toNat (by omega)).1.resolve_left used⟩

theorem flags_of_unused {k : Kernel} (tidy : ∀ i, i < 8 → (k.entry k.curPid i).Tidy) {fd : Int}
    (unused : ¬ k.Used fd) (lower : 0 ≤ fd) (upper : fd ≤ 7) : (k.entry k.curPid fd.toNat).flags = 0 := by
  by_contra flags
  exact unused ((used_iff tidy fd).mpr ⟨lower, upper, flags⟩)

theorem sysRead_within {fs : FsImage} {k : Kernel} (tidy : ∀ i, i < 8 → (k.entry k.curPid i).Tidy)
    {fd : Int} (notLast : fd ≠ 8) : ReadChecked fs k fd := by
  constructor
  · intro used buf nbytes
    obtain ⟨lower, upper, flags⟩ := (used_iff tidy fd).mp used
    obtain ⟨n, rfl⟩ := Int.eq_ofNat_of_zero_le lower
    simp only [Int.toNat_natCast] at flags ⊢
    rw [sysRead_used fs k buf nbytes (by omega) flags]
    cases (k.entry k.curPid n).fileOpTablePtr.read fs k (k.entry k.curPid n) buf nbytes <;> rfl
  · intro unused buf nbytes
    unfold sysRead
    by_cases outside : fd < 0 ∨ fd > 8
    · rw [if_pos outside]
    · rw [if_neg outside, if_neg notLast]
      exact if_pos (flags_of_unused tidy unused (by omega) (by omega))

theorem sysWrite_within {k : Kernel} (tidy : ∀ i, i < 8 → (k.entry k.curPid i).Tidy)
    {fd : Int} (notLast : fd ≠ 8) : WriteChecked k fd := by
  constructor
  · intro used buf src nbytes
    obtain ⟨lower, upper, flags⟩ := (used_iff tidy fd).mp used
    have inside : ¬ (fd < 0 ∨ fd > 8) := by omega
    unfold sysWrite
    rw [if_neg inside, if_neg notLast]
    exact if_neg flags
  · intro unused buf src nbytes
    unfold sysWrite
    by_cases outside : fd < 0 ∨ fd > 8
    · rw [if_pos outside]
    · rw [if_neg outside, if_neg notLast]
      exact if_pos (flags_of_unused tidy unused (by omega) (by omega))

theorem sysClose_checked {k : Kernel} (tidy : ∀ i, i < 8 → (k.entry k.curPid i).Tidy) (fd : Int) :
    CloseChecked k fd := by
  constructor
  · intro used closable
    obtain ⟨_, upper, flags⟩ := (used_iff tidy fd).mp used
    have inside : ¬ (fd < 2 ∨ fd > 7) := by omega
    unfold sysClose
    rw [if_neg inside]
    exact if_neg flags
  · intro unused
    unfold sysClose
    by_cases outside : fd < 2 ∨ fd > 7
    · rw [if_pos outside]
    · have unused : ¬ k.Used fd := fun used => unused ⟨used, by omega⟩
      rw [if_neg outside]
      exact if_pos (flags_of_unused tidy unused (by omega) (by omega))

theorem not_used_last (k : Kernel) : ¬ k.Used 8 := by
  rintro ⟨_, upper, _⟩
  omega

theorem sysRead_last (fs : FsImage) (k : Kernel) : ReadChecked fs k 8 ↔ k.curPcb.curEbp = 0 := by
  have inside : ¬ ((8 : Int) < 0 ∨ (8 : Int) > 8) := by omega
  constructor
  · intro checked
    have refused := checked.unused k.not_used_last 0 0
    simp only [sysRead, inside, if_false, if_true] at refused
    by_contra saved
    rw [if_neg saved] at refused
    cases refused
  · intro saved
    refine ⟨fun used => absurd used k.not_used_last, fun _ buf nbytes => ?_⟩
    simp only [sysRead, inside, if_false, if_true, saved]

theorem sysWrite_last (k : Kernel) : WriteChecked k 8 ↔ k.curPcb.curEbp = 0 := by
  have inside : ¬ ((8 : Int) < 0 ∨ (8 : Int) > 8) := by omega
  constructor
  · intro checked
    have refused := checked.unused k.not_used_last 0 (fun _ => 0) 0
    simp only [sysWrite, inside, if_false, if_true] at refused
    by_contra saved
    rw [if_neg saved] at refused
    cases refused
  · intro saved
    refine ⟨fun used => absurd used k.not_used_last, fun _ buf src nbytes => ?_⟩
    simp only [sysWrite, inside, if_false, if_true, saved]

end Kernel

/-- In every run and for every descriptor `sys_close` is checked; `sys_read`
and `sys_write` are, except that index 8, one past the table, is dispatched
through the words that follow it while the saved `cur_ebp` there is not 0. -/
theorem descriptors_checked {fs : FsImage} {first k : Kernel} {history : List Happening}
    (run : Runs fs first history k) (started : live k.curPid history = true) (fd : Int) :
    ((ReadChecked fs k fd ∧ WriteChecked k fd ∧ CloseChecked k fd) ↔
      (fd = 8 → k.curPcb.curEbp = 0)) ∧
    (k.Used fd → (k.entry k.curPid fd.toNat).fileOpTablePtr ≠ .nullPtr) := by
  have tidy : ∀ i, i < 8 → (k.entry k.curPid i).Tidy := tidyTables run k.curPid started
  constructor
  · by_cases last : fd = 8
    · subst last
      rw [Kernel.sysRead_last, Kernel.sysWrite_last]
      constructor
      · exact fun checked _ => checked.1
      · exact fun saved => ⟨saved rfl, saved rfl, Kernel.sysClose_checked tidy 8⟩
    · constructor
      · exact fun _ same => absurd same last
      · exact fun _ => ⟨Kernel.sysRead_within tidy last, Kernel.sysWrite_within tidy last,
          Kernel.sysClose_checked tidy fd⟩
  · rintro ⟨lower, upper, _⟩
    exact (tidy fd.toNat (by omega)).2

/-- The third shell of the sample, for which index 8 is the only one unchecked. -/
theorem descriptors_checked_shell : ∃ history k, Runs sampleImage sampleEntry history k ∧
    ReadChecked sampleImage k 7 ∧ WriteChecked k 7 ∧ CloseChecked k 7 := by
  have computed : (performAll sampleImage setUpActs ([], sampleEntry)).map
      (fun r => live r.2.curPid r.1) = some true := by
    decide +kernel
  obtain ⟨r, done, started⟩ := Option.map_eq_some_iff.mp computed
  have run : Runs sampleImage sampleEntry r.1 r.2 := performAll_run .start done
  exact ⟨r.1, r.2, run, (descriptors_checked run started 7).1.mpr (by omega)⟩

/-- A shell that has just been started reads from descriptor 8. -/
theorem descriptors_unchecked : ¬ ∀ (fs : FsImage) (first k : Kernel) (history : List Happening),
    Runs fs first history k → live k.curPid history = true →
      ∀ fd, ReadChecked fs k fd ∧ WriteChecked k fd ∧ CloseChecked k fd := by
  intro checked
  have computed : (performAll sampleImage setUpActs ([], sampleEntry)).map
      (fun r => (live r.2.curPid r.1, r.2.curPcb.curEbp)) = some (true, kernelStack 2) := by
    decide +kernel
  obtain ⟨r, done, values⟩ := Option.map_eq_some_iff.mp computed
  obtain ⟨started, saved⟩ := Prod.mk.inj values
  have run : Runs sampleImage sampleEntry r.1 r.2 := performAll_run .start done
  have refused := (checked _ _ _ _ run started 8).1
  rw [Kernel.sysRead_last, saved] at refused
  exact absurd refused (by decide)

end UnixLite
