import UnixLite.UserCalls
import UnixLite.DirectoryIndex

namespace UnixLite

open Transition Store

/-- Where `main` of ece391ls.c is. -/
inductive Ls
  | start (buf : Nat → UInt8)
  | openFailed
  | reading (fd : Int) (buf : Nat → UInt8)
  | readFailed
  | writing (fd : Int) (buf : Nat → UInt8) (cnt : Int)
  | returned (v : Int)

namespace Ls

/-- `"."` -/
def dot : List UInt8 := [46]

def openFailedText : List UInt8 := ascii "directory open failed\n"

def readFailedText : List UInt8 := ascii "directory entry read failed\n"

def ask (a : Addresses) : Ls → Option SysCall
  | start _ => some (.openFile dot)
  | openFailed => some (fdputs 1 a.text (cString openFailedText))
  | reading fd _ => some (.read fd a.buf 32)
  | readFailed => some (fdputs 1 a.text (cString readFailedText))
  | writing _ buf cnt => some (.write 1 a.buf buf (BitVec.ofInt 32 (cnt + 1)))
  | returned _ => none

/-- A directory read stores 33 bytes; the newline goes behind the `cnt` that count. -/
def take : Ls → Answer → Ls
  | start buf, r => if r.1 = -1 then openFailed else reading r.1 buf
  | openFailed, _ => returned 2
  | reading fd buf, r =>
    if r.1 = 0 then returned 0
    else if r.1 = -1 then readFailed
    else writing fd (Function.update (storeList buf 0 r.2) r.1.toNat 10) r.1
  | readFailed, _ => returned 3
  | writing fd buf _, r => if r.1 = -1 then returned 3 else reading fd buf
  | returned v, _ => returned v

def result : Ls → Option Int
  | returned v => some v
  | _ => none

end Ls

/-- A line for each of these entries. -/
def listing (fs : FsImage) (entries : List Nat) : List UInt8 := entries.flatMap fun i => (fs.dentryAt i).name ++ [10]

/-- The entries up to the first that has no name. -/
def listed (fs : FsImage) : List Nat :=
  (List.range fs.numDirEntries.toNat).takeWhile fun i => (fs.dentryAt i).name ≠ []

/-- What `ls` prints and returns. -/
def lsText (fs : FsImage) : List UInt8 × Int :=
  match readDentryByName fs (cString Ls.dot) with
  | none => (Ls.openFailedText, 2)
  | some _ => (listing fs (listed fs), 0)

namespace Ls

section Listing

variable {fs : FsImage} {m : Nat}

theorem listed_append (within : m ≤ fs.numDirEntries.toNat) (named : ∀ i, i < m → (fs.dentryAt i).name ≠ []) :
    listed fs = List.range m ++ ((List.range' m (fs.numDirEntries.toNat - m)).takeWhile
      fun i => (fs.dentryAt i).name ≠ []) := by
  have split : List.range fs.numDirEntries.toNat =
      List.range m ++ List.range' m (fs.numDirEntries.toNat - m) := by
    have joined : List.range' 0 m ++ List.range' (0 + m) (fs.numDirEntries.toNat - m) =
        List.range' 0 (m + (fs.numDirEntries.toNat - m)) := List.range'_append_1
    rw [Nat.zero_add, Nat.add_sub_cancel' within] at joined
    rw [List.range_eq_range', List.range_eq_range', joined]
  unfold listed
  rw [split]
  refine List.takeWhile_append_of_pos fun i member => ?_
  simpa using named i (List.mem_range.mp member)

theorem listing_prefix (within : m ≤ fs.numDirEntries.toNat) (named : ∀ i, i < m → (fs.dentryAt i).name ≠ []) :
    listing fs (List.range m) <+: listing fs (listed fs) := by
  rw [listed_append within named, listing, listing, List.flatMap_append]
  exact List.prefix_append _ _

/-- The listing ends where the directory does or where a name is empty. -/
theorem listed_whole (within : m ≤ fs.numDirEntries.toNat) (named : ∀ i, i < m → (fs.dentryAt i).name ≠ [])
    (ends : m = fs.numDirEntries.toNat ∨ (fs.dentryAt m).name = []) : listed fs = List.range m := by
  have rest : ((List.range' m (fs.numDirEntries.toNat - m)).takeWhile fun i => (fs.dentryAt i).name ≠ []) = [] := by
    rcases ends with atEnd | unnamed
    · rw [atEnd, Nat.sub_self]
      rfl
    · cases left : fs.numDirEntries.toNat - m with
      | zero => rfl
      | succ n =>
        rw [List.range'_succ]
        exact List.takeWhile_cons_of_neg (by simp [unnamed])
  rw [listed_append within named, rest, List.append_nil]

/-- Behind the first `m` entries comes the next one. -/
theorem listed_next (inside : m < fs.numDirEntries.toNat) (named : ∀ i, i < m + 1 → (fs.dentryAt i).name ≠ []) :
    (listed fs).drop m = m :: (listed fs).drop (m + 1) := by
  have split := listed_append inside named
  have length : (List.range (m + 1)).length = m + 1 := List.length_range
  rw [split, List.drop_left' length, List.range_succ, List.append_assoc, List.drop_left' List.length_range]
  rfl

theorem listing_succ : listing fs (List.range (m + 1)) =
    listing fs (List.range m) ++ ((fs.dentryAt m).name ++ [10]) := by
  simp [listing, List.range_succ]

end Listing

/-- The descriptor that `ls` reads from: the next entry is number `m`. -/
structure Lists (fs : FsImage) (p : Int) (k : Kernel) (m : Nat) : Prop where
  directory : ∃ d, readDentryByName fs (cString dot) = some d
  table : (k.entry p 2).fileOpTablePtr = .dirOpt
  used : (k.entry p 2).flags ≠ 0
  index : k.readIndex.toNat = m
  within : m ≤ fs.numDirEntries.toNat
  named : ∀ i, i < m → (fs.dentryAt i).name ≠ []

/-- What holds at each call. -/
def At (fs : FsImage) (p : Int) (calls : List (SysCall × Answer)) (k : Kernel) : Ls → Prop
  | start _ => printed calls = [] ∧ k.readIndex = 0 ∧ ∀ i, 2 ≤ i → i < 8 → (k.entry p i).flags = 0
  | openFailed => printed calls = [] ∧ readDentryByName fs (cString dot) = none
  | reading fd _ => fd = 2 ∧ ∃ m, Lists fs p k m ∧ printed calls = listing fs (List.range m)
  | readFailed => False
  | writing fd buf cnt => fd = 2 ∧ ∃ m, Lists fs p k (m + 1) ∧ cnt = (fs.dentryAt m).name.length ∧
      (List.range ((fs.dentryAt m).name.length + 1)).map buf = (fs.dentryAt m).name ++ [10] ∧
      printed calls = listing fs (List.range m)
  | returned v => (printed calls, v) = lsText fs

/-- The calls that may still come. -/
def left (fs : FsImage) (k : Kernel) : Ls → Nat
  | start _ => 2 * fs.numDirEntries.toNat + 2
  | reading _ _ => 2 * (fs.numDirEntries.toNat - k.readIndex.toNat) + 1
  | writing _ _ _ => 2 * (fs.numDirEntries.toNat - k.readIndex.toNat) + 2
  | openFailed | readFailed => 1
  | returned _ => 0

variable {fs : FsImage} {p : Int} {args : List UInt8} {calls : List (SysCall × Answer)} {k k' : Kernel} {a : Answer}

theorem Lists.same {m : Nat} (lists : Lists fs p k m) (entry : k'.entry p 2 = k.entry p 2)
    (index : k'.readIndex = k.readIndex) : Lists fs p k' m where
  directory := lists.directory
  table := by rw [entry]; exact lists.table
  used := by rw [entry]; exact lists.used
  index := by rw [index]; exact lists.index
  within := lists.within
  named := lists.named

theorem At.stable {s : Ls} (holds : At fs p calls k s) (kept : ∀ i, k'.entry p i = k.entry p i)
    (index : k'.readIndex = k.readIndex) : At fs p calls k' s := by
  cases s with
  | start buf =>
    simp only [At, kept, index] at holds ⊢
    exact holds
  | reading fd buf =>
    obtain ⟨two, m, lists, text⟩ := holds
    exact ⟨two, m, lists.same (kept 2) index, text⟩
  | writing fd buf cnt =>
    obtain ⟨two, m, lists, rest⟩ := holds
    exact ⟨two, m, lists.same (kept 2) index, rest⟩
  | openFailed | readFailed | returned v => exact holds

/-- The directory is opened as the first descriptor behind the terminal's. -/
theorem opens_directory (directory : ∀ d, readDentryByName fs (cString dot) = some d → d.fileType = 1)
    (index : k.readIndex = 0) (free : ∀ i, 2 ≤ i → i < 8 → (k.entry p i).flags = 0)
    (served : Serves fs p k (.openFile dot) a k') : k'.readIndex = k.readIndex ∧
      (∀ i, i ≠ 2 → k'.entry p i = k.entry p i) ∧
      ((readDentryByName fs (cString dot) = none ∧ a.1 = -1) ∨ (a.1 = 2 ∧ Lists fs p k' 0)) := by
  obtain ⟨same, opens⟩ := served.opens (Nat.le_refl 2) (by decide) (free 2 (by decide) (by decide))
    fun i lower less => by omega
  refine ⟨same, ?_⟩
  rcases opens with ⟨missing, refused, rfl⟩ | ⟨d, found, two, set⟩
  · exact ⟨fun i _ => rfl, Or.inl ⟨missing, refused⟩⟩
  · rcases set with ⟨untyped, _⟩ | ⟨op, typed, entries⟩
    · rw [directory d found, tableOfType_dir] at untyped
      cases untyped
    · rw [directory d found, tableOfType_dir] at typed
      cases typed
      have entry : k'.entry p 2 = ⟨.dirOpt, d.inodeNum, 0, 1⟩ := entries 2
      refine ⟨fun i other => by rw [entries, if_neg other], Or.inr ⟨two, ⟨d, found⟩, by rw [entry], ?_, ?_,
        Nat.zero_le _, by simp⟩⟩
      · rw [entry]
        exact (by decide : (1 : Word) ≠ 0)
      · rw [same, index]
        rfl

theorem At.opened {buf : Nat → UInt8} (holds : At fs p calls k (start buf))
    (directory : ∀ d, readDentryByName fs (cString dot) = some d → d.fileType = 1)
    (served : Serves fs p k (.openFile dot) a k') :
    At fs p ((.openFile dot, a) :: calls) k' (take (start buf) a) ∧ k'.entry p 1 = k.entry p 1 ∧
      k'.readIndex = k.readIndex := by
  obtain ⟨before, index, free⟩ := holds
  have still : printed ((SysCall.openFile dot, a) :: calls) = [] := by rw [printed_cons, before]; rfl
  obtain ⟨same, kept, opens⟩ := opens_directory directory index free served
  refine ⟨?_, kept 1 (by decide), same⟩
  rcases opens with ⟨missing, refused⟩ | ⟨two, lists⟩
  · rw [show take (start buf) a = openFailed from if_pos refused]
    exact ⟨still, missing⟩
  · have opens : take (start buf) a = reading 2 buf := by simp [take, two]
    rw [opens]
    exact ⟨rfl, 0, lists, still⟩

/-- What a directory read stores. -/
theorem dirRead_entry {m : Nat} (index : k.readIndex.toNat = m) :
    (m = fs.numDirEntries.toNat → (k.dirRead fs).2 = (0, [])) ∧
      (m < fs.numDirEntries.toNat → (k.dirRead fs).2 =
        (((fs.dentryAt m).name.length : Int), (fs.dentryAt m).fileName.toList ++ [0]) ∧
          (k.dirRead fs).1.readIndex.toNat = m + 1) := by
  unfold Kernel.dirRead readDentryByIndex
  constructor
  · intro atEnd
    rw [if_pos (by simp only [ge_iff_le, BitVec.le_def]; omega)]
  · intro inside
    rw [if_neg (by simp only [ge_iff_le, BitVec.le_def]; omega), index]
    have short : (fs.dentryAt m).fileName.toList.length ≤ 32 := by simp
    have size := fs.numDirEntries.isLt
    refine ⟨?_, ?_⟩
    · simp only [strlen_name short]
      rfl
    · simp only [BitVec.toNat_add, show (1 : Word).toNat = 1 from rfl]
      omega

theorem reads_directory {buf : Nat} {n : Word} (served : Serves fs p k (.read 2 buf n) a k')
    (table : (k.entry p 2).fileOpTablePtr = .dirOpt) (used : (k.entry p 2).flags ≠ 0) :
    a = (k.dirRead fs).2 ∧ k'.readIndex = (k.dirRead fs).1.readIndex ∧ (∀ i, i ≠ 2 → k'.entry p i = k.entry p i) ∧
      (k'.entry p 2).fileOpTablePtr = .dirOpt ∧ (k'.entry p 2).flags ≠ 0 := by
  obtain ⟨rfl, move⟩ := served
  obtain ⟨v, out, call, reply⟩ := step_read move
  simp only [Reply.value.injEq] at reply
  obtain ⟨rfl, rfl⟩ := reply
  have call' : k.sysRead fs (2 : Nat) buf n = .done (k', a.1, a.2) := call
  rw [Kernel.sysRead_dir (by decide) table used] at call'
  obtain ⟨post, reading⟩ := Prod.mk.inj (Outcome.done.inj call')
  have entries (i : Nat) : (k.dirRead fs).1.entry k.curPid i = k.entry k.curPid i := by
    unfold Kernel.dirRead
    split <;> rfl
  refine ⟨reading.symm, ?_, fun i other => ?_, ?_, ?_⟩
  · rw [← post]
    rfl
  · rw [← post, Kernel.setFd_entry, if_neg fun both => other both.2, entries]
  · rw [← post, Kernel.setFd_entry, if_pos ⟨rfl, rfl⟩, entries]
    exact table
  · rw [← post, Kernel.setFd_entry, if_pos ⟨rfl, rfl⟩, entries]
    exact used

/-- A read of the directory is at its end, or stores the next entry. -/
theorem Lists.read {m buf : Nat} {n : Word} (lists : Lists fs p k m) (served : Serves fs p k (.read 2 buf n) a k') :
    (∀ i, i ≠ 2 → k'.entry p i = k.entry p i) ∧
      ((a.1 = 0 ∧ listed fs = List.range m) ∨
        (a = (((fs.dentryAt m).name.length : Int), (fs.dentryAt m).fileName.toList ++ [0]) ∧
          (fs.dentryAt m).name ≠ [] ∧ m < fs.numDirEntries.toNat ∧ Lists fs p k' (m + 1))) := by
  obtain ⟨answer, index, kept, table, used⟩ := reads_directory served lists.table lists.used
  obtain ⟨atEnd, inside⟩ := @dirRead_entry fs k m lists.index
  refine ⟨kept, ?_⟩
  by_cases last : m = fs.numDirEntries.toNat
  · exact Or.inl ⟨by rw [answer, atEnd last], listed_whole lists.within lists.named (Or.inl last)⟩
  · have less := Nat.lt_of_le_of_ne lists.within last
    obtain ⟨reply, next⟩ := inside less
    rw [← answer] at reply
    by_cases unnamed : (fs.dentryAt m).name = []
    · exact Or.inl ⟨by rw [reply, unnamed]; rfl, listed_whole lists.within lists.named (Or.inr unnamed)⟩
    · refine Or.inr ⟨reply, unnamed, less, lists.directory, table, used, by rw [index, next], less, fun i below => ?_⟩
      rcases Nat.lt_or_eq_of_le (Nat.le_of_lt_succ below) with before | same
      · exact lists.named i before
      · rw [same]
        exact unnamed

theorem name_short (d : Dentry) : d.name.length ≤ 32 := by
  have bound : d.name.length ≤ d.fileName.toList.length := (List.takeWhile_sublist _).length_le
  simpa using bound

/-- The name in the buffer. -/
theorem name_stored (d : Dentry) (buf : Nat → UInt8) {i : Nat} (inside : i < d.name.length) :
    storeList buf 0 (d.fileName.toList ++ [0]) i = d.name[i] := by
  have bound : d.name.length ≤ d.fileName.toList.length := (List.takeWhile_sublist _).length_le
  have front : d.name <+: d.fileName.toList := List.takeWhile_prefix _
  have within : i < (d.fileName.toList ++ [0]).length := by
    rw [List.length_append]
    omega
  have cell : storeList buf 0 (d.fileName.toList ++ [0]) (0 + i) = (d.fileName.toList ++ [0])[i] :=
    storeList_within within
  rw [Nat.zero_add] at cell
  rw [cell, List.getElem_append_left (by omega)]
  exact (front.getElem inside).symm

/-- The line that the loop has put together in the buffer. -/
theorem line_stored {d : Dentry} (buf : Nat → UInt8) :
    (List.range (d.name.length + 1)).map (Function.update (storeList buf 0 (d.fileName.toList ++ [0])) d.name.length 10) =
      d.name ++ [10] := by
  refine List.ext_getElem (by simp) fun i inside _ => ?_
  rw [List.getElem_map, List.getElem_range]
  rw [List.length_map, List.length_range] at inside
  rcases Nat.lt_or_eq_of_le (Nat.le_of_lt_succ inside) with before | last
  · rw [Function.update_of_ne (by omega), name_stored d buf before, List.getElem_append_left before]
  · subst last
    rw [Function.update_self, List.getElem_append_right (Nat.le_refl _)]
    simp

theorem At.fed {fd : Int} {buf : Nat → UInt8} {addr : Nat} (holds : At fs p calls k (reading fd buf))
    (served : Serves fs p k (.read fd addr 32) a k') :
    At fs p ((.read fd addr 32, a) :: calls) k' (take (reading fd buf) a) ∧ k'.entry p 1 = k.entry p 1 ∧
      (a.1 ≠ 0 → k.readIndex.toNat < fs.numDirEntries.toNat ∧ k'.readIndex.toNat = k.readIndex.toNat + 1) := by
  obtain ⟨rfl, m, lists, text⟩ := holds
  obtain ⟨kept, reads⟩ := lists.read served
  have still : printed ((SysCall.read 2 addr 32, a) :: calls) = listing fs (List.range m) := by
    rw [printed_cons, ← text]
    exact List.append_nil _
  refine ⟨?_, kept 1 (by decide), fun more => ?_⟩
  · rcases reads with ⟨zero, whole⟩ | ⟨reply, named, inside, next⟩
    · obtain ⟨d, found⟩ := lists.directory
      have result : lsText fs = (listing fs (listed fs), 0) := by simp only [lsText, found]
      rw [show take (reading 2 buf) a = returned 0 from if_pos zero, At, still, result, whole]
    · have positive := List.length_pos_of_ne_nil named
      have value : a.1 = (fs.dentryAt m).name.length := congrArg Prod.fst reply
      have writes : take (reading 2 buf) a = writing 2 (Function.update (storeList buf 0 a.2) a.1.toNat 10) a.1 := by
        have goesOn : ¬ a.1 = 0 := by omega
        have notFailed : ¬ a.1 = -1 := by omega
        simp only [take, goesOn, notFailed, if_false]
      rw [writes]
      refine ⟨rfl, m, next, value, ?_, still⟩
      rw [value, show a.2 = _ from congrArg Prod.snd reply, Int.toNat_natCast]
      exact line_stored buf
  · rcases reads with ⟨zero, _⟩ | ⟨_, _, inside, next⟩
    · exact absurd zero more
    · rw [lists.index, next.index]
      exact ⟨inside, rfl⟩

theorem At.wrote {fd : Int} {buf : Nat → UInt8} {cnt : Int} {addr : Nat} (here : Resident p args k) (place : addr ≠ 0)
    (holds : At fs p calls k (writing fd buf cnt))
    (served : Serves fs p k (.write 1 addr buf (BitVec.ofInt 32 (cnt + 1))) a k') :
    At fs p ((.write 1 addr buf (BitVec.ofInt 32 (cnt + 1)), a) :: calls) k' (take (writing fd buf cnt) a) ∧
      k'.entry p 1 = k.entry p 1 ∧ k'.readIndex = k.readIndex := by
  obtain ⟨rfl, m, lists, rfl, line, text⟩ := holds
  have short := name_short (fs.dentryAt m)
  have count : (BitVec.ofInt 32 ((fs.dentryAt m).name.length + 1 : Int)).toInt =
      ((fs.dentryAt m).name.length + 1 : Nat) := by
    rw [← Int.natCast_succ, BitVec.ofInt_natCast]
    exact Word.toInt_ofNat (by omega)
  obtain ⟨value, kept⟩ := here.writes place (by omega) served
  have succeeded : ¬ a.1 = -1 := by omega
  have index := served.write_readIndex
  rw [show take (writing 2 buf _) a = reading 2 buf from if_neg succeeded]
  refine ⟨⟨rfl, m + 1, lists.same (kept 2) index, ?_⟩, kept 1, index⟩
  rw [printed_cons, bytesWritten, if_pos ⟨rfl, succeeded⟩, count, Int.toNat_natCast, line, text, listing_succ]

/-- One call of `ls`: what holds behind it, and that fewer are left. -/
theorem At.served {s : Ls} {q : SysCall} (addr : Addresses)
    (directory : ∀ d, readDentryByName fs (cString dot) = some d → d.fileType = 1)
    (here : Resident p args k) (holds : At fs p calls k s) (asks : ask addr s = some q)
    (served : Serves fs p k q a k') :
    Resident p args k' ∧ At fs p ((q, a) :: calls) k' (take s a) ∧ left fs k' (take s a) < left fs k s := by
  cases s with
  | start buf =>
    cases asks
    obtain ⟨next, kept, _⟩ := holds.opened directory served
    refine ⟨here.served served kept, next, ?_⟩
    by_cases failed : a.1 = -1
    · rw [show take (start buf) a = openFailed from if_pos failed]
      simp only [left]
      omega
    · rw [show take (start buf) a = reading a.1 buf from if_neg failed]
      simp only [left]
      omega
  | openFailed =>
    cases asks
    obtain ⟨before, missing⟩ := holds
    obtain ⟨bytes, kept⟩ := here.puts addr.text_ne (stringAt_cString (by decide) (by decide)) (by decide) served
    refine ⟨here.served served (kept 1), ?_, Nat.one_pos⟩
    change (printed (_ :: calls), (2 : Int)) = lsText fs
    rw [printed_cons, bytes, before, List.nil_append, lsText, missing]
  | reading fd buf =>
    cases asks
    obtain ⟨next, kept, progress⟩ := holds.fed served
    refine ⟨here.served served kept, next, ?_⟩
    by_cases ended : a.1 = 0
    · rw [show take (reading fd buf) a = returned 0 from if_pos ended]
      simp only [left]
      omega
    · obtain ⟨inside, index⟩ := progress ended
      by_cases failed : a.1 = -1
      · have fails : take (reading fd buf) a = readFailed := by simp [take, failed]
        rw [fails]
        simp only [left]
        omega
      · have writes : take (reading fd buf) a =
            writing fd (Function.update (storeList buf 0 a.2) a.1.toNat 10) a.1 := by
          simp only [take, ended, failed, if_false]
        rw [writes]
        simp only [left]
        omega
  | readFailed => exact holds.elim
  | writing fd buf cnt =>
    cases asks
    obtain ⟨next, kept, index⟩ := holds.wrote here addr.buf_ne served
    refine ⟨here.served served kept, next, ?_⟩
    by_cases failed : a.1 = -1
    · rw [show take (writing fd buf cnt) a = returned 3 from if_pos failed]
      simp only [left]
      omega
    · rw [show take (writing fd buf cnt) a = reading fd buf from if_neg failed]
      simp only [left, index]
      omega
  | returned v => cases asks

theorem At.answered {s : Ls} (addr : Addresses) (here : Resident p args k) (holds : At fs p calls k s)
    (running : k.curPid = p) (goesOn : result s = none) : ∃ q a k', ask addr s = some q ∧ Serves fs p k q a k' := by
  subst running
  have puts (place : Nat) (buf : Nat → UInt8) (n : Word) (asks : ask addr s = some (.write 1 place buf n)) :
      ∃ q a k', ask addr s = some q ∧ Serves fs k.curPid k q a k' := by
    obtain ⟨a, k', served⟩ := here.canWrite rfl place buf n
    exact ⟨_, a, k', asks, served⟩
  cases s with
  | start buf => exact ⟨_, ((k.sysOpen fs dot).2, []), (k.sysOpen fs dot).1, rfl, rfl, rfl⟩
  | openFailed | readFailed | writing fd buf cnt => exact puts _ _ _ rfl
  | returned v => cases goesOn
  | reading fd buf =>
    obtain ⟨rfl, m, lists, _⟩ := holds
    have call : k.sysRead fs (2 : Nat) addr.buf 32 = _ := Kernel.sysRead_dir (by decide) lists.table lists.used
    exact ⟨_, (k.dirRead fs).2, _, rfl, rfl, congrArg ReadReply.outcome call⟩

theorem At.soFar {s : Ls} (holds : At fs p calls k s) : printed calls <+: (lsText fs).1 := by
  have part {m n : Nat} (lists : Lists fs p k n) (less : m ≤ n) : listing fs (List.range m) <+: (lsText fs).1 := by
    obtain ⟨d, found⟩ := lists.directory
    simp only [lsText, found]
    have within := lists.within
    exact listing_prefix (by omega) fun i below => lists.named i (by omega)
  cases s with
  | start | openFailed =>
    rw [holds.1]
    exact List.nil_prefix
  | reading fd buf =>
    obtain ⟨_, m, lists, text⟩ := holds
    rw [text]
    exact part lists (Nat.le_refl m)
  | writing fd buf cnt =>
    obtain ⟨_, m, lists, _, _, text⟩ := holds
    rw [text]
    exact part lists (Nat.le_succ m)
  | readFailed => exact holds.elim
  | returned v => rw [← show (printed calls, v) = lsText fs from holds]

end Ls

end UnixLite
