import UnixLite.DescriptorChecks
import UnixLite.Buffers

namespace UnixLite

open Transition

/-- The driver behind an entry does not refuse the read. -/
def OpTable.Takes (op : OpTable) (fs : FsImage) (e : Fd) (buf : Nat) (nbytes : Word) : Prop :=
  match op with
  | stdinOpt => buf ≠ 0 ∧ 0 ≤ nbytes.toInt
  | fileOpt => 0 ≤ nbytes.toInt ∧ e.inodeNum < fs.numInodes ∧ e.filePos ≤ fs.fileLength e.inodeNum
  | dirOpt | rtcOpt => True
  | stdoutOpt | nullOpt | nullPtr => False

/-- Of a regular file a read is refused for a negative count, a bad inode and
a position past the end, and for nothing else. -/
theorem fileRead_fails_iff (fs : FsImage) (e : Fd) (nbytes : Word) :
    (fileRead fs e nbytes).1 = -1 ↔ ¬ OpTable.fileOpt.Takes fs e 0 nbytes := by
  unfold OpTable.Takes
  by_cases count : nbytes.toInt < 0
  · simp [fileRead, count]
  by_cases known : e.inodeNum ≥ fs.numInodes
  · simp [fileRead, count, readData, known]
  by_cases past : e.filePos > fs.fileLength e.inodeNum
  · simp [fileRead, count, readData, known, past]
  · obtain ⟨_, small⟩ := Word.toNat_of_count (Int.not_lt.mp count)
    have short := readLoop_length_le fs e.inodeNum e.filePos nbytes.toNat 0
      (fs.dataBlocks e.inodeNum (e.filePos / 4096))
    have taken : 0 ≤ nbytes.toInt ∧ e.inodeNum < fs.numInodes ∧
        e.filePos ≤ fs.fileLength e.inodeNum :=
      ⟨Int.not_lt.mp count, by simpa using known, by simpa using past⟩
    simp only [fileRead, count, readData, known, past, if_false, taken, and_self, not_true,
      iff_false]
    generalize (readLoop fs e.inodeNum e.filePos nbytes.toNat 0
      (fs.dataBlocks e.inodeNum (e.filePos / 4096))).length = len at short ⊢
    rw [Word.toInt_ofNat (by omega)]
    omega

theorem terminalRead_fails_iff (k : Kernel) (buf : Nat) (nbytes : Word) :
    (∃ k' out, k.terminalRead buf nbytes = .done (k', -1, out)) ↔ ¬ (buf ≠ 0 ∧ 0 ≤ nbytes.toInt) := by
  unfold Kernel.terminalRead
  by_cases refused : buf = 0 ∨ nbytes.toInt < 0
  · rw [if_pos refused]
    constructor
    · exact fun _ taken => by omega
    · exact fun _ => ⟨k, [], rfl⟩
  · rw [if_neg refused]
    constructor
    · rintro ⟨k', out, run⟩
      split at run
      · simp only [Kernel.copyAndClear, Outcome.done.injEq, Prod.mk.injEq] at run
        omega
      · cases run
    · exact fun notTaken => absurd ⟨fun null => refused (Or.inl null), by omega⟩ notTaken

theorem dirRead_answers (fs : FsImage) (k : Kernel) : 0 ≤ (k.dirRead fs).2.1 := by
  unfold Kernel.dirRead
  split
  · exact Int.le_refl 0
  · exact Int.natCast_nonneg _

/-- A driver returns -1 exactly for the reads it does not take. -/
theorem OpTable.read_fails_iff {op : OpTable} (real : op ≠ .nullPtr) (fs : FsImage) (k : Kernel)
    (e : Fd) (buf : Nat) (nbytes : Word) :
    (∃ k' out, op.read fs k e buf nbytes = .done (k', -1, out)) ↔ ¬ op.Takes fs e buf nbytes := by
  cases op with
  | stdinOpt => exact terminalRead_fails_iff k buf nbytes
  | fileOpt =>
    have fails : _ ↔ ¬ OpTable.fileOpt.Takes fs e buf nbytes := fileRead_fails_iff fs e nbytes
    rw [← fails]
    constructor
    · rintro ⟨k', out, run⟩
      simp only [OpTable.read, Outcome.done.injEq, Prod.mk.injEq] at run
      rw [run.2]
    · intro value
      refine ⟨k, (fileRead fs e nbytes).2, ?_⟩
      simp only [OpTable.read]
      rw [← value]
  | dirOpt =>
    have answer := dirRead_answers fs k
    constructor
    · rintro ⟨k', out, run⟩
      simp only [OpTable.read, Outcome.done.injEq] at run
      rw [run] at answer
      cases answer
    · exact fun refused => absurd trivial refused
  | rtcOpt =>
    constructor
    · rintro ⟨k', out, run⟩
      simp only [OpTable.read, Kernel.rtcRead, Outcome.done.injEq, Prod.mk.injEq] at run
      omega
    · exact fun refused => absurd trivial refused
  | stdoutOpt | nullOpt => exact ⟨fun _ taken => taken, fun _ => ⟨k, [], rfl⟩⟩
  | nullPtr => exact absurd rfl real

/-- What the acts that follow are answered. -/
def replies (fs : FsImage) (acts : List Act) (k : Kernel) : Option (List (Act × Reply)) :=
  (performAll fs acts ([], k)).map fun r => r.1.map Event.act

/-- If the read returns -1 then the position is as before, and so is the
answer to whatever is done next. -/
def FailsStill (fs : FsImage) (k : Kernel) (fd : Nat) (buf : Nat) (nbytes : Word) : Prop :=
  ∀ k' out, k.sysRead fs fd buf nbytes = .done (k', -1, out) →
    (k'.entry k.curPid fd).filePos = (k.entry k.curPid fd).filePos ∧
      ∀ acts, replies fs acts k' = replies fs acts k

namespace Kernel

/-- On a descriptor in use a read fails when its driver does. -/
theorem sysRead_fails_iff (fs : FsImage) (k : Kernel) {fd : Nat} (buf : Nat) (nbytes : Word)
    (slot : fd < 8) (used : (k.entry k.curPid fd).flags ≠ 0)
    (real : (k.entry k.curPid fd).fileOpTablePtr ≠ .nullPtr) :
    (∃ k' out, k.sysRead fs fd buf nbytes = .done (k', -1, out)) ↔
      ¬ (k.entry k.curPid fd).fileOpTablePtr.Takes fs (k.entry k.curPid fd) buf nbytes := by
  rw [← OpTable.read_fails_iff real fs k, sysRead_used fs k buf nbytes slot used]
  cases (k.entry k.curPid fd).fileOpTablePtr.read fs k (k.entry k.curPid fd) buf nbytes with
  | done r =>
    obtain ⟨k1, v, out⟩ := r
    simp only [Outcome.done.injEq, Prod.mk.injEq]
    constructor
    · rintro ⟨_, _, _, value, _⟩
      exact ⟨k1, out, rfl, value, rfl⟩
    · rintro ⟨_, _, _, value, _⟩
      exact ⟨_, out, rfl, value, rfl⟩
  | blocks => simp
  | wild => simp

/-- A read that fails takes the position back by one. -/
theorem sysRead_moves {fs : FsImage} {k k' : Kernel} {fd buf : Nat} {nbytes : Word} {out : List UInt8}
    (slot : fd < 8) (used : (k.entry k.curPid fd).flags ≠ 0)
    (run : k.sysRead fs fd buf nbytes = .done (k', -1, out)) :
    (k'.entry k.curPid fd).filePos = (k.entry k.curPid fd).filePos - 1 := by
  rcases sysRead_done run with ⟨_, _, _, refused⟩ | ⟨_, _, _, k1, driver, rfl⟩
  · rcases refused with negative | large | unused
    · omega
    · omega
    · exact absurd unused used
  · rw [setFd_entry, if_pos ⟨rfl, rfl⟩]
    simp only [entry, (OpTable.read_kept driver).1, Int.toNat_natCast]
    rw [BitVec.sub_eq_add_neg]
    rfl

end Kernel

/-- A failed read on an open descriptor always moves its position, so only
the reads that the driver does not refuse leave everything as it was. -/
theorem failed_reads (fs : FsImage) (k : Kernel) {fd : Nat} (slot : fd < 8)
    (used : (k.entry k.curPid fd).flags ≠ 0)
    (typed : (k.entry k.curPid fd).fileOpTablePtr ∈
      [OpTable.stdinOpt, .stdoutOpt, .fileOpt, .dirOpt, .rtcOpt]) (buf : Nat) (nbytes : Word) :
    (FailsStill fs k fd buf nbytes ↔
      (k.entry k.curPid fd).fileOpTablePtr.Takes fs (k.entry k.curPid fd) buf nbytes) ∧
    ∀ k' out, k.sysRead fs fd buf nbytes = .done (k', -1, out) →
      (k'.entry k.curPid fd).filePos = (k.entry k.curPid fd).filePos - 1 := by
  have real : (k.entry k.curPid fd).fileOpTablePtr ≠ .nullPtr := by
    intro null
    rw [null] at typed
    simp at typed
  have fails := k.sysRead_fails_iff fs buf nbytes slot used real
  refine ⟨⟨fun still => ?_, fun takes k' out run => ?_⟩, fun k' out run => ?_⟩
  · by_contra refused
    obtain ⟨k', out, run⟩ := fails.mpr refused
    have moved := Kernel.sysRead_moves slot used run
    rw [(still k' out run).1] at moved
    generalize (k.entry k.curPid fd).filePos = pos at moved
    have sizes := congrArg BitVec.toNat moved
    have bound := pos.isLt
    rw [BitVec.toNat_sub] at sizes
    change pos.toNat = (2 ^ 32 - 1 + pos.toNat) % 2 ^ 32 at sizes
    omega
  · exact absurd takes (fails.mp ⟨k', out, run⟩)
  · exact Kernel.sysRead_moves slot used run

/-- Reads of the shell's file by the third shell of the sample, once for four
bytes and once for -1. -/
theorem failed_reads_sample : ∃ history k, Runs sampleImage sampleEntry history k ∧
    FailsStill sampleImage k 2 1 4 ∧ ¬ FailsStill sampleImage k 2 1 (-1) := by
  have computed : (performAll sampleImage (setUpActs ++ [.openFile shell]) ([], sampleEntry)).map
      (fun r => r.2.entry r.2.curPid 2) = some ⟨.fileOpt, 0, 0, 1⟩ := by
    decide +kernel
  obtain ⟨r, done, entry⟩ := Option.map_eq_some_iff.mp computed
  have run : Runs sampleImage sampleEntry r.1 r.2 := performAll_run .start done
  have used : (r.2.entry r.2.curPid 2).flags ≠ 0 := by
    rw [entry]
    decide
  have typed : (r.2.entry r.2.curPid 2).fileOpTablePtr ∈
      [OpTable.stdinOpt, .stdoutOpt, .fileOpt, .dirOpt, .rtcOpt] := by
    rw [entry]
    decide
  obtain ⟨four, _⟩ := failed_reads sampleImage r.2 (by omega) used typed 1 4
  obtain ⟨negative, _⟩ := failed_reads sampleImage r.2 (by omega) used typed 1 (-1)
  rw [entry] at four negative
  refine ⟨r.1, r.2, run, four.mpr ⟨by decide, by decide, by decide⟩, fun still => ?_⟩
  exact absurd (negative.mp still).1 (by decide)

/-- A read with count -1 moves the position of the shell's file. -/
theorem failed_read_moves : ¬ ∀ (fs : FsImage) (first k : Kernel) (history : List Happening),
    Runs fs first history k → live k.curPid history = true → ∀ fd buf nbytes, fd < 8 →
      (k.entry k.curPid fd).flags ≠ 0 → FailsStill fs k fd buf nbytes := by
  intro all
  have computed : (performAll sampleImage (setUpActs ++ [.openFile shell]) ([], sampleEntry)).map
      (fun r => (live r.2.curPid r.1, r.2.entry r.2.curPid 2)) = some (true, ⟨.fileOpt, 0, 0, 1⟩) := by
    decide +kernel
  obtain ⟨r, done, values⟩ := Option.map_eq_some_iff.mp computed
  obtain ⟨started, entry⟩ := Prod.mk.inj values
  have run : Runs sampleImage sampleEntry r.1 r.2 := performAll_run .start done
  have used : (r.2.entry r.2.curPid 2).flags ≠ 0 := by
    rw [entry]
    decide
  have real : (r.2.entry r.2.curPid 2).fileOpTablePtr ≠ .nullPtr := by
    rw [entry]
    decide
  have fails := r.2.sysRead_fails_iff sampleImage 1 (-1) (by omega) used real
  rw [entry] at fails
  obtain ⟨k', out, reading⟩ := fails.mpr (fun takes => absurd takes.1 (by decide))
  have still := (all _ _ _ _ run started 2 1 (-1) (by omega) used k' out reading).1
  rw [Kernel.sysRead_moves (by omega) used reading, entry] at still
  exact absurd still (by decide)

end UnixLite
