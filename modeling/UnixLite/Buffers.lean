import UnixLite.DirectoryIndex
import UnixLite.Overruns

namespace UnixLite

open Store Transition

/-- A call that was given `nbytes` bytes at `buf` returned `v` and stored `out`
there: it claims no more than it was given, and no byte behind is changed. -/
structure FitsBuffer (buf : Nat) (nbytes : Word) (v : Int) (out : List UInt8) : Prop where
  value : v ≤ nbytes.toInt
  kept : ∀ mem a, buf + nbytes.toInt.toNat ≤ a → storeList mem buf out a = mem a

instance nontrivialUInt8 : Nontrivial UInt8 := ⟨0, 1, by decide⟩

theorem fitsBuffer_iff {buf : Nat} {nbytes : Word} {v : Int} {out : List UInt8} :
    FitsBuffer buf nbytes v out ↔ v ≤ nbytes.toInt ∧ out.length ≤ nbytes.toInt.toNat := by
  rw [← storeList_beyond_iff]
  exact ⟨fun fits => ⟨fits.value, fits.kept⟩, fun parts => ⟨parts.1, parts.2⟩⟩

/-- The copy loop of `terminal_read` stays in its buffer if it meets a newline there. -/
theorem copyLine_length_le {temp : Nat → UInt8} {n idx : Nat} :
    (copyLine temp n idx).length ≤ n ↔ ∃ j, idx ≤ j ∧ j < idx + n ∧ temp j = 10 := by
  induction n generalizing idx with
  | zero =>
    simp only [copyLine, List.length_singleton]
    constructor
    · intro short
      omega
    · rintro ⟨j, lower, upper, _⟩
      omega
  | succ n ih =>
    by_cases newline : temp idx = 10
    · simp only [copyLine, newline, ne_eq, not_true_eq_false, if_false, List.length_singleton]
      exact ⟨fun _ => ⟨idx, Nat.le_refl idx, by omega, newline⟩, fun _ => by omega⟩
    · simp only [copyLine, newline, ne_eq, not_false_eq_true, if_true, List.length_cons,
        Nat.add_le_add_iff_right, ih]
      constructor
      · rintro ⟨j, lower, upper, found⟩
        exact ⟨j, by omega, by omega, found⟩
      · rintro ⟨j, lower, upper, found⟩
        have later : j ≠ idx := by
          rintro rfl
          exact newline found
        exact ⟨j, by omega, by omega, found⟩

theorem readLoop_length_le (fs : FsImage) (inode offset : Word) (n : Nat) (i cur : Word) :
    (readLoop fs inode offset n i cur).length ≤ n := by
  induction n generalizing i cur with
  | zero => simp [readLoop]
  | succ n ih =>
    unfold readLoop
    split
    · have rest := ih (i + 1)
      rw [List.length_cons]
      exact Nat.succ_le_succ (rest _)
    · simp

/-- A file read fits whatever the file, its inode and the position are. -/
theorem fileRead_fits (fs : FsImage) (e : Fd) (buf : Nat) {nbytes : Word} (count : 0 ≤ nbytes.toInt) :
    FitsBuffer buf nbytes (fileRead fs e nbytes).1 (fileRead fs e nbytes).2 := by
  obtain ⟨value, small⟩ := Word.toNat_of_count count
  have asked : ¬ nbytes.toInt < 0 := by omega
  rw [fitsBuffer_iff, fileRead, if_neg asked, readData]
  split
  · exact ⟨by omega, by simp⟩
  split
  · exact ⟨by omega, by simp⟩
  · have short := readLoop_length_le fs e.inodeNum e.filePos nbytes.toNat 0
      (fs.dataBlocks e.inodeNum (e.filePos / 4096))
    dsimp only
    generalize (readLoop fs e.inodeNum e.filePos nbytes.toNat 0
      (fs.dataBlocks e.inodeNum (e.filePos / 4096))).length = len at short ⊢
    rw [Word.toInt_ofNat (by omega)]
    omega

namespace Kernel

/-- `dir_read` fits if it has nothing to give or 33 bytes to fill. -/
theorem dirRead_fits_iff (fs : FsImage) (k : Kernel) (buf : Nat) {nbytes : Word}
    (count : 0 ≤ nbytes.toInt) : FitsBuffer buf nbytes (k.dirRead fs).2.1 (k.dirRead fs).2.2 ↔
      fs.numDirEntries ≤ k.readIndex ∨ 33 ≤ nbytes.toInt := by
  unfold dirRead readDentryByIndex
  rw [fitsBuffer_iff]
  by_cases finished : k.readIndex ≥ fs.numDirEntries
  · rw [if_pos finished]
    exact ⟨fun _ => Or.inl finished, fun _ => ⟨count, by simp⟩⟩
  · rw [if_neg finished]
    have short : (fs.dentryAt k.readIndex.toNat).fileName.toList.length = 32 := by simp
    have name := strlen_name short.le
    have bound : ((fs.dentryAt k.readIndex.toNat).fileName.toList.takeWhile (· ≠ 0)).length ≤ _ :=
      (List.takeWhile_sublist _).length_le
    simp only [List.length_append, short, List.length_singleton]
    constructor
    · rintro ⟨_, room⟩
      exact Or.inr (by omega)
    · rintro (past | room)
      · exact absurd past finished
      · exact ⟨by omega, by omega⟩

/-- The copy of `terminal_read` fits if it meets the newline in the buffer. -/
theorem copyAndClear_fits_iff (k : Kernel) (buf : Nat) (nbytes : Word) :
    FitsBuffer buf nbytes (k.copyAndClear nbytes.toInt.toNat).2.1 (k.copyAndClear nbytes.toInt.toNat).2.2 ↔
      ∃ j, j < nbytes.toInt.toNat ∧ k.keyboardBuf j = 10 := by
  have copied : (copyLine k.keyboardBuf nbytes.toInt.toNat 0).length ≤ nbytes.toInt.toNat ↔ _ := copyLine_length_le
  rw [fitsBuffer_iff, copyAndClear]
  constructor
  · rintro ⟨_, length⟩
    obtain ⟨j, _, upper, found⟩ := copied.mp length
    exact ⟨j, by omega, found⟩
  · rintro ⟨j, upper, found⟩
    have length := copied.mpr ⟨j, Nat.zero_le j, by omega, found⟩
    exact ⟨by dsimp only; omega, length⟩

end Kernel

/-- The buffer is large enough for what the driver of an entry has to give in
the state in which it gives it. -/
structure ReadFits (fs : FsImage) (k : Kernel) (op : OpTable) (buf : Nat) (nbytes : Word) : Prop where
  line : op = .stdinOpt → buf = 0 ∨ ∃ j, j < nbytes.toInt.toNat ∧ k.keyboardBuf j = 10
  name : op = .dirOpt → fs.numDirEntries ≤ k.readIndex ∨ 33 ≤ nbytes.toInt

theorem OpTable.read_fits_iff (op : OpTable) (fs : FsImage) {k k' : Kernel} {e : Fd} {buf : Nat} {nbytes : Word}
    {v : Int} {out : List UInt8} (count : 0 ≤ nbytes.toInt) (run : op.read fs k e buf nbytes = .done (k', v, out)) :
    FitsBuffer buf nbytes v out ↔ ReadFits fs k op buf nbytes := by
  have nothing (v : Int) (small : v ≤ 0) : FitsBuffer buf nbytes v [] :=
    fitsBuffer_iff.mpr ⟨by omega, by simp⟩
  have other (notLine : op ≠ .stdinOpt) (notName : op ≠ .dirOpt) : ReadFits fs k op buf nbytes :=
    ⟨fun same => absurd same notLine, fun same => absurd same notName⟩
  cases op with
  | stdinOpt =>
    have asked : ¬ nbytes.toInt < 0 := by omega
    simp only [OpTable.read, Kernel.terminalRead] at run
    by_cases null : buf = 0
    · rw [if_pos (Or.inl null)] at run
      cases run
      exact iff_of_true (nothing _ (by omega)) ⟨fun _ => Or.inl null, fun same => absurd same (by simp)⟩
    · rw [if_neg (by simp [null, asked])] at run
      split at run <;> cases run
      refine (k.copyAndClear_fits_iff buf nbytes).trans ?_
      exact ⟨fun found => ⟨fun _ => Or.inr found, fun same => absurd same (by simp)⟩,
        fun fits => (fits.line rfl).resolve_left null⟩
  | dirOpt =>
    have driver := k.dirRead_fits_iff fs buf count
    simp only [OpTable.read, Outcome.done.injEq] at run
    rw [run] at driver
    exact driver.trans ⟨fun room => ⟨fun same => absurd same (by simp), fun _ => room⟩, fun fits => fits.name rfl⟩
  | fileOpt =>
    have given := fileRead_fits fs e buf count
    simp only [OpTable.read, Outcome.done.injEq, Prod.mk.injEq] at run
    rw [run.2] at given
    exact iff_of_true given (other (by simp) (by simp))
  | rtcOpt | stdoutOpt | nullOpt =>
    cases run
    exact iff_of_true (nothing _ (by omega)) (other (by simp) (by simp))
  | nullPtr => cases run

/-- What a call of `sys_read` made in `k` gives: at once, or for a line, which
is waited for while the system goes on, in a state `k1` in which it is copied. -/
inductive ReadGives (fs : FsImage) (k : Kernel) (fd : Int) (buf : Nat) (nbytes : Word) :
    Kernel → Int → List UInt8 → Prop
  | done {k' v out} : k.sysRead fs fd buf nbytes = .done (k', v, out) → ReadGives fs k fd buf nbytes k v out
  | line {history k1} : 0 ≤ fd → fd < 8 → (k.entry k.curPid fd.toNat).flags ≠ 0 →
      (k.entry k.curPid fd.toNat).fileOpTablePtr = .stdinOpt → buf ≠ 0 → Run (Turns fs) k history k1 →
      ReadGives fs k fd buf nbytes k1 (k1.copyAndClear nbytes.toInt.toNat).2.1 (k1.copyAndClear nbytes.toInt.toNat).2.2

/-- `sys_read` fits exactly when what the driver of a descriptor in use gives does. -/
theorem ReadGives.fits_iff {fs : FsImage} {k k1 : Kernel} {fd : Int} {buf : Nat} {nbytes : Word} {v : Int}
    {out : List UInt8} (count : 0 ≤ nbytes.toInt) (gives : ReadGives fs k fd buf nbytes k1 v out) :
    FitsBuffer buf nbytes v out ↔ (0 ≤ fd → fd < 8 → (k.entry k.curPid fd.toNat).flags ≠ 0 →
      ReadFits fs k1 (k.entry k.curPid fd.toNat).fileOpTablePtr buf nbytes) := by
  cases gives with
  | done call =>
    rcases Kernel.sysRead_done call with ⟨_, rfl, rfl, refused⟩ | ⟨lower, upper, used, k2, driver, _⟩
    · refine iff_of_true (fitsBuffer_iff.mpr ⟨by omega, by simp⟩) fun lower upper used => ?_
      rcases refused with below | above | unused
      · omega
      · omega
      · exact absurd unused used
    · rw [OpTable.read_fits_iff _ fs count driver]
      exact ⟨fun fits _ _ _ => fits, fun fits => fits lower upper used⟩
  | line lower upper used stdin place _ =>
    rw [k1.copyAndClear_fits_iff buf nbytes, stdin]
    constructor
    · exact fun found _ _ _ => ⟨fun _ => Or.inr found, fun same => absurd same (by simp)⟩
    · exact fun fits => ((fits lower upper used).line rfl).resolve_left place

/-- What a call of `sys_getargs` stores lies in the buffer, and it stores
nothing when it returns -1. -/
structure GetargsFits (buf : Nat) (nbytes : Word) (reply : Int × List UInt8) : Prop where
  within : ∀ mem, Within buf nbytes.toInt.toNat mem (storeList mem buf reply.2)
  refused : reply.1 = -1 → ∀ mem, storeList mem buf reply.2 = mem

/-- `sys_getargs` fits, except that `nbytes - 1` wraps for the least `nbytes`. -/
theorem Kernel.sysGetargs_fits_iff (k : Kernel) (buf : Nat) (nbytes : Word)
    (stored : strlen k.curPcb.cmdArgs ≤ 128) :
    GetargsFits buf nbytes (k.sysGetargs nbytes) ↔
      strlen k.curPcb.cmdArgs = 0 ∨ nbytes ≠ 0x80000000 := by
  unfold sysGetargs
  generalize strlen k.curPcb.cmdArgs = len at stored ⊢
  dsimp only
  by_cases least : nbytes = 0x80000000
  · subst least
    by_cases empty : len = 0
    · rw [if_pos (Or.inl empty)]
      exact ⟨fun _ => Or.inl empty,
        fun _ => ⟨storeList_within_iff.mpr (by simp), fun _ _ => storeList_nil _ _⟩⟩
    · have wrapped : ((0x80000000 : Word) - 1).toInt = 2147483647 := by decide
      rw [if_neg (by rw [wrapped]; omega)]
      refine ⟨fun fits => ?_, fun good => by simp [empty] at good⟩
      have short := storeList_within_iff.mp fits.within
      have none : (0x80000000 : Word).toInt.toNat = 0 := by decide
      rw [none] at short
      simp at short
  · have less := Word.toInt_pred least
    refine ⟨fun _ => Or.inr least, fun _ => ?_⟩
    rw [less]
    split
    · exact ⟨storeList_within_iff.mpr (by simp), fun _ _ => storeList_nil _ _⟩
    · rename_i room
      refine ⟨storeList_within_iff.mpr ?_, fun refused => by simp at refused⟩
      simp only [List.length_append, List.length_map, List.length_range, List.length_singleton]
      omega

/-- Calls that fill a buffer stay in it exactly when it is large enough for
the line or the name that is read in the end, and `sys_getargs` is not given
the least `nbytes` while there are arguments. -/
theorem buffers_respected (fs : FsImage) (k : Kernel) (buf : Nat) (nbytes : Word) :
    (0 ≤ nbytes.toInt → ∀ fd k1 v out, ReadGives fs k fd buf nbytes k1 v out →
      (FitsBuffer buf nbytes v out ↔ (0 ≤ fd → fd < 8 → (k.entry k.curPid fd.toNat).flags ≠ 0 →
        ReadFits fs k1 (k.entry k.curPid fd.toNat).fileOpTablePtr buf nbytes))) ∧
      (strlen k.curPcb.cmdArgs ≤ 128 → (GetargsFits buf nbytes (k.sysGetargs nbytes) ↔
        strlen k.curPcb.cmdArgs = 0 ∨ nbytes ≠ 0x80000000)) :=
  ⟨fun count _ _ _ _ gives => gives.fits_iff count, k.sysGetargs_fits_iff buf nbytes⟩

/-- The third shell asks for a line of two bytes at most, and waits. The boot
ends, its terminal is shown again, and `a` is typed and finished there. -/
theorem buffers_respected_line : ∃ history k k1 v out, Runs sampleImage sampleEntry history k ∧
    k.sysRead sampleImage 0 1 2 = .blocks ∧ ReadGives sampleImage k 0 1 2 k1 v out ∧ out = [97, 10] ∧
    FitsBuffer 1 2 v out := by
  have computed : (performAll sampleImage setUpActs ([], sampleEntry)).bind (fun b =>
      (performAll sampleImage [.tick ⟨0, 0⟩ ⟨0, 0⟩, .switchTo 3, .key 0x1E, .tick ⟨0, 0⟩ ⟨0, 0⟩, .key 0x1C,
        .tick ⟨0, 0⟩ ⟨0, 0⟩] ([], b.2)).map fun r => ((b.2.entry b.2.curPid 0).fileOpTablePtr,
          (b.2.entry b.2.curPid 0).flags, b.2.doneTyping, r.2.keyboardBuf 1, (r.2.copyAndClear 2).2.2)) =
      some (.stdinOpt, 1, false, 10, [97, 10]) := by
    decide +kernel
  obtain ⟨b, booted, more⟩ := Option.bind_eq_some_iff.mp computed
  obtain ⟨r, done, values⟩ := Option.map_eq_some_iff.mp more
  simp only [Prod.mk.injEq] at values
  obtain ⟨table, flags, unfinished, newline, bytes⟩ := values
  have used : (b.2.entry b.2.curPid 0).flags ≠ 0 := by
    rw [flags]
    decide
  have waits : b.2.sysRead sampleImage (0 : Nat) 1 2 = _ := b.2.sysRead_used sampleImage 1 2 (by decide) used
  rw [table, OpTable.read, Kernel.terminalRead, if_neg (by decide), unfinished] at waits
  have gives := @ReadGives.line sampleImage _ 0 1 2 _ _ (Int.le_refl 0) (by decide) used table
    (by decide) ((performAll_run .start done).change fun _ _ step => .step step)
  have fits := ((buffers_respected sampleImage b.2 1 2).1 (by decide) 0 _ _ _ gives).mpr fun _ _ _ =>
    ⟨fun _ => Or.inr ⟨1, by decide, newline⟩, fun same => absurd (table.symm.trans same) (by decide)⟩
  exact ⟨b.1, b.2, r.2, _, _, performAll_run .start booted, waits, gives, bytes, fits⟩

/-- Enter is typed and read into a buffer of no bytes: the newline is stored behind it. -/
theorem buffers_respected_overrun : ¬ ∀ (fs : FsImage) (first k k' : Kernel) (history : List Happening)
    (fd : Int) (buf : Nat) (nbytes : Word) (v : Int) (out : List UInt8), Runs fs first history k →
    0 ≤ nbytes.toInt → k.sysRead fs fd buf nbytes = .done (k', v, out) → FitsBuffer buf nbytes v out := by
  intro always
  have computed : (performAll sampleImage (setUpActs ++ [.key 0x1C]) ([], sampleEntry)).map (fun r =>
      match r.2.sysRead sampleImage 0 1 0 with
      | .done (_, v, _) => some v
      | _ => none) = some (some 1) := by
    decide +kernel
  obtain ⟨r, done, last⟩ := Option.map_eq_some_iff.mp computed
  have run : Runs sampleImage sampleEntry r.1 r.2 := performAll_run .start done
  split at last
  · rename_i k' v out call
    cases last
    have fits := always _ _ _ _ _ _ _ _ _ _ run (by decide) call
    exact absurd fits.value (by decide)
  · cases last

end UnixLite
