import UnixLite.Tables
import UnixLite.Library.Chunks

namespace UnixLite

open Transition Chunks

/-- Every regular file has an inode, and every inode a length that its block
numbers cover. -/
structure FilesOk (fs : FsImage) : Prop where
  inode : ∀ i, i < fs.numDirEntries → (fs.dentryAt i.toNat).fileType = 2 →
    (fs.dentryAt i.toNat).inodeNum < fs.numInodes
  length : ∀ inode, inode < fs.numInodes → (fs.fileLength inode).toNat < 1023 * 4096

theorem FilesOk.found {fs : FsImage} (ok : FilesOk fs) {name : Nat → UInt8} {d : Dentry}
    (found : readDentryByName fs name = some d) (file : d.fileType = 2) :
    d.inodeNum < fs.numInodes ∧ (fs.fileLength d.inodeNum).toNat < 1023 * 4096 := by
  obtain ⟨i, inside, rfl⟩ := readDentryByName_some found
  have known := ok.inode i inside file
  exact ⟨known, ok.length _ known⟩

theorem FsImage.contents_length (fs : FsImage) (inode : Word) :
    (fs.contents inode).length = (fs.fileLength inode).toNat := by
  simp [FsImage.contents]

theorem Word.toNat_of_count {n : Word} (count : 0 ≤ n.toInt) : n.toInt = n.toNat ∧ n.toNat < 2 ^ 31 := by
  have size := n.isLt
  rw [BitVec.toInt_eq_toNat_cond] at count ⊢
  split at count
  · rename_i small
    rw [if_pos small]
    exact ⟨rfl, by omega⟩
  · omega

/-- Within the file `file_read` gives the slice asked for, and its length. -/
theorem fileRead_slice {fs : FsImage} {e : Fd} {n : Word} (known : e.inodeNum < fs.numInodes)
    (short : (fs.fileLength e.inodeNum).toNat < 1023 * 4096)
    (inFile : e.filePos.toNat ≤ (fs.fileLength e.inodeNum).toNat) (count : 0 ≤ n.toInt) :
    (fileRead fs e n).2 = ((fs.contents e.inodeNum).drop e.filePos.toNat).take n.toNat ∧
      (fileRead fs e n).1 = (fileRead fs e n).2.length := by
  have asked : ¬ n.toInt < 0 := by omega
  have slice : (fileRead fs e n).2 = ((fs.contents e.inodeNum).drop e.filePos.toNat).take n.toNat := by
    rw [fileRead, if_neg asked]
    exact readData_slice known inFile
  refine ⟨slice, ?_⟩
  have start : ¬ e.inodeNum ≥ fs.numInodes := by simpa using known
  have valid : ¬ e.filePos > fs.fileLength e.inodeNum := by
    simp only [gt_iff_lt, BitVec.lt_def]
    omega
  have size : (fileRead fs e n).2.length < 2 ^ 31 := by
    rw [slice, List.length_take, List.length_drop, FsImage.contents_length]
    omega
  simp only [fileRead, asked, readData, start, valid, if_false] at size ⊢
  generalize (readLoop fs e.inodeNum e.filePos n.toNat 0
    (fs.dataBlocks e.inodeNum (e.filePos / 4096))).length = len at size ⊢
  exact Word.toInt_ofNat size

/-- The counts and bytes of reads. -/
def pieces (reads : List (Word × Int × List UInt8)) : List (Nat × List UInt8) :=
  reads.map fun r => (r.1.toNat, r.2.2)

/-- A read on an open file descriptor always returns, with the slice at its
position and the length of that. -/
theorem Kernel.sysRead_file {fs : FsImage} {k : Kernel} {fd : Nat} {buf : Nat} {n : Word}
    (slot : fd < 8) (table : (k.entry k.curPid fd).fileOpTablePtr = .fileOpt)
    (used : (k.entry k.curPid fd).flags ≠ 0) :
    k.sysRead fs fd buf n = .done (k.setFd k.curPid fd fun e =>
      { e with filePos := e.filePos + BitVec.ofInt 32 (fileRead fs (k.entry k.curPid fd) n).1 },
      fileRead fs (k.entry k.curPid fd) n) := by
  rw [sysRead_used fs k buf n slot used, table]
  rfl

/-- Every regular file is read in order through each descriptor, as long as
no count was negative. -/
def FilesInOrder (fs : FsImage) (history : List Happening) (k : Kernel) : Prop :=
  ∀ p fd o, opened fs p fd history = some o → o.dentry.fileType = 2 →
    (∀ r ∈ o.reads, 0 ≤ r.1.toInt) →
    Served (fs.contents o.dentry.inodeNum) (pieces o.reads) ∧
      (∀ r ∈ o.reads, r.2.1 = r.2.2.length) ∧
      (k.entry p fd).filePos.toNat = (given (pieces o.reads)).length

/-- One more read: the position moves by what was given. -/
theorem served_read {fs : FsImage} {e : Fd} {n : Word} {reads : List (Word × Int × List UInt8)}
    (known : e.inodeNum < fs.numInodes) (short : (fs.fileLength e.inodeNum).toNat < 1023 * 4096)
    (served : Served (fs.contents e.inodeNum) (pieces reads))
    (position : e.filePos.toNat = (given (pieces reads)).length) (count : 0 ≤ n.toInt) :
    Served (fs.contents e.inodeNum) (pieces ((n, fileRead fs e n) :: reads)) ∧
      (fileRead fs e n).1 = (fileRead fs e n).2.length ∧
      (e.filePos + BitVec.ofInt 32 (fileRead fs e n).1).toNat =
        (given (pieces ((n, fileRead fs e n) :: reads))).length := by
  have within := served.given_length
  rw [FsImage.contents_length] at within
  obtain ⟨slice, length⟩ := fileRead_slice known short (by omega) count
  have next : Served (fs.contents e.inodeNum) (pieces ((n, fileRead fs e n) :: reads)) := by
    have more := served.read n.toNat
    rw [← position, ← slice] at more
    exact more
  refine ⟨next, length, ?_⟩
  have total := next.given_length
  simp only [pieces, List.map_cons, given_cons, List.length_append, FsImage.contents_length] at total ⊢
  simp only [pieces] at position
  rw [length, BitVec.ofInt_natCast, BitVec.toNat_add, BitVec.toNat_ofNat, position]
  omega

theorem tableOfType_file : tableOfType 2 = some .fileOpt := by decide

theorem FilesInOrder.step {fs : FsImage} (ok : FilesOk fs) {past : List Happening} {k k' : Kernel}
    {l : Act × Reply} (entries : EntriesMatch fs past k) (held : FilesInOrder fs past k)
    (move : Step fs k l k') : FilesInOrder fs (⟨k, l, k'⟩ :: past) k' := by
  intro p fd o known file counts
  have table : tableOfType o.dentry.fileType = some .fileOpt := by
    rw [file]
    exact tableOfType_file
  cases step_open move known with
  | opens own _ found fresh result post =>
    simp only at own result post
    subst own fresh
    obtain ⟨_, _, _, entry⟩ := opened_moved found result
    rw [post, entry _ table]
    exact ⟨.start, by simp, rfl⟩
  | @reads buf nbytes v out before own _ was more call =>
    simp only at own call
    subst own more
    have count := counts _ (List.mem_cons_self ..)
    obtain ⟨served, lengths, position⟩ := held _ fd before was file
      (fun r member => counts r (List.mem_cons_of_mem _ member))
    obtain ⟨_, slot, agrees⟩ := entries _ fd before was
    obtain ⟨isFile, inode, flags⟩ := agrees _ table
    have used : (k.entry k.curPid fd).flags ≠ 0 := by
      rw [flags]
      decide
    rw [Kernel.sysRead_file slot isFile used] at call
    obtain ⟨post, value⟩ := Prod.mk.inj (Outcome.done.inj call)
    obtain ⟨_, found⟩ := opened_dentry was
    obtain ⟨exists_inode, short⟩ := ok.found found file
    rw [← inode] at exists_inode short served
    obtain ⟨more, length, moved⟩ := served_read exists_inode short served position count
    simp only at file ⊢
    rw [← post, k.setFd_entry, if_pos ⟨rfl, rfl⟩, ← inode, ← value]
    refine ⟨more, ?_, moved⟩
    intro r member
    rcases List.mem_cons.mp member with rfl | old
    · exact length
    · exact lengths r old
  | other was kept =>
    rw [kept]
    exact held p fd o was file counts

theorem filesInOrder {fs : FsImage} (ok : FilesOk fs) {first k : Kernel} {history : List Happening}
    (run : Runs fs first history k) : FilesInOrder fs history k :=
  run.history_invariant (FilesInOrder fs) (fun _ _ _ known => by cases known)
    (fun _ _ _ _ reach held move => held.step ok (entries_match reach) move)

/-- A descriptor of a regular file after the reads made on it. -/
structure ReadInOrder (fs : FsImage) (k : Kernel) (p : Int) (fd : Nat) (o : Opened) : Prop where
  inOrder : given (pieces o.reads) =
    (fs.contents o.dentry.inodeNum).take (given (pieces o.reads)).length
  position : (k.entry p fd).filePos.toNat = (given (pieces o.reads)).length
  each : ∀ later n v out earlier, o.reads = later ++ (n, v, out) :: earlier → v = out.length ∧
    out.length =
      min n.toNat ((fs.contents o.dentry.inodeNum).length - (given (pieces earlier)).length)
  finished : ∀ later n v out earlier, o.reads = later ++ (n, v, out) :: earlier →
    (given (pieces earlier)).length = (fs.contents o.dentry.inodeNum).length → v = 0
  returns : k.curPid = p → ∀ buf n, 0 ≤ n.toInt → ∃ k' out, out =
      ((fs.contents o.dentry.inodeNum).drop (given (pieces o.reads)).length).take n.toNat ∧
    k.sysRead fs fd buf n = .done (k', out.length, out)

/-- Whatever else happens, a regular file is read in order through a descriptor
that `sys_open` returned, into buffers apart from the kernel's data. -/
theorem file_reads {fs : FsImage} (ok : FilesOk fs) {first k : Kernel} {history : List Happening}
    (run : Runs fs first history k) {p : Int} {fd : Nat} {o : Opened}
    (known : opened fs p fd history = some o) (file : o.dentry.fileType = 2)
    (counts : ∀ r ∈ o.reads, 0 ≤ r.1.toInt) : ReadInOrder fs k p fd o := by
  obtain ⟨served, lengths, position⟩ := filesInOrder ok run p fd o known file counts
  have each (later : List (Word × Int × List UInt8)) (n : Word) (v : Int) (out : List UInt8)
      (earlier : List (Word × Int × List UInt8)) (split : o.reads = later ++ (n, v, out) :: earlier) :
      v = out.length ∧ out.length =
        min n.toNat ((fs.contents o.dentry.inodeNum).length - (given (pieces earlier)).length) := by
    have member : (n, v, out) ∈ o.reads := by
      rw [split]
      simp
    have shape : pieces o.reads = pieces later ++ (n.toNat, out) :: pieces earlier := by
      rw [split]
      simp [pieces]
    exact ⟨lengths _ member, served.piece shape⟩
  refine ⟨served.given_take, position, each, ?_, ?_⟩
  · intro later n v out earlier split atEnd
    obtain ⟨value, length⟩ := each later n v out earlier split
    omega
  · rintro rfl buf n count
    obtain ⟨_, slot, agrees⟩ := entries_match run _ fd o known
    obtain ⟨isFile, inode, flags⟩ := agrees .fileOpt (by rw [file]; exact tableOfType_file)
    have used : (k.entry k.curPid fd).flags ≠ 0 := by
      rw [flags]
      decide
    obtain ⟨_, found⟩ := opened_dentry known
    obtain ⟨exists_inode, short⟩ := ok.found found file
    have within := served.given_length
    rw [FsImage.contents_length] at within
    rw [← inode] at exists_inode short within ⊢
    obtain ⟨slice, length⟩ := fileRead_slice exists_inode short (by omega) count
    have reply : k.sysRead fs fd buf n = _ := Kernel.sysRead_file slot isFile used
    generalize fileRead fs (k.entry k.curPid fd) n = reading at slice length reply
    obtain ⟨v, out⟩ := reading
    simp only at slice length
    subst length
    exact ⟨_, out, by rw [slice, position], reply⟩

theorem sampleImage_files : FilesOk sampleImage := by
  have entries : sampleImage.numDirEntries.toNat = 3 := by decide
  have inodes : sampleImage.numInodes.toNat = 1 := by decide
  constructor
  · intro i inside file
    rw [BitVec.lt_def, entries] at inside
    obtain dot | name | rtc : i.toNat = 0 ∨ i.toNat = 1 ∨ i.toNat = 2 := by omega
    · rw [dot] at file
      exact absurd file (by decide)
    · rw [name]
      decide
    · rw [rtc] at file
      exact absurd file (by decide)
  · intro inode known
    rw [BitVec.lt_def, inodes] at known
    have only : inode = 0 := BitVec.eq_of_toNat_eq (by simp; omega)
    rw [only]
    decide

/-- The 28 bytes of the shell are read by the third shell in pieces of 20
bytes, with a directory read in between. -/
def readingActs : List Act :=
  setUpActs ++ [.openFile shell, .openFile [46], .read 2 1 20, .read 3 1 33, .read 2 1 20]

theorem file_reads_sample : ∃ history k o, opened sampleImage 2 2 history = some o ∧
    o.reads.map (fun r => r.2.1) = [8, 20] ∧ ReadInOrder sampleImage k 2 2 o := by
  have computed : (performAll sampleImage readingActs ([], sampleEntry)).map (fun r =>
      (opened sampleImage 2 2 r.1).map fun o => (decide (o.dentry.fileType = 2),
        o.reads.all (fun r => decide (0 ≤ r.1.toInt)), o.reads.map fun r => r.2.1)) =
      some (some (true, true, [8, 20])) := by
    decide +kernel
  obtain ⟨r, done, values⟩ := Option.map_eq_some_iff.mp computed
  obtain ⟨o, known, parts⟩ := Option.map_eq_some_iff.mp values
  obtain ⟨file, rest⟩ := Prod.mk.inj parts
  obtain ⟨counts, results⟩ := Prod.mk.inj rest
  have run : Runs sampleImage sampleEntry r.1 r.2 := performAll_run .start done
  have nonneg (read : Word × Int × List UInt8) (member : read ∈ o.reads) : 0 ≤ read.1.toInt :=
    of_decide_eq_true (List.all_eq_true.mp counts read member)
  exact ⟨r.1, r.2, o, known, results,
    file_reads sampleImage_files run known (of_decide_eq_true file) nonneg⟩

end UnixLite
