import UnixLite.Strings

namespace UnixLite

/-- A 32-bit machine word. -/
abbrev Word := BitVec 32

theorem Word.toInt_ofNat {n : Nat} (small : n < 2 ^ 31) : (BitVec.ofNat 32 n).toInt = n := by
  have same : (BitVec.ofNat 32 n).toNat = n := by
    rw [BitVec.toNat_ofNat]
    omega
  rw [BitVec.toInt_eq_toNat_of_lt (by omega), same]

/-- Only the least word has no predecessor. -/
theorem Word.toInt_pred {w : Word} (notLeast : w ≠ 0x80000000) : (w - 1).toInt = w.toInt - 1 := by
  have lower := BitVec.le_toInt w
  have upper : w.toInt < 2 ^ 31 := BitVec.toInt_lt
  have strict : w.toInt ≠ -2147483648 := by
    intro same
    exact notLeast (BitVec.eq_of_toInt_eq same)
  rw [BitVec.toInt_sub, show (1 : Word).toInt = 1 from rfl]
  exact Int.bmod_eq_of_le (by omega) (by omega)

/-- The bytes of the file-system module, from `fs_addr` on. -/
structure FsImage where
  byte : Nat → UInt8

/-- A directory entry; its reserved bytes are never read. -/
structure Dentry where
  fileName : Vector UInt8 32
  fileType : Word
  inodeNum : Word
  deriving DecidableEq

namespace FsImage

variable (fs : FsImage)

/-- The little-endian word at an offset of the image. -/
def word (off : Nat) : Word :=
  BitVec.ofNat 32 ((fs.byte off).toNat + 256 * (fs.byte (off + 1)).toNat +
    65536 * (fs.byte (off + 2)).toNat + 16777216 * (fs.byte (off + 3)).toNat)

def numDirEntries : Word := fs.word 0
def numInodes : Word := fs.word 4
def numDataBlocks : Word := fs.word 8

/-- `boot_block->dir_entries + index` -/
def dirEntry (index : Nat) : Nat := 64 + 64 * index

def dentryAt (index : Nat) : Dentry where
  fileName := Vector.ofFn fun j => fs.byte (dirEntry index + j)
  fileType := fs.word (dirEntry index + 32)
  inodeNum := fs.word (dirEntry index + 36)

/-- `(inode_t*)(fs_addr + (inode + 1) * BLOCK_SIZE)`, as an offset -/
def inodeBlock (inode : Word) : Word := (inode + 1) * 4096

def fileLength (inode : Word) : Word := fs.word (inodeBlock inode).toNat

def dataBlocks (inode index : Word) : Word := fs.word (inodeBlock inode + 4 + 4 * index).toNat

/-- `(data_block_t*)(fs_addr + (1 + num_inodes + index) * BLOCK_SIZE)`, as an offset -/
def dataBlock (index : Word) : Word := (1 + fs.numInodes + index) * 4096

def dataByte (index : Word) (j : Nat) : UInt8 := fs.byte ((fs.dataBlock index).toNat + j)

/-- Byte `p` of the data blocks of an inode, taken in their order. -/
def fileByte (inode : Word) (p : Nat) : UInt8 :=
  fs.dataByte (fs.dataBlocks inode (BitVec.ofNat 32 (p / 4096))) (p % 4096)

/-- The contents of the file behind an inode. -/
def contents (inode : Word) : List UInt8 :=
  (List.range (fs.fileLength inode).toNat).map (fs.fileByte inode)

end FsImage

def readDentryByIndex (fs : FsImage) (index : Word) : Option Dentry :=
  if index ≥ fs.numDirEntries then none else some (fs.dentryAt index.toNat)

/-- One comparison of `read_dentry_by_name`: the stored name may lack a
terminator, its length is clamped to 32 and the longer length is compared. -/
def nameMatches (fs : FsImage) (fname : Nat → UInt8) (i : Nat) : Bool :=
  let stored := fun j => fs.byte (FsImage.dirEntry i + j)
  let searchStrLen := if 32 < strlen stored then 32 else strlen stored
  let strLen := if strlen fname < searchStrLen then searchStrLen else strlen fname
  strncmp fname stored strLen == 0

/-- The loop of `read_dentry_by_name`, with `n` entries left from `i` on. -/
def searchEntries (fs : FsImage) (fname : Nat → UInt8) : Nat → Nat → Option Dentry
  | 0, _ => none
  | n + 1, i =>
    if nameMatches fs fname i then readDentryByIndex fs (BitVec.ofNat 32 i)
    else searchEntries fs fname n (i + 1)

def readDentryByName (fs : FsImage) (fname : Nat → UInt8) : Option Dentry :=
  if strlen fname > 32 ∨ strlen fname ≤ 0 then none
  else searchEntries fs fname fs.numDirEntries.toNat 0

/-- The copy loop of `read_data`, with `n` bytes of `length` left and `cur`
the cached block number. The bytes are those stored from `buf[i]` on. -/
def readLoop (fs : FsImage) (inode offset : Word) : Nat → Word → Word → List UInt8
  | 0, _, _ => []
  | n + 1, i, cur =>
    if i + offset < fs.fileLength inode then
      let cur := if (i + offset) % 4096 = 0 then fs.dataBlocks inode ((i + offset) / 4096) else cur
      fs.dataByte cur ((i + offset) % 4096).toNat :: readLoop fs inode offset n (i + 1) cur
    else []

/-- `read_data`: its result, and the bytes it stores from `buf` on. The
check `length < 0` is on an unsigned value and never taken. -/
def readData (fs : FsImage) (inode offset length : Word) : Int × List UInt8 :=
  if inode ≥ fs.numInodes then (-1, [])
  else if offset > fs.fileLength inode then (-1, [])
  else
    let cur := fs.dataBlocks inode (offset / 4096)
    let out := readLoop fs inode offset length.toNat 0 cur
    ((BitVec.ofNat 32 out.length).toInt, out)

theorem searchEntries_some {fs : FsImage} {fname : Nat → UInt8} {n i : Nat} {d : Dentry}
    (found : searchEntries fs fname n i = some d) :
    ∃ j, i ≤ j ∧ j < i + n ∧ readDentryByIndex fs (BitVec.ofNat 32 j) = some d := by
  induction n generalizing i with
  | zero => simp [searchEntries] at found
  | succ n ih =>
    unfold searchEntries at found
    split at found
    · exact ⟨i, le_refl i, by omega, found⟩
    · obtain ⟨j, lower, upper, entry⟩ := ih found
      exact ⟨j, by omega, by omega, entry⟩

theorem readDentryByIndex_some {fs : FsImage} {index : Word} {d : Dentry}
    (found : readDentryByIndex fs index = some d) :
    index < fs.numDirEntries ∧ d = fs.dentryAt index.toNat := by
  unfold readDentryByIndex at found
  split at found
  · simp at found
  · rename_i inside
    exact ⟨by simpa using inside, (Option.some.inj found).symm⟩

/-- A name resolves only to an entry of the directory. -/
theorem readDentryByName_some {fs : FsImage} {fname : Nat → UInt8} {d : Dentry}
    (found : readDentryByName fs fname = some d) :
    ∃ index, index < fs.numDirEntries ∧ d = fs.dentryAt index.toNat := by
  unfold readDentryByName at found
  split at found
  · simp at found
  · obtain ⟨j, _, _, entry⟩ := searchEntries_some found
    exact ⟨_, readDentryByIndex_some entry⟩

/-- The sum of two words that does not wrap, its remainder and its quotient
by the size of a block. -/
theorem Word.position {i offset length : Word} (inFile : i.toNat + offset.toNat ≤ length.toNat) :
    (i + offset).toNat = i.toNat + offset.toNat ∧
      ((i + offset) % 4096 : Word).toNat = (i.toNat + offset.toNat) % 4096 ∧
      ((i + offset) / 4096 : Word) = BitVec.ofNat 32 ((i.toNat + offset.toNat) / 4096) ∧
      ((i + offset) % 4096 = (0 : Word) ↔ (i.toNat + offset.toNat) % 4096 = 0) := by
  have room := length.isLt
  have sum : (i + offset).toNat = i.toNat + offset.toNat := by
    rw [BitVec.toNat_add, Nat.mod_eq_of_lt (by omega)]
  have rest : ((i + offset) % 4096 : Word).toNat = (i.toNat + offset.toNat) % 4096 := by
    rw [BitVec.toNat_umod, sum]; rfl
  refine ⟨sum, rest, ?_, ?_⟩
  · apply BitVec.eq_of_toNat_eq
    rw [BitVec.toNat_udiv, sum, BitVec.toNat_ofNat, Nat.mod_eq_of_lt (by omega)]; rfl
  · rw [← BitVec.toNat_inj, rest]; rfl

/-- Every cached block number is that of the byte copied next, so the loop
copies the file's bytes in order and stops at the end of the file. -/
theorem readLoop_eq {fs : FsImage} {inode offset i cur : Word} {n : Nat}
    (inFile : i.toNat + offset.toNat ≤ (fs.fileLength inode).toNat)
    (cached : (i.toNat + offset.toNat) % 4096 ≠ 0 →
      cur = fs.dataBlocks inode (BitVec.ofNat 32 ((i.toNat + offset.toNat) / 4096))) :
    readLoop fs inode offset n i cur =
      (List.range' (i.toNat + offset.toNat)
        (min n ((fs.fileLength inode).toNat - (i.toNat + offset.toNat)))).map
        (fs.fileByte inode) := by
  induction n generalizing i cur with
  | zero => simp [readLoop]
  | succ n ih =>
    obtain ⟨sum, rest, block, aligned⟩ := Word.position inFile
    have room := (fs.fileLength inode).isLt
    simp only [readLoop, BitVec.lt_def, sum]
    by_cases more : i.toNat + offset.toNat < (fs.fileLength inode).toNat
    · have next : (i + 1).toNat = i.toNat + 1 := by
        rw [BitVec.toNat_add]
        exact Nat.mod_eq_of_lt (by simp; omega)
      have current : (if (i + offset) % 4096 = 0 then fs.dataBlocks inode ((i + offset) / 4096) else cur) =
          fs.dataBlocks inode (BitVec.ofNat 32 ((i.toNat + offset.toNat) / 4096)) := by
        by_cases boundary : (i.toNat + offset.toNat) % 4096 = 0
        · rw [if_pos (aligned.mpr boundary), block]
        · rw [if_neg (fun zero => boundary (aligned.mp zero)), cached boundary]
      have count : min (n + 1) ((fs.fileLength inode).toNat - (i.toNat + offset.toNat)) =
          min n ((fs.fileLength inode).toNat - (i.toNat + 1 + offset.toNat)) + 1 := by omega
      rw [if_pos more, current, ih (by omega), count, List.range'_succ, List.map_cons, rest, next]
      · congr 2
        rw [show i.toNat + 1 + offset.toNat = i.toNat + offset.toNat + 1 by omega]
      · intro inside
        rw [next] at inside ⊢
        rw [show (i.toNat + 1 + offset.toNat) / 4096 = (i.toNat + offset.toNat) / 4096 by omega]
    · rw [if_neg more]
      simp [show (fs.fileLength inode).toNat - (i.toNat + offset.toNat) = 0 by omega]

/-- Inside the file `read_data` returns the slice asked for, cut at the end. -/
theorem readData_slice {fs : FsImage} {inode offset length : Word} (known : inode < fs.numInodes)
    (inFile : offset.toNat ≤ (fs.fileLength inode).toNat) :
    (readData fs inode offset length).2 =
      ((fs.contents inode).drop offset.toNat).take length.toNat := by
  have start : ¬ inode ≥ fs.numInodes := by simpa using known
  have valid : ¬ offset > fs.fileLength inode := by
    simp only [gt_iff_lt, BitVec.lt_def]; omega
  have cached : offset.toNat % 4096 ≠ 0 → fs.dataBlocks inode (offset / 4096) =
      fs.dataBlocks inode (BitVec.ofNat 32 (offset.toNat / 4096)) := by
    intro _
    congr 1
    apply BitVec.eq_of_toNat_eq
    rw [BitVec.toNat_udiv, BitVec.toNat_ofNat, Nat.mod_eq_of_lt (by have := offset.isLt; omega)]; rfl
  simp only [readData, start, valid, if_false]
  rw [readLoop_eq (by simpa using inFile) (by simpa using cached)]
  simp only [FsImage.contents, ← List.map_drop, ← List.map_take, List.range_eq_range',
    List.drop_range', show (0 : Word).toNat = 0 from rfl, Nat.zero_add, Nat.mul_one]
  by_cases short : length.toNat ≤ (fs.fileLength inode).toNat - offset.toNat
  · rw [List.take_range'_of_length_ge short, Nat.min_eq_left short]
  · rw [List.take_range'_of_length_le (by omega), Nat.min_eq_right (by omega)]

theorem readData_refused {fs : FsImage} {inode offset : Word} (length : Word)
    (outside : fs.numInodes ≤ inode ∨ fs.fileLength inode < offset) :
    readData fs inode offset length = (-1, []) := by
  unfold readData
  rcases outside with unknown | past
  · rw [if_pos unknown]
  · by_cases unknown : inode ≥ fs.numInodes
    · rw [if_pos unknown]
    · rw [if_neg unknown, if_pos past]

end UnixLite
