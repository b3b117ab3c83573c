import UnixLite.FileReads

namespace UnixLite

open Store

namespace FsImage

variable (fs : FsImage)

/-- The data block that entry `j` of the inode names. -/
def blockBytes (inode : Word) (j : Nat) : List UInt8 :=
  (List.range 4096).map (fs.dataByte (fs.dataBlocks inode (BitVec.ofNat 32 j)))

/-- The data blocks of an inode one after the other, in its order. -/
def allBlocks (inode : Word) : List UInt8 := (List.range 1023).flatMap (fs.blockBytes inode)

theorem allBlocks_eq (inode : Word) :
    fs.allBlocks inode = (List.range (1023 * 4096)).map (fs.fileByte inode) :=
  Chunks.flatMap_blocks 4096 1023 fun j => fs.dataByte (fs.dataBlocks inode (BitVec.ofNat 32 j))

/-- A file is what its length takes of its blocks. -/
theorem contents_eq_take (inode : Word) (short : (fs.fileLength inode).toNat ≤ 1023 * 4096) :
    fs.contents inode = (fs.allBlocks inode).take (fs.fileLength inode).toNat := by
  rw [allBlocks_eq, contents, ← List.map_take, List.take_range, Nat.min_eq_left short]

/-- How many bytes of a slice the file has. -/
def sliceLength (inode offset length : Word) : Nat :=
  min length.toNat ((fs.fileLength inode).toNat - offset.toNat)

end FsImage

/-- `read_data` with the memory that `buf` points into. -/
def readDataTo (fs : FsImage) (mem : Nat → UInt8) (inode offset : Word) (buf : Nat) (length : Word) :
    Int × (Nat → UInt8) :=
  ((readData fs inode offset length).1, storeList mem buf (readData fs inode offset length).2)

theorem readData_length {fs : FsImage} {inode offset : Word} (length : Word) (known : inode < fs.numInodes)
    (inFile : offset ≤ fs.fileLength inode) :
    (readData fs inode offset length).2.length = fs.sliceLength inode offset length := by
  rw [readData_slice known inFile, List.length_take, List.length_drop, FsImage.contents_length]
  rfl

theorem readData_count {fs : FsImage} {inode offset : Word} (length : Word) (known : inode < fs.numInodes)
    (short : (fs.fileLength inode).toNat < 1023 * 4096) (inFile : offset ≤ fs.fileLength inode) :
    (readData fs inode offset length).1 = fs.sliceLength inode offset length := by
  have stored := readData_length length known inFile
  have start : ¬ inode ≥ fs.numInodes := by simpa using known
  have valid : ¬ offset > fs.fileLength inode := by simpa using inFile
  have small : fs.sliceLength inode offset length < 2 ^ 31 := by
    unfold FsImage.sliceLength
    omega
  simp only [readData, start, valid, if_false] at stored ⊢
  rw [stored, Word.toInt_ofNat small]

/-- A byte read is the one at its place in the blocks. -/
theorem readData_byte {fs : FsImage} {inode offset length : Word} (known : inode < fs.numInodes)
    (short : (fs.fileLength inode).toNat < 1023 * 4096) (inFile : offset ≤ fs.fileLength inode) {i : Nat}
    (inside : i < fs.sliceLength inode offset length) :
    (readData fs inode offset length).2[i]? = (fs.allBlocks inode)[offset.toNat + i]? := by
  have bounds : i < length.toNat ∧ i < (fs.fileLength inode).toNat - offset.toNat := by
    unfold FsImage.sliceLength at inside
    omega
  rw [readData_slice known inFile, FsImage.contents_eq_take fs inode short.le, List.getElem?_take,
    if_pos bounds.1, List.getElem?_drop, List.getElem?_take, if_pos (by omega)]

/-- `read_data` refuses what lies outside of the inodes or of the file and
stores nothing; else it stores the bytes of the slice that the file has, one
after the other, and nothing around them. -/
theorem read_data_exact {fs : FsImage}
    (short : ∀ inode, inode < fs.numInodes → (fs.fileLength inode).toNat < 1023 * 4096)
    (mem : Nat → UInt8) (inode offset : Word) (buf : Nat) (length : Word) :
    (readDataTo fs mem inode offset buf length = (-1, mem) ↔
        fs.numInodes ≤ inode ∨ fs.fileLength inode < offset) ∧
      (inode < fs.numInodes → offset ≤ fs.fileLength inode →
        (readDataTo fs mem inode offset buf length).1 = fs.sliceLength inode offset length ∧
        (∀ i, i < fs.sliceLength inode offset length → (fs.allBlocks inode)[offset.toNat + i]? =
          some ((readDataTo fs mem inode offset buf length).2 (buf + i))) ∧
        ∀ a, a < buf ∨ buf + fs.sliceLength inode offset length ≤ a →
          (readDataTo fs mem inode offset buf length).2 a = mem a) := by
  constructor
  · constructor
    · intro refused
      by_contra inRange
      rw [not_or, BitVec.not_le, BitVec.not_lt] at inRange
      have count := readData_count length inRange.1 (short inode inRange.1) inRange.2
      have failed : (readData fs inode offset length).1 = -1 := congrArg Prod.fst refused
      omega
    · intro outside
      simp only [readDataTo, readData_refused length outside, storeList_nil]
  · intro known inFile
    have stored := readData_length length known inFile
    refine ⟨readData_count length known (short inode known) inFile, ?_, ?_⟩
    · intro i inside
      have within : i < (readData fs inode offset length).2.length := by omega
      rw [← readData_byte known (short inode known) inFile inside]
      simp only [readDataTo, storeList_within within, List.getElem?_eq_getElem within]
    · rintro a (before | after)
      · exact storeList_before before
      · exact storeList_after (by omega)

theorem sampleImage_short (inode : Word) (known : inode < sampleImage.numInodes) :
    (sampleImage.fileLength inode).toNat < 1023 * 4096 := by
  have inodes : sampleImage.numInodes = 1 := by decide
  have only : inode = 0 := by
    rw [inodes] at known
    bv_omega
  rw [only]
  decide

theorem read_data_exact_sample :
    (readDataTo sampleImage (fun _ => 0) 0 1 0 200).1 = 27 ∧
      (readDataTo sampleImage (fun _ => 0) 0 1 0 200).2 0 = 0x45 ∧
      readDataTo sampleImage (fun _ => 0) 1 0 0 200 = (-1, fun _ => 0) := by
  obtain ⟨_, slice⟩ := read_data_exact sampleImage_short (fun _ => 0) 0 1 0 200
  obtain ⟨count, bytes, _⟩ := slice (by decide) (by decide)
  refine ⟨count.trans (by decide), ?_, ?_⟩
  · have byte := bytes 0 (by decide)
    have second : (sampleImage.allBlocks 0)[(1 : Word).toNat + 0]? = some 0x45 := by
      rw [FsImage.allBlocks_eq, List.getElem?_map, List.getElem?_range (by decide)]
      decide
    rw [second] at byte
    exact (Option.some.inj byte).symm
  · exact (read_data_exact sampleImage_short (fun _ => 0) 1 0 0 200).1.mpr (Or.inl (by decide))

end UnixLite
