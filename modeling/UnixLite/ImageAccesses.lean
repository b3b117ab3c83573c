import UnixLite.Slices
import UnixLite.NameLookup

namespace UnixLite

/-- What the file-system functions touch in the image: an index into
`dir_entries`, an index into the `data_blocks` of an inode, or a byte. -/
inductive Access
  | dirEntry (index : Nat)
  | dataBlocks (index : Nat)
  | byte (off : Nat)
  deriving DecidableEq

def bytesAt (off n : Nat) : List Access := (List.range n).map fun i => .byte (off + i)

namespace FsImage

variable (fs : FsImage)

/-- The bytes that the module has by its boot block. -/
def extent : Nat := (1 + fs.numInodes.toNat + fs.numDataBlocks.toNat) * 4096

def InBounds : Access → Prop
  | .dirEntry index => index < 63
  | .dataBlocks index => index < 1023
  | .byte off => off < fs.extent

/-- A word that is read, with the accesses made for it. -/
def loadWord (off : Nat) : Word × List Access := (fs.word off, bytesAt off 4)

/-- `*(boot_block->dir_entries + index)` -/
def loadDentry (index : Nat) : Dentry × List Access :=
  (fs.dentryAt index, .dirEntry index :: bytesAt (dirEntry index) 64)

/-- `cur_inode->data_blocks[index]`, and the `num_inodes` in the address of the block. -/
def loadBlockNumber (inode index : Word) : Word × List Access :=
  (fs.dataBlocks inode index,
    .dataBlocks index.toNat :: (bytesAt (inodeBlock inode + 4 + 4 * index).toNat 4 ++ bytesAt 4 4))

/-- `cur_dblock->data[j]` -/
def loadDataByte (index : Word) (j : Nat) : UInt8 × List Access :=
  (fs.dataByte index j, [.byte ((fs.dataBlock index).toNat + j)])

/-- `strlen` on the image: it reads up to the NUL. -/
def loadStrlen (off : Nat) : Nat × List Access :=
  (strlen fun j => fs.byte (off + j), bytesAt off (strlen (fun j => fs.byte (off + j)) + 1))

end FsImage

/-- `strncmp` with its second string in the image. -/
def tracedStrncmp (fs : FsImage) (s1 : Nat → UInt8) (off : Nat) : Nat → Nat → Int × List Access
  | 0, _ => (0, [])
  | n + 1, i =>
    if s1 i ≠ fs.byte (off + i) ∨ s1 i = 0 then
      ((s1 i).toInt8.toInt - (fs.byte (off + i)).toInt8.toInt, [.byte (off + i)])
    else
      let rest := tracedStrncmp fs s1 off n (i + 1)
      (rest.1, .byte (off + i) :: rest.2)

def tracedDentryByIndex (fs : FsImage) (index : Word) : Option Dentry × List Access :=
  let num := fs.loadWord 0
  if index ≥ num.1 then (none, num.2)
  else
    let dentry := fs.loadDentry index.toNat
    (some dentry.1, num.2 ++ dentry.2)

/-- The body of the loop of `read_dentry_by_name` up to its comparison. -/
def tracedMatches (fs : FsImage) (fname : Nat → UInt8) (i : Nat) : Bool × List Access :=
  let stored := fs.loadStrlen (FsImage.dirEntry i)
  let searchStrLen := if 32 < stored.1 then 32 else stored.1
  let strLen := if strlen fname < searchStrLen then searchStrLen else strlen fname
  let order := tracedStrncmp fs fname (FsImage.dirEntry i) strLen 0
  (order.1 == 0, .dirEntry i :: (stored.2 ++ .dirEntry i :: order.2))

def tracedSearch (fs : FsImage) (fname : Nat → UInt8) : Nat → Nat → Option Dentry × List Access
  | 0, _ => (none, (fs.loadWord 0).2)
  | n + 1, i =>
    let hit := tracedMatches fs fname i
    let rest := if hit.1 then tracedDentryByIndex fs (BitVec.ofNat 32 i) else tracedSearch fs fname n (i + 1)
    (rest.1, (fs.loadWord 0).2 ++ (hit.2 ++ rest.2))

/-- `read_dentry_by_name` with its accesses. -/
def tracedDentryByName (fs : FsImage) (fname : Nat → UInt8) : Option Dentry × List Access :=
  if strlen fname > 32 ∨ strlen fname ≤ 0 then (none, [])
  else tracedSearch fs fname fs.numDirEntries.toNat 0

def tracedReadLoop (fs : FsImage) (inode offset : Word) : Nat → Word → Word → List UInt8 × List Access
  | 0, _, _ => ([], [])
  | n + 1, i, cur =>
    if i + offset < fs.fileLength inode then
      let cur := if (i + offset) % 4096 = 0 then fs.loadBlockNumber inode ((i + offset) / 4096) else (cur, [])
      let data := fs.loadDataByte cur.1 ((i + offset) % 4096).toNat
      let rest := tracedReadLoop fs inode offset n (i + 1) cur.1
      (data.1 :: rest.1, cur.2 ++ (data.2 ++ rest.2))
    else ([], [])

/-- `read_data` with its accesses. -/
def tracedReadData (fs : FsImage) (inode offset length : Word) : (Int × List UInt8) × List Access :=
  let inodes := fs.loadWord 4
  if inode ≥ inodes.1 then ((-1, []), inodes.2)
  else
    let size := fs.loadWord (FsImage.inodeBlock inode).toNat
    if offset > size.1 then ((-1, []), inodes.2 ++ size.2)
    else
      let cur := fs.loadBlockNumber inode (offset / 4096)
      let out := tracedReadLoop fs inode offset length.toNat 0 cur.1
      (((BitVec.ofNat 32 out.1.length).toInt, out.1), inodes.2 ++ (size.2 ++ (cur.2 ++ out.2)))

theorem tracedStrncmp_value (fs : FsImage) (s1 : Nat → UInt8) (off n i : Nat) :
    (tracedStrncmp fs s1 off n i).1 = strncmpFrom s1 (fun j => fs.byte (off + j)) n i := by
  induction n generalizing i with
  | zero => rfl
  | succ n ih =>
    unfold tracedStrncmp strncmpFrom
    split
    · rfl
    · exact ih (i + 1)

theorem tracedDentryByIndex_outside {fs : FsImage} {index : Word} (outside : index ≥ fs.numDirEntries) :
    tracedDentryByIndex fs index = (none, bytesAt 0 4) :=
  if_pos outside

theorem tracedDentryByIndex_inside {fs : FsImage} {index : Word} (inside : ¬ index ≥ fs.numDirEntries) :
    tracedDentryByIndex fs index = (some (fs.dentryAt index.toNat),
      bytesAt 0 4 ++ .dirEntry index.toNat :: bytesAt (FsImage.dirEntry index.toNat) 64) :=
  if_neg inside

theorem tracedDentryByIndex_value (fs : FsImage) (index : Word) :
    (tracedDentryByIndex fs index).1 = readDentryByIndex fs index := by
  by_cases outside : index ≥ fs.numDirEntries
  · rw [tracedDentryByIndex_outside outside, readDentryByIndex, if_pos outside]
  · rw [tracedDentryByIndex_inside outside, readDentryByIndex, if_neg outside]

theorem tracedMatches_value (fs : FsImage) (fname : Nat → UInt8) (i : Nat) :
    (tracedMatches fs fname i).1 = nameMatches fs fname i := by
  simp only [tracedMatches, tracedStrncmp_value]
  rfl

theorem tracedSearch_value (fs : FsImage) (fname : Nat → UInt8) (n i : Nat) :
    (tracedSearch fs fname n i).1 = searchEntries fs fname n i := by
  induction n generalizing i with
  | zero => rfl
  | succ n ih =>
    simp only [tracedSearch, searchEntries, tracedMatches_value]
    split
    · exact tracedDentryByIndex_value fs _
    · exact ih (i + 1)

/-- The traced functions compute what the functions do. -/
theorem tracedDentryByName_value (fs : FsImage) (fname : Nat → UInt8) :
    (tracedDentryByName fs fname).1 = readDentryByName fs fname := by
  unfold tracedDentryByName readDentryByName
  split
  · rfl
  · exact tracedSearch_value fs fname _ 0

theorem tracedReadLoop_value (fs : FsImage) (inode offset : Word) (n : Nat) (i cur : Word) :
    (tracedReadLoop fs inode offset n i cur).1 = readLoop fs inode offset n i cur := by
  induction n generalizing i cur with
  | zero => rfl
  | succ n ih =>
    simp only [tracedReadLoop, readLoop]
    split
    · simp only [ih, FsImage.loadDataByte, apply_ite Prod.fst, FsImage.loadBlockNumber]
    · rfl

theorem tracedReadData_unknown {fs : FsImage} {inode : Word} (unknown : inode ≥ fs.numInodes)
    (offset length : Word) : tracedReadData fs inode offset length = ((-1, []), bytesAt 4 4) :=
  if_pos unknown

theorem tracedReadData_past {fs : FsImage} {inode offset : Word} (known : ¬ inode ≥ fs.numInodes)
    (past : offset > fs.fileLength inode) (length : Word) : tracedReadData fs inode offset length =
      ((-1, []), bytesAt 4 4 ++ bytesAt (FsImage.inodeBlock inode).toNat 4) :=
  (if_neg known).trans (if_pos past)

theorem tracedReadData_inFile {fs : FsImage} {inode offset : Word} (known : ¬ inode ≥ fs.numInodes)
    (inFile : ¬ offset > fs.fileLength inode) (length : Word) : tracedReadData fs inode offset length =
      let cur := fs.loadBlockNumber inode (offset / 4096)
      let out := tracedReadLoop fs inode offset length.toNat 0 cur.1
      (((BitVec.ofNat 32 out.1.length).toInt, out.1),
        bytesAt 4 4 ++ (bytesAt (FsImage.inodeBlock inode).toNat 4 ++ (cur.2 ++ out.2))) :=
  (if_neg known).trans (if_neg inFile)

theorem tracedReadData_value (fs : FsImage) (inode offset length : Word) :
    (tracedReadData fs inode offset length).1 = readData fs inode offset length := by
  by_cases unknown : inode ≥ fs.numInodes
  · rw [tracedReadData_unknown unknown, readData, if_pos unknown]
  · by_cases past : offset > fs.fileLength inode
    · rw [tracedReadData_past unknown past, readData, if_neg unknown, if_pos past]
    · rw [tracedReadData_inFile unknown past, readData, if_neg unknown, if_neg past]
      simp only [tracedReadLoop_value]
      rfl

end UnixLite
