import UnixLite.ImageAccesses

namespace UnixLite

namespace FsImage

variable (fs : FsImage)

/-- Every access stays inside the arrays and the image. -/
def Inside (accesses : List Access) : Prop := ∀ a ∈ accesses, fs.InBounds a

/-- The name of entry `i`, read to its NUL, is inside the image, and the entry
inside the table. -/
def EntryInside (i : Nat) : Prop :=
  i < 63 ∧ dirEntry i + strlen (fun j => fs.byte (dirEntry i + j)) < fs.extent

/-- Byte `p` of a file has a block number, and its block is inside the image. -/
def BlockInside (inode : Word) (p : Nat) : Prop :=
  p < 1023 * 4096 ∧ (fs.dataBlock (fs.dataBlocks inode (BitVec.ofNat 32 (p / 4096)))).toNat < fs.extent

variable {fs}

theorem inside_append {l m : List Access} : fs.Inside (l ++ m) ↔ fs.Inside l ∧ fs.Inside m :=
  List.forall_mem_append

theorem inside_cons {a : Access} {l : List Access} : fs.Inside (a :: l) ↔ fs.InBounds a ∧ fs.Inside l :=
  List.forall_mem_cons

theorem inside_nil : fs.Inside [] := by
  intro a member
  cases member

theorem inside_bytesAt {off n : Nat} : fs.Inside (bytesAt off (n + 1)) ↔ off + n < fs.extent := by
  constructor
  · intro all
    exact all (.byte (off + n)) (List.mem_map.mpr ⟨n, List.mem_range.mpr (by omega), rfl⟩)
  · intro last a member
    obtain ⟨i, inRange, rfl⟩ := List.mem_map.mp member
    have small := List.mem_range.mp inRange
    change off + i < fs.extent
    omega

theorem extent_boot : 4096 ≤ fs.extent := by
  unfold extent
  omega

theorem boot_inside {off : Nat} (inBlock : off + 4 ≤ 4096) : fs.Inside (bytesAt off 4) := by
  have boot := fs.extent_boot
  rw [inside_bytesAt]
  omega

theorem inodeBlock_toNat (inode : Word) :
    (inodeBlock inode).toNat = (inode.toNat + 1) % 2 ^ 32 * 4096 % 2 ^ 32 := by
  simp [inodeBlock, BitVec.toNat_mul, BitVec.toNat_add]

/-- The block of an inode of the image is inside the image. -/
theorem inodeBlock_inside {inode : Word} (known : inode < fs.numInodes) :
    (inodeBlock inode).toNat + 4096 ≤ fs.extent ∧ (inodeBlock inode).toNat + 4096 ≤ 2 ^ 32 := by
  rw [BitVec.lt_def] at known
  rw [inodeBlock_toNat]
  unfold extent
  omega

theorem dataBlock_aligned (index : Word) : (fs.dataBlock index).toNat % 4096 = 0 := by
  simp only [dataBlock, BitVec.toNat_mul]
  change (_ * 4096 % 4294967296) % 4096 = 0
  omega

theorem dataByte_inside {index : Word} {j : Nat} (inBlock : j < 4096) :
    fs.Inside (fs.loadDataByte index j).2 ↔ (fs.dataBlock index).toNat < fs.extent := by
  have aligned := fs.dataBlock_aligned index
  have single : fs.Inside (fs.loadDataByte index j).2 ↔ (fs.dataBlock index).toNat + j < fs.extent :=
    List.forall_mem_singleton
  rw [single]
  unfold extent
  omega

theorem loadBlockNumber_inside {inode index : Word} (known : inode < fs.numInodes) :
    fs.Inside (fs.loadBlockNumber inode index).2 ↔ index.toNat < 1023 := by
  obtain ⟨inImage, noWrap⟩ := inodeBlock_inside known
  simp only [loadBlockNumber, inside_cons, inside_append]
  constructor
  · exact fun all => all.1
  · intro small
    refine ⟨small, ?_, boot_inside (by omega)⟩
    have four : (4 : Word).toNat = 4 := rfl
    have address : (inodeBlock inode + 4 + 4 * index).toNat =
        (inodeBlock inode).toNat + 4 + 4 * index.toNat := by
      rw [BitVec.toNat_add, BitVec.toNat_add, BitVec.toNat_mul, four]
      omega
    rw [inside_bytesAt, address]
    omega

end FsImage

open FsImage

theorem tracedDentryByIndex_inBounds (fs : FsImage) (index : Word) :
    fs.Inside (tracedDentryByIndex fs index).2 ↔ fs.numDirEntries ≤ index ∨ index.toNat < 63 := by
  have boot := fs.extent_boot
  by_cases outside : index ≥ fs.numDirEntries
  · rw [tracedDentryByIndex_outside outside]
    exact ⟨fun _ => Or.inl outside, fun _ => boot_inside (by omega)⟩
  · rw [tracedDentryByIndex_inside outside, inside_append, inside_cons, inside_bytesAt, inside_bytesAt]
    constructor
    · exact fun all => Or.inr all.2.1
    · intro valid
      have small := valid.resolve_left outside
      refine ⟨by omega, small, ?_⟩
      unfold dirEntry
      omega

theorem tracedStrncmp_inside {fs : FsImage} {s1 : Nat → UInt8} {off n i : Nat}
    (room : off + i + n ≤ fs.extent) : fs.Inside (tracedStrncmp fs s1 off n i).2 := by
  induction n generalizing i with
  | zero => exact inside_nil
  | succ n ih =>
    have here : fs.InBounds (.byte (off + i)) := by
      change off + i < fs.extent
      omega
    unfold tracedStrncmp
    split
    · exact inside_cons.mpr ⟨here, inside_nil⟩
    · exact inside_cons.mpr ⟨here, ih (by omega)⟩

/-- The length of the name of an entry, and the bytes read for it. -/
theorem FsImage.loadStrlen_entry (fs : FsImage) (i : Nat) :
    (if 32 < (fs.loadStrlen (dirEntry i)).1 then 32 else (fs.loadStrlen (dirEntry i)).1) =
        (fs.entryName i).length ∧
      (fs.Inside (fs.loadStrlen (dirEntry i)).2 ↔
        dirEntry i + strlen (fun j => fs.byte (dirEntry i + j)) < fs.extent) :=
  ⟨fs.clamped_strlen i, inside_bytesAt⟩

theorem tracedMatches_inside {fs : FsImage} {fname : Nat → UInt8} (short : strlen fname ≤ 32) (i : Nat) :
    fs.Inside (tracedMatches fs fname i).2 ↔ fs.EntryInside i := by
  have boot := fs.extent_boot
  have bound := fs.entryName_length i
  obtain ⟨length, stored⟩ := fs.loadStrlen_entry i
  simp only [tracedMatches, inside_cons, inside_append, length, stored]
  constructor
  · exact fun all => ⟨all.1, all.2.1⟩
  · rintro ⟨inTable, inImage⟩
    refine ⟨inTable, inImage, inTable, tracedStrncmp_inside ?_⟩
    unfold dirEntry
    split <;> omega

theorem tracedSearch_inside {fs : FsImage} {fname : Nat → UInt8} (short : strlen fname ≤ 32) (n i : Nat) :
    fs.Inside (tracedSearch fs fname n i).2 ↔ ∀ j, i ≤ j → j < i + n →
      (∀ l, i ≤ l → l < j → nameMatches fs fname l = false) → fs.EntryInside j := by
  induction n generalizing i with
  | zero =>
    constructor
    · intro _ j lower upper
      omega
    · exact fun _ => boot_inside (by omega)
  | succ n ih =>
    have first : fs.Inside (fs.loadWord 0).2 := boot_inside (by omega)
    simp only [tracedSearch, inside_append, first, true_and, tracedMatches_inside short, tracedMatches_value]
    cases hit : nameMatches fs fname i with
    | true =>
      simp only [if_true, tracedDentryByIndex_inBounds]
      constructor
      · rintro ⟨here, _⟩ j lower _ before
        by_cases same : j = i
        · rw [same]
          exact here
        · have missed := before i (by omega) (by omega)
          rw [hit] at missed
          cases missed
      · intro all
        have here := all i (by omega) (by omega) (fun l lower upper => by omega)
        refine ⟨here, Or.inr ?_⟩
        have inTable := here.1
        rw [BitVec.toNat_ofNat]
        omega
    | false =>
      simp only [Bool.false_eq_true, if_false, ih]
      constructor
      · rintro ⟨here, later⟩ j lower upper before
        by_cases same : j = i
        · rw [same]
          exact here
        · exact later j (by omega) (by omega) fun l after below => before l (by omega) below
      · intro all
        refine ⟨all i (by omega) (by omega) (fun l lower upper => by omega), ?_⟩
        intro j lower upper before
        refine all j (by omega) (by omega) fun l after below => ?_
        by_cases same : l = i
        · rw [same]
          exact hit
        · exact before l (by omega) below

theorem tracedDentryByName_inside (fs : FsImage) (fname : Nat → UInt8) :
    fs.Inside (tracedDentryByName fs fname).2 ↔ (1 ≤ strlen fname → strlen fname ≤ 32 →
      ∀ i, i < fs.numDirEntries.toNat → (∀ j, j < i → fs.entryName j ≠ stringAt fname) →
        fs.EntryInside i) := by
  unfold tracedDentryByName
  by_cases bad : strlen fname > 32 ∨ strlen fname ≤ 0
  · rw [if_pos bad]
    exact ⟨fun _ lower upper => by omega, fun _ => inside_nil⟩
  · have differs (j : Nat) : nameMatches fs fname j = false ↔ fs.entryName j ≠ stringAt fname := by
      rw [← Bool.not_eq_true, nameMatches_stringAt fs (by omega)]
    rw [if_neg bad, tracedSearch_inside (by omega)]
    constructor
    · intro all _ _ i inside before
      exact all i (by omega) (by omega) fun l _ below => (differs l).mpr (before l below)
    · intro all i _ inside before
      exact all (by omega) (by omega) i (by omega) fun j below =>
        (differs j).mp (before j (by omega) below)

/-- A range splits at its first number. -/
theorem forall_range_succ {P : Nat → Prop} {p m : Nat} :
    (∀ q, p ≤ q → q < p + (m + 1) → P q) ↔ P p ∧ ∀ q, p + 1 ≤ q → q < p + 1 + m → P q := by
  constructor
  · intro all
    exact ⟨all p le_rfl (by omega), fun q lower upper => all q (by omega) (by omega)⟩
  · rintro ⟨here, after⟩ q lower upper
    by_cases same : q = p
    · rw [same]
      exact here
    · exact after q (by omega) (by omega)

/-- The number of the block of byte `p`, read at the start of a block and kept inside one. -/
theorem blockNumber_inside {fs : FsImage} {inode place cur : Word} {p : Nat} (known : inode < fs.numInodes)
    (numbered : p < 1023 * 4096) (aligned : place % 4096 = 0 ↔ p % 4096 = 0)
    (block : place / 4096 = BitVec.ofNat 32 (p / 4096))
    (cached : p % 4096 ≠ 0 → cur = fs.dataBlocks inode (BitVec.ofNat 32 (p / 4096))) :
    (if place % 4096 = 0 then fs.loadBlockNumber inode (place / 4096) else (cur, [])).1 =
        fs.dataBlocks inode (BitVec.ofNat 32 (p / 4096)) ∧
      fs.Inside (if place % 4096 = 0 then fs.loadBlockNumber inode (place / 4096) else (cur, [])).2 := by
  by_cases boundary : p % 4096 = 0
  · rw [if_pos (aligned.mpr boundary), loadBlockNumber_inside known, block, BitVec.toNat_ofNat]
    exact ⟨rfl, by omega⟩
  · rw [if_neg (fun zero => boundary (aligned.mp zero))]
    exact ⟨cached boundary, inside_nil⟩

/-- The loop of `read_data` at byte `p` of the file. The cached block number
is that of the block of `p`, and was read inside the array. -/
theorem tracedReadLoop_inside {fs : FsImage} {inode offset i cur : Word} {n : Nat}
    (known : inode < fs.numInodes) (inFile : i.toNat + offset.toNat ≤ (fs.fileLength inode).toNat)
    (cached : (i.toNat + offset.toNat) % 4096 ≠ 0 → i.toNat + offset.toNat < 1023 * 4096 ∧
      cur = fs.dataBlocks inode (BitVec.ofNat 32 ((i.toNat + offset.toNat) / 4096))) :
    fs.Inside (tracedReadLoop fs inode offset n i cur).2 ↔
      ∀ p, i.toNat + offset.toNat ≤ p → p < i.toNat + offset.toNat +
        min n ((fs.fileLength inode).toNat - (i.toNat + offset.toNat)) → fs.BlockInside inode p := by
  induction n generalizing i cur with
  | zero =>
    constructor
    · intro _ p lower upper
      omega
    · exact fun _ => inside_nil
  | succ n ih =>
    obtain ⟨sum, rest, block, aligned⟩ := Word.position inFile
    have room := (fs.fileLength inode).isLt
    have next : i.toNat + offset.toNat < (fs.fileLength inode).toNat → (i + 1).toNat = i.toNat + 1 := by
      intro more
      rw [BitVec.toNat_add]
      exact Nat.mod_eq_of_lt (by simp; omega)
    simp only [tracedReadLoop, BitVec.lt_def, sum]
    generalize at_p : i.toNat + offset.toNat = p at *
    by_cases more : p < (fs.fileLength inode).toNat
    · have data (index : Word) : fs.Inside (fs.loadDataByte index ((i + offset) % 4096).toNat).2 ↔
          (fs.dataBlock index).toNat < fs.extent := dataByte_inside (by omega)
      have later : (i + 1).toNat + offset.toNat = p + 1 := by
        rw [next more]
        omega
      have count : min (n + 1) ((fs.fileLength inode).toNat - p) =
          min n ((fs.fileLength inode).toNat - (p + 1)) + 1 := by omega
      rw [if_pos more, count, forall_range_succ]
      simp only [inside_append, data]
      by_cases numbered : p < 1023 * 4096
      · obtain ⟨current, loaded⟩ := blockNumber_inside known numbered aligned block
          fun unaligned => (cached unaligned).2
        rw [current, ih (by omega) (fun unaligned => ⟨by omega, by
          rw [later, show (p + 1) / 4096 = p / 4096 by omega]⟩), later]
        constructor
        · rintro ⟨_, here, after⟩
          exact ⟨⟨numbered, here⟩, after⟩
        · rintro ⟨⟨_, here⟩, after⟩
          exact ⟨loaded, here, after⟩
      · -- the block number behind the last one is read
        have boundary : p % 4096 = 0 := by
          by_contra unaligned
          exact numbered (cached unaligned).1
        rw [if_pos (aligned.mpr boundary), loadBlockNumber_inside known, block, BitVec.toNat_ofNat]
        constructor
        · rintro ⟨small, _⟩
          omega
        · rintro ⟨⟨inArray, _⟩, _⟩
          exact absurd inArray numbered
    · rw [if_neg more]
      constructor
      · intro _ q lower upper
        omega
      · exact fun _ => inside_nil

/-- What a read of a slice needs: it is refused, or its offset has a block
number and the blocks of the bytes read are in place. -/
def SliceInside (fs : FsImage) (inode offset length : Word) : Prop :=
  fs.numInodes ≤ inode ∨ fs.fileLength inode < offset ∨ (offset.toNat < 1023 * 4096 ∧
    ∀ p, offset.toNat ≤ p → p < offset.toNat + fs.sliceLength inode offset length → fs.BlockInside inode p)

theorem tracedReadData_inBounds (fs : FsImage) (inode offset length : Word) :
    fs.Inside (tracedReadData fs inode offset length).2 ↔ SliceInside fs inode offset length := by
  have inodes : fs.Inside (bytesAt 4 4) := boot_inside (by omega)
  by_cases unknown : inode ≥ fs.numInodes
  · rw [tracedReadData_unknown unknown]
    exact ⟨fun _ => Or.inl unknown, fun _ => inodes⟩
  have known : inode < fs.numInodes := by simpa using unknown
  have size : fs.Inside (bytesAt (inodeBlock inode).toNat 4) := by
    have inImage := (inodeBlock_inside known).1
    rw [inside_bytesAt]
    omega
  by_cases past : offset > fs.fileLength inode
  · rw [tracedReadData_past unknown past, inside_append]
    exact ⟨fun _ => Or.inr (Or.inl past), fun _ => ⟨inodes, size⟩⟩
  have inFile : offset.toNat ≤ (fs.fileLength inode).toNat := by
    simp only [gt_iff_lt, BitVec.lt_def] at past
    omega
  have index : (offset / 4096 : Word).toNat = offset.toNat / 4096 := by
    rw [BitVec.toNat_udiv]; rfl
  have first : fs.Inside (fs.loadBlockNumber inode (offset / 4096)).2 ↔ offset.toNat < 1023 * 4096 := by
    rw [loadBlockNumber_inside known, index]
    omega
  rw [tracedReadData_inFile unknown past]
  simp only [inside_append, inodes, size, true_and, first]
  have slice : SliceInside fs inode offset length ↔ offset.toNat < 1023 * 4096 ∧
      ∀ p, offset.toNat ≤ p → p < offset.toNat + fs.sliceLength inode offset length →
        fs.BlockInside inode p := by
    constructor
    · exact fun valid => (valid.resolve_left unknown).resolve_left past
    · exact fun valid => Or.inr (Or.inr valid)
  rw [slice]
  refine and_congr_right fun numbered => ?_
  have cached : (fs.loadBlockNumber inode (offset / 4096)).1 =
      fs.dataBlocks inode (BitVec.ofNat 32 (((0 : Word).toNat + offset.toNat) / 4096)) := by
    refine congrArg (fs.dataBlocks inode) (BitVec.eq_of_toNat_eq ?_)
    rw [index, BitVec.toNat_ofNat, show (0 : Word).toNat = 0 from rfl]
    omega
  rw [tracedReadLoop_inside known (by rw [show (0 : Word).toNat = 0 from rfl]; omega)
    (fun _ => ⟨by rw [show (0 : Word).toNat = 0 from rfl]; omega, cached⟩)]
  simp only [show (0 : Word).toNat = 0 from rfl, Nat.zero_add]
  rfl

/-- The accesses of the three functions stay inside the image, for all its
contents and all arguments, exactly when the parts looked at are in place. -/
theorem image_accesses (fs : FsImage) :
    (∀ index, fs.Inside (tracedDentryByIndex fs index).2 ↔ fs.numDirEntries ≤ index ∨ index.toNat < 63) ∧
      (∀ fname, fs.Inside (tracedDentryByName fs fname).2 ↔ (1 ≤ strlen fname → strlen fname ≤ 32 →
        ∀ i, i < fs.numDirEntries.toNat → (∀ j, j < i → fs.entryName j ≠ stringAt fname) →
          fs.EntryInside i)) ∧
      ∀ inode offset length,
        fs.Inside (tracedReadData fs inode offset length).2 ↔ SliceInside fs inode offset length :=
  ⟨tracedDentryByIndex_inBounds fs, tracedDentryByName_inside fs, tracedReadData_inBounds fs⟩

/-- An image with one file of the greatest length that an inode has block
numbers for, each block in place. -/
def largestFile : FsImage where
  byte a :=
    if a < 4096 then cString [0, 0, 0, 0, 1, 0, 0, 0, 0xFF, 3] a
    else if a < 4100 then cString [0, 0xF0, 0x3F] (a - 4096)
    else if a < 8192 then
      if a % 4 = 0 then UInt8.ofNat ((a - 4100) / 4) else if a % 4 = 1 then UInt8.ofNat ((a - 4100) / 4 / 256)
      else 0
    else 0

/-- A read at the end of that file is not refused, and takes block number 1023. -/
theorem image_accesses_past_end : (tracedReadData largestFile 0 0x3FF000 1).1 = (0, []) ∧
    Access.dataBlocks 1023 ∈ (tracedReadData largestFile 0 0x3FF000 1).2 ∧
    ¬ largestFile.Inside (tracedReadData largestFile 0 0x3FF000 1).2 := by
  have value : (tracedReadData largestFile 0 0x3FF000 1).1 = (0, []) := by decide
  have taken : Access.dataBlocks 1023 ∈ (tracedReadData largestFile 0 0x3FF000 1).2 := by
    decide
  refine ⟨value, taken, fun inside => ?_⟩
  exact absurd (inside _ taken) (by change ¬ 1023 < 1023; omega)

end UnixLite
