import UnixLite.FileReads

namespace UnixLite

namespace FsImage

variable (fs : FsImage)

/-- The name of a directory entry: its 32 bytes up to the first NUL, or all of them. -/
def entryName (i : Nat) : List UInt8 :=
  (fs.dentryAt i).fileName.toList.takeWhile fun c => c != 0

theorem fileName_length (i : Nat) : (fs.dentryAt i).fileName.toList.length = 32 := by simp

theorem fileName_byte (i : Nat) {j : Nat} (inside : j < (fs.dentryAt i).fileName.toList.length) :
    (fs.dentryAt i).fileName.toList[j] = fs.byte (dirEntry i + j) := by
  simp [dentryAt]

theorem entryName_length (i : Nat) : (fs.entryName i).length ≤ 32 := by
  have shorter := (List.takeWhile_prefix (l := (fs.dentryAt i).fileName.toList) fun c => c != 0).length_le
  rwa [fileName_length] at shorter

/-- A name is made of the bytes of its entry, none of which is a NUL. -/
theorem entryName_byte (i : Nat) {j : Nat} (inside : j < (fs.entryName i).length) :
    (fs.entryName i)[j] = fs.byte (dirEntry i + j) ∧ fs.byte (dirEntry i + j) ≠ 0 := by
  have isPrefix := List.takeWhile_prefix (l := (fs.dentryAt i).fileName.toList) fun c => c != 0
  have same : (fs.entryName i)[j] = fs.byte (dirEntry i + j) := by
    rw [← fs.fileName_byte i (by have := isPrefix.length_le; exact Nat.lt_of_lt_of_le inside this)]
    exact isPrefix.getElem inside
  have char := List.all_eq_true.mp List.all_takeWhile _ (List.getElem_mem inside)
  rw [same] at char
  exact ⟨same, by simpa using char⟩

/-- A name of less than 32 characters is terminated. -/
theorem entryName_ends (i : Nat) (short : (fs.entryName i).length < 32) :
    fs.byte (dirEntry i + (fs.entryName i).length) = 0 := by
  have length : (fs.entryName i).length =
      (fs.dentryAt i).fileName.toList.findIdx fun c => !(c != 0) := by
    have stops := @List.findIdx_le_length _ (fun c => !(c != 0)) (fs.dentryAt i).fileName.toList
    rw [entryName, List.takeWhile_eq_take_findIdx_not, List.length_take, Nat.min_eq_left stops]
  have inside : (fs.dentryAt i).fileName.toList.findIdx (fun c => !(c != 0)) <
      (fs.dentryAt i).fileName.toList.length := by
    rw [← length, fileName_length]
    exact short
  have stop := List.findIdx_getElem (w := inside)
  rw [fileName_byte, ← length] at stop
  simpa using stop

/-- The length that `read_dentry_by_name` computes for a stored name: what
lies behind an unterminated one does not matter. -/
theorem clamped_strlen (i : Nat) :
    (if 32 < strlen (fun j => fs.byte (dirEntry i + j)) then 32
      else strlen fun j => fs.byte (dirEntry i + j)) = (fs.entryName i).length := by
  have bound := fs.entryName_length i
  by_cases short : (fs.entryName i).length < 32
  · have stored : strlen (fun j => fs.byte (dirEntry i + j)) = (fs.entryName i).length :=
      strlen_eq (by omega) (fun _ inside => (fs.entryName_byte i inside).2) (fs.entryName_ends i short)
    rw [stored, if_neg (by omega)]
  · have stored : 32 ≤ strlen (fun j => fs.byte (dirEntry i + j)) :=
      strlen_ge (by omega) fun _ inside => (fs.entryName_byte i (by omega)).2
    split <;> omega

end FsImage

/-- An entry matches a name exactly when it has that name. -/
theorem nameMatches_stringAt (fs : FsImage) {fname : Nat → UInt8} (short : strlen fname ≤ 32) (i : Nat) :
    nameMatches fs fname i = true ↔ fs.entryName i = stringAt fname := by
  have ends : fname (strlen fname) = 0 := strlen_stop (by omega)
  have bound := fs.entryName_length i
  have longer (a b : Nat) : (if a < b then b else a) = max a b := by
    split <;> omega
  simp only [nameMatches, fs.clamped_strlen i, longer, beq_iff_eq, strncmp_eq_zero]
  constructor
  · intro agree
    have same (k : Nat) (inside : k < max (strlen fname) (fs.entryName i).length)
        (within : k ≤ strlen fname) : fname k = fs.byte (FsImage.dirEntry i + k) :=
      agree k inside fun j below => strlen_chars (by omega)
    have lengths : (fs.entryName i).length = strlen fname := by
      rcases Nat.lt_trichotomy (fs.entryName i).length (strlen fname) with less | equal | more
      · have stored := same _ (by omega) less.le
        rw [fs.entryName_ends i (by omega)] at stored
        exact absurd stored (strlen_chars less)
      · exact equal
      · have stored := same (strlen fname) (by omega) le_rfl
        rw [ends] at stored
        exact absurd stored.symm (fs.entryName_byte i more).2
    refine List.ext_getElem (by rw [lengths, stringAt_length]) ?_
    intro k inName inside
    have within : k < strlen fname := by omega
    rw [(fs.entryName_byte i inName).1, ← same k (by omega) (by omega)]
    simp [stringAt]
  · intro named k inside _
    have length : (fs.entryName i).length = strlen fname := by
      rw [named, stringAt_length]
    have inName : k < (fs.entryName i).length := by omega
    have char : (fs.entryName i)[k] = fname k := by
      simp only [named, stringAt, List.getElem_map, List.getElem_range]
    rw [← char]
    exact (fs.entryName_byte i inName).1

theorem nameMatches_iff (fs : FsImage) {fname : List UInt8} (text : 0 ∉ fname) (short : fname.length ≤ 32)
    (i : Nat) : nameMatches fs (cString fname) i = true ↔ fs.entryName i = fname := by
  have length : strlen (cString fname) = fname.length := strlen_cString text (by omega)
  rw [nameMatches_stringAt fs (by omega), stringAt_cString text (by omega)]

/-- The first entry that has a name. -/
structure FirstNamed (fs : FsImage) (fname : List UInt8) (i : Nat) : Prop where
  inside : i < fs.numDirEntries.toNat
  named : fs.entryName i = fname
  first : ∀ j, j < i → fs.entryName j ≠ fname

theorem firstNamed_exists {fs : FsImage} {fname : List UInt8}
    (named : ∃ i, i < fs.numDirEntries.toNat ∧ fs.entryName i = fname) : ∃ i, FirstNamed fs fname i := by
  classical
  obtain ⟨inside, name⟩ := Nat.find_spec named
  refine ⟨Nat.find named, inside, name, fun j below same => ?_⟩
  exact Nat.find_min named below ⟨by omega, same⟩

theorem readDentryByIndex_inside {fs : FsImage} {i : Nat} (inside : i < fs.numDirEntries.toNat) :
    readDentryByIndex fs (BitVec.ofNat 32 i) = some (fs.dentryAt i) := by
  have size := fs.numDirEntries.isLt
  have same : (BitVec.ofNat 32 i).toNat = i := by
    rw [BitVec.toNat_ofNat, Nat.mod_eq_of_lt (by omega)]
  rw [readDentryByIndex, if_neg, same]
  rw [ge_iff_le, BitVec.le_def, same]
  omega

/-- The loop stops at the first entry that matches. -/
theorem searchEntries_first {fs : FsImage} {fname : List UInt8} (text : 0 ∉ fname)
    (short : fname.length ≤ 32) {i : Nat} (found : FirstNamed fs fname i) {n start : Nat}
    (before : start ≤ i) (within : i < start + n) :
    searchEntries fs (cString fname) n start = some (fs.dentryAt i) := by
  induction n generalizing start with
  | zero => omega
  | succ n ih =>
    unfold searchEntries
    by_cases here : start = i
    · subst here
      rw [if_pos ((nameMatches_iff fs text short start).mpr found.named)]
      exact readDentryByIndex_inside found.inside
    · have other := found.first start (by omega)
      rw [if_neg (fun same => other ((nameMatches_iff fs text short start).mp same))]
      exact ih (by omega) (by omega)

theorem searchEntries_none {fs : FsImage} {fname : List UInt8} (text : 0 ∉ fname)
    (short : fname.length ≤ 32) {n start : Nat}
    (unnamed : ∀ i, i < start + n → fs.entryName i ≠ fname) :
    searchEntries fs (cString fname) n start = none := by
  induction n generalizing start with
  | zero => rfl
  | succ n ih =>
    have other := unnamed start (by omega)
    unfold searchEntries
    rw [if_neg (fun same => other ((nameMatches_iff fs text short start).mp same))]
    exact ih fun i inside => unnamed i (by omega)

/-- `read_dentry_by_name` with the entry it writes to. -/
def readDentryByNameTo (fs : FsImage) (fname : Nat → UInt8) (dentry : Dentry) : Int × Dentry :=
  match readDentryByName fs fname with
  | none => (-1, dentry)
  | some found => (0, found)

theorem readDentryByName_bad {fs : FsImage} {fname : List UInt8} (text : 0 ∉ fname)
    (bad : ¬ (1 ≤ fname.length ∧ fname.length ≤ 32)) : readDentryByName fs (cString fname) = none := by
  unfold readDentryByName
  rw [if_pos]
  by_cases long : 32 < fname.length
  · have chars : 33 ≤ strlen (cString fname) :=
      strlen_ge (by omega) fun _ inside => cString_ne_zero text (by omega)
    omega
  · have length : strlen (cString fname) = fname.length := strlen_cString text (by omega)
    omega

theorem readDentryByName_good {fs : FsImage} {fname : List UInt8} (text : 0 ∉ fname)
    (good : 1 ≤ fname.length ∧ fname.length ≤ 32) : readDentryByName fs (cString fname) =
      searchEntries fs (cString fname) fs.numDirEntries.toNat 0 := by
  have length : strlen (cString fname) = fname.length := strlen_cString text (by omega)
  rw [readDentryByName, if_neg]
  omega

/-- A name is looked up exactly: the first entry that has it is copied, and
without one, or with no characters or more than 32, nothing is. -/
theorem name_lookup {fs : FsImage} {fname : List UInt8} (text : 0 ∉ fname) (dentry : Dentry) :
    ((readDentryByNameTo fs (cString fname) dentry).1 = 0 ↔ (1 ≤ fname.length ∧ fname.length ≤ 32) ∧
        ∃ i, i < fs.numDirEntries.toNat ∧ fs.entryName i = fname) ∧
      (∀ i, FirstNamed fs fname i → 1 ≤ fname.length → fname.length ≤ 32 →
        readDentryByNameTo fs (cString fname) dentry = (0, fs.dentryAt i)) ∧
      (¬ ((1 ≤ fname.length ∧ fname.length ≤ 32) ∧ ∃ i, i < fs.numDirEntries.toNat ∧ fs.entryName i = fname) →
        readDentryByNameTo fs (cString fname) dentry = (-1, dentry)) := by
  have hit (i : Nat) (found : FirstNamed fs fname i) (lower : 1 ≤ fname.length)
      (upper : fname.length ≤ 32) : readDentryByNameTo fs (cString fname) dentry = (0, fs.dentryAt i) := by
    have inside := found.inside
    rw [readDentryByNameTo, readDentryByName_good text ⟨lower, upper⟩,
      searchEntries_first text upper found (by omega) (by omega)]
  have miss (nothing : ¬ ((1 ≤ fname.length ∧ fname.length ≤ 32) ∧
      ∃ i, i < fs.numDirEntries.toNat ∧ fs.entryName i = fname)) :
      readDentryByNameTo fs (cString fname) dentry = (-1, dentry) := by
    by_cases good : 1 ≤ fname.length ∧ fname.length ≤ 32
    · have unnamed : ∀ i, i < 0 + fs.numDirEntries.toNat → fs.entryName i ≠ fname :=
        fun i inside same => nothing ⟨good, i, by omega, same⟩
      rw [readDentryByNameTo, readDentryByName_good text good, searchEntries_none text good.2 unnamed]
    · rw [readDentryByNameTo, readDentryByName_bad text good]
  refine ⟨⟨fun found => ?_, ?_⟩, hit, miss⟩
  · by_contra nothing
    rw [miss nothing] at found
    cases found
  · rintro ⟨⟨lower, upper⟩, named⟩
    obtain ⟨i, found⟩ := firstNamed_exists named
    rw [hit i found lower upper]

def blankDentry : Dentry := ⟨Vector.replicate 32 0, 0, 0⟩

theorem name_lookup_sample :
    readDentryByNameTo sampleImage (cString shell) blankDentry = (0, sampleImage.dentryAt 1) ∧
      readDentryByNameTo sampleImage (cString [115, 104, 101]) blankDentry = (-1, blankDentry) := by
  have names : [0, 1, 2].map sampleImage.entryName = [[46], shell, [114, 116, 99]] := by decide
  simp only [List.map_cons, List.map_nil, List.cons.injEq, and_true] at names
  obtain ⟨dot, second, third⟩ := names
  have entries : sampleImage.numDirEntries.toNat = 3 := by decide
  constructor
  · obtain ⟨_, hit, _⟩ := @name_lookup sampleImage shell (by decide) blankDentry
    refine hit 1 ⟨by omega, second, fun j below => ?_⟩ (by decide) (by decide)
    obtain rfl : j = 0 := by omega
    rw [dot]
    decide
  · obtain ⟨_, _, miss⟩ := @name_lookup sampleImage [115, 104, 101] (by decide) blankDentry
    refine miss ?_
    rintro ⟨_, i, inside, same⟩
    obtain rfl | rfl | rfl : i = 0 ∨ i = 1 ∨ i = 2 := by omega
    · rw [dot] at same
      exact absurd same (by decide)
    · rw [second] at same
      exact absurd same (by decide)
    · rw [third] at same
      exact absurd same (by decide)

end UnixLite
