import Mathlib.Algebra.Group.Nat.Defs
import Mathlib.Logic.Function.Basic

namespace Regions

variable {w : Nat} {β : Type*}

/-- `mem` with the places `lo` to `hi` behind `a` taken from `f`. -/
def written (mem : BitVec w → β) (a : BitVec w) (f : Nat → β) (lo hi : Nat) (x : BitVec w) : β :=
  if lo ≤ (x - a).toNat ∧ (x - a).toNat < hi then f (x - a).toNat else mem x

theorem toNat_behind (a : BitVec w) {i : Nat} (small : i < 2 ^ w) : (a + BitVec.ofNat w i - a).toNat = i := by
  rw [BitVec.add_comm, BitVec.add_sub_cancel, BitVec.toNat_ofNat, Nat.mod_eq_of_lt small]

theorem add_behind (a x : BitVec w) : a + BitVec.ofNat w (x - a).toNat = x := by
  rw [BitVec.ofNat_toNat, BitVec.setWidth_eq, BitVec.add_comm, BitVec.sub_add_cancel]

section Written

variable (mem : BitVec w → β) (a : BitVec w) (f : Nat → β) {lo hi : Nat}

theorem written_inside {i : Nat} (lower : lo ≤ i) (upper : i < hi) (small : i < 2 ^ w) :
    written mem a f lo hi (a + BitVec.ofNat w i) = f i := by
  rw [written, toNat_behind a small, if_pos ⟨lower, upper⟩]

theorem written_outside {x : BitVec w} (outside : (x - a).toNat < lo ∨ hi ≤ (x - a).toNat) :
    written mem a f lo hi x = mem x := by
  have notWithin : ¬ (lo ≤ (x - a).toNat ∧ (x - a).toNat < hi) := by omega
  rw [written, if_neg notWithin]

theorem written_empty (k : Nat) : written mem a f k k = mem := by
  funext x
  exact written_outside mem a f (by omega)

/-- One more place at the end. -/
theorem update_end {k : Nat} (lower : lo ≤ k) (small : k < 2 ^ w) :
    Function.update (written mem a f lo k) (a + BitVec.ofNat w k) (f k) = written mem a f lo (k + 1) := by
  funext x
  by_cases here : x = a + BitVec.ofNat w k
  · rw [here, Function.update_self, written_inside mem a f lower (Nat.lt_succ_self k) small]
  · have other : (x - a).toNat ≠ k := fun same => here (by rw [← same, add_behind])
    rw [Function.update_of_ne here]
    have same : (lo ≤ (x - a).toNat ∧ (x - a).toNat < k) ↔ (lo ≤ (x - a).toNat ∧ (x - a).toNat < k + 1) := by
      omega
    simp only [written, same]

/-- One more place at the start. -/
theorem update_start {k : Nat} (upper : k < hi) (small : k < 2 ^ w) :
    Function.update (written mem a f (k + 1) hi) (a + BitVec.ofNat w k) (f k) = written mem a f k hi := by
  funext x
  by_cases here : x = a + BitVec.ofNat w k
  · rw [here, Function.update_self, written_inside mem a f (Nat.le_refl k) upper small]
  · have other : (x - a).toNat ≠ k := fun same => here (by rw [← same, add_behind])
    rw [Function.update_of_ne here]
    have same : (k + 1 ≤ (x - a).toNat ∧ (x - a).toNat < hi) ↔ (k ≤ (x - a).toNat ∧ (x - a).toNat < hi) := by
      omega
    simp only [written, same]

end Written

/-- `for (i = 0; i < n; i++) s[i] = b;` -/
def fill (mem : BitVec w → β) (s : BitVec w) (b : β) : Nat → BitVec w → β
  | 0 => mem
  | n + 1 => Function.update (fill mem s b n) (s + BitVec.ofNat w n) b

/-- `for (i = 0; i < n; i++) dest[i] = src[i];` -/
def copyUp (mem : BitVec w → β) (dest src : BitVec w) : Nat → BitVec w → β
  | 0 => mem
  | n + 1 => Function.update (copyUp mem dest src n) (dest + BitVec.ofNat w n)
      (copyUp mem dest src n (src + BitVec.ofNat w n))

/-- `while (n-- > 0) dest[n] = src[n];` -/
def copyDown (dest src : BitVec w) : Nat → (BitVec w → β) → BitVec w → β
  | 0, mem => mem
  | n + 1, mem => copyDown dest src n
      (Function.update mem (dest + BitVec.ofNat w n) (mem (src + BitVec.ofNat w n)))

/-- A copy that reads each place before it writes there. -/
def move (mem : BitVec w → β) (dest src : BitVec w) (n : Nat) : BitVec w → β :=
  if dest.toNat ≤ src.toNat then copyUp mem dest src n else copyDown dest src n mem

/-- A copy upwards reads no place that it has written. -/
def Upwards (dest src : BitVec w) (n : Nat) : Prop := ∀ i < n, i ≤ (src + BitVec.ofNat w i - dest).toNat

/-- A copy downwards reads no place that it has written. -/
def Downwards (dest src : BitVec w) (n : Nat) : Prop :=
  ∀ i < n, (src + BitVec.ofNat w i - dest).toNat ≤ i ∨ n ≤ (src + BitVec.ofNat w i - dest).toNat

theorem fill_written (mem : BitVec w → β) (s : BitVec w) (b : β) {n : Nat} (small : n ≤ 2 ^ w) :
    fill mem s b n = written mem s (fun _ => b) 0 n := by
  induction n with
  | zero => rw [fill, written_empty]
  | succ n ih => rw [fill, ih (by omega), update_end mem s _ (Nat.zero_le n) (by omega)]

section Copies

variable (mem : BitVec w → β) {dest src : BitVec w} {n : Nat}

/-- The place that a copy upwards reads next is as it was. -/
theorem Upwards.unread (upwards : Upwards dest src n) {k i : Nat} (inside : i < n) (next : k ≤ i) (f : Nat → β) :
    written mem dest f 0 k (src + BitVec.ofNat w i) = mem (src + BitVec.ofNat w i) :=
  written_outside mem dest f (.inr (Nat.le_trans next (upwards i inside)))

theorem Downwards.unread (downwards : Downwards dest src n) {i : Nat} (inside : i < n) (f : Nat → β) :
    written mem dest f (i + 1) n (src + BitVec.ofNat w i) = mem (src + BitVec.ofNat w i) := by
  refine written_outside mem dest f ?_
  rcases downwards i inside with before | after
  · exact .inl (Nat.lt_succ_of_le before)
  · exact .inr after

theorem copyUp_written (upwards : Upwards dest src n) (small : n ≤ 2 ^ w) :
    copyUp mem dest src n = written mem dest (fun i => mem (src + BitVec.ofNat w i)) 0 n := by
  have prefixes (k : Nat) (inside : k ≤ n) :
      copyUp mem dest src k = written mem dest (fun i => mem (src + BitVec.ofNat w i)) 0 k := by
    induction k with
    | zero => rw [copyUp, written_empty]
    | succ k ih =>
      rw [copyUp, ih (by omega), upwards.unread mem inside (Nat.le_refl k)]
      exact update_end mem dest _ (Nat.zero_le k) (by omega)
  exact prefixes n (Nat.le_refl n)

theorem copyDown_written (downwards : Downwards dest src n) (small : n ≤ 2 ^ w) :
    copyDown dest src n mem = written mem dest (fun i => mem (src + BitVec.ofNat w i)) 0 n := by
  have suffixes (k : Nat) (inside : k ≤ n) :
      copyDown dest src k (written mem dest (fun i => mem (src + BitVec.ofNat w i)) k n) =
        written mem dest (fun i => mem (src + BitVec.ofNat w i)) 0 n := by
    induction k with
    | zero => rw [copyDown]
    | succ k ih =>
      rw [copyDown, downwards.unread mem inside, update_start mem dest _ inside (by omega)]
      exact ih (by omega)
  have whole := suffixes n (Nat.le_refl n)
  rwa [written_empty] at whole

end Copies

section Order

variable {dest src : BitVec w} {n : Nat}

theorem toNat_after {a x : BitVec w} (after : a.toNat ≤ x.toNat) : (x - a).toNat = x.toNat - a.toNat :=
  BitVec.toNat_sub_of_le (BitVec.le_def.mpr after)

theorem toNat_before {a x : BitVec w} (before : x.toNat < a.toNat) :
    (x - a).toNat = 2 ^ w - (a.toNat - x.toNat) :=
  BitVec.toNat_sub_of_lt (BitVec.lt_def.mpr before)

theorem toNat_place {a : BitVec w} {i : Nat} (fits : a.toNat + n ≤ 2 ^ w) (inside : i < n) :
    (a + BitVec.ofNat w i).toNat = a.toNat + i := by
  rw [BitVec.toNat_add, BitVec.toNat_ofNat, Nat.add_mod_mod, Nat.mod_eq_of_lt (by omega)]

theorem Upwards.of_le (srcFits : src.toNat + n ≤ 2 ^ w) (order : dest.toNat ≤ src.toNat) : Upwards dest src n := by
  intro i inside
  have place := toNat_place srcFits inside
  rw [toNat_after (by omega), place]
  omega

theorem Upwards.of_apart (destFits : dest.toNat + n ≤ 2 ^ w) (srcFits : src.toNat + n ≤ 2 ^ w)
    (apart : src.toNat + n ≤ dest.toNat ∨ dest.toNat + n ≤ src.toNat) : Upwards dest src n := by
  rcases apart with below | above
  · intro i inside
    have place := toNat_place srcFits inside
    rw [toNat_before (by omega), place]
    omega
  · exact .of_le srcFits (by omega)

theorem Downwards.of_le (destFits : dest.toNat + n ≤ 2 ^ w) (srcFits : src.toNat + n ≤ 2 ^ w)
    (order : src.toNat ≤ dest.toNat) : Downwards dest src n := by
  intro i inside
  have place := toNat_place srcFits inside
  rcases Nat.lt_or_ge (src.toNat + i) dest.toNat with before | after
  · rw [toNat_before (by omega), place]
    omega
  · rw [toNat_after (by omega), place]
    omega

theorem move_written (mem : BitVec w → β) (destFits : dest.toNat + n ≤ 2 ^ w) (srcFits : src.toNat + n ≤ 2 ^ w) :
    move mem dest src n = written mem dest (fun i => mem (src + BitVec.ofNat w i)) 0 n := by
  have small : n ≤ 2 ^ w := by omega
  unfold move
  split
  · rename_i order
    exact copyUp_written mem (.of_le srcFits order) small
  · exact copyDown_written mem (.of_le destFits srcFits (by omega)) small

end Order

end Regions
