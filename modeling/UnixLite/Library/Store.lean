import Mathlib.Logic.Function.Basic
import Mathlib.Data.List.Basic
import Mathlib.Logic.Nontrivial.Basic

namespace Store

variable {α : Type*}

/-- `for (i = 0; i < n; i++) m[i] = v;` -/
def fillLoop : Nat → α → (Nat → α) → Nat → α
  | 0, _, m => m
  | n + 1, v, m => Function.update (fillLoop n v m) n v

theorem fillLoop_apply (n : Nat) (v : α) (m : Nat → α) (i : Nat) :
    fillLoop n v m i = if i < n then v else m i := by
  induction n with
  | zero => simp [fillLoop]
  | succ n ih =>
    by_cases last : i = n
    · subst last
      simp [fillLoop]
    · simp only [fillLoop, Function.update_of_ne last, ih]
      grind

/-- `for (i = 0; i < n; i++) dst[i] = src[i];` -/
def copyLoop : Nat → (Nat → α) → (Nat → α) → Nat → α
  | 0, dst, _ => dst
  | n + 1, dst, src => Function.update (copyLoop n dst src) n (src n)

theorem copyLoop_apply (n : Nat) (dst src : Nat → α) (i : Nat) :
    copyLoop n dst src i = if i < n then src i else dst i := by
  induction n with
  | zero => simp [copyLoop]
  | succ n ih =>
    by_cases last : i = n
    · subst last
      simp [copyLoop]
    · simp only [copyLoop, Function.update_of_ne last, ih]
      grind

/-- What a copy of `n` cells between disjoint ranges leaves behind. -/
def blockCopy (m : Nat → α) (dst src n : Nat) (a : Nat) : α :=
  if dst ≤ a ∧ a < dst + n then m (src + (a - dst)) else m a

theorem blockCopy_inside {m : Nat → α} {dst src n i : Nat} (inside : i < n) :
    blockCopy m dst src n (dst + i) = m (src + i) := by
  have within : dst ≤ dst + i ∧ dst + i < dst + n := by omega
  rw [blockCopy, if_pos within, Nat.add_sub_cancel_left]

theorem blockCopy_outside {m : Nat → α} {dst src n a : Nat} (outside : a < dst ∨ dst + n ≤ a) :
    blockCopy m dst src n a = m a := by
  have notWithin : ¬ (dst ≤ a ∧ a < dst + n) := by omega
  rw [blockCopy, if_neg notWithin]

/-- The cells of `bs` stored one after the other from address `a` on. -/
def storeList (m : Nat → α) (a : Nat) (bs : List α) (x : Nat) : α :=
  if a ≤ x then (bs[x - a]?).getD (m x) else m x

theorem storeList_nil (m : Nat → α) (a : Nat) : storeList m a [] = m := by
  funext x
  simp [storeList]

theorem storeList_before {m : Nat → α} {a x : Nat} {bs : List α} (before : x < a) :
    storeList m a bs x = m x := by
  simp [storeList, Nat.not_le.mpr before]

theorem storeList_after {m : Nat → α} {a x : Nat} {bs : List α} (after : a + bs.length ≤ x) :
    storeList m a bs x = m x := by
  have outside : bs.length ≤ x - a := by omega
  simp [storeList, outside]

theorem storeList_within {m : Nat → α} {a i : Nat} {bs : List α} (inside : i < bs.length) :
    storeList m a bs (a + i) = bs[i] := by
  simp [storeList, inside]

/-- Stores spare all cells from `a + n` on, whatever was there, exactly when
there are at most `n` of them. -/
theorem storeList_beyond_iff [Nontrivial α] {a n : Nat} {bs : List α} :
    (∀ m x, a + n ≤ x → storeList m a bs x = m x) ↔ bs.length ≤ n := by
  constructor
  · intro kept
    by_contra long
    have inside : n < bs.length := Nat.lt_of_not_le long
    obtain ⟨other, differs⟩ := exists_ne bs[n]
    have same := kept (fun _ => other) (a + n) (Nat.le_refl _)
    rw [storeList_within inside] at same
    exact differs same.symm
  · intro short m x beyond
    exact storeList_after (by omega)

/-- `m'` differs from `m` at most in the `n` cells from `lo` on. -/
def Within (lo n : Nat) (m m' : Nat → α) : Prop :=
  ∀ a, ¬ (lo ≤ a ∧ a < lo + n) → m' a = m a

/-- The same for stores that stay within their range. -/
theorem storeList_within_iff [Nontrivial α] {a n : Nat} {bs : List α} :
    (∀ m, Within a n m (storeList m a bs)) ↔ bs.length ≤ n := by
  rw [← storeList_beyond_iff]
  constructor
  · intro within m x beyond
    exact within m x (by omega)
  · intro kept m x outside
    by_cases before : x < a
    · exact storeList_before before
    · exact kept m x (by omega)

theorem Within.refl (lo n : Nat) (m : Nat → α) : Within lo n m m := fun _ _ => rfl

theorem Within.trans {lo n : Nat} {m m' m'' : Nat → α} (first : Within lo n m m')
    (second : Within lo n m' m'') : Within lo n m m'' :=
  fun a outside => (second a outside).trans (first a outside)

theorem Within.update {lo n a : Nat} {m m' : Nat → α} (old : Within lo n m m') (v : α)
    (inside : lo ≤ a ∧ a < lo + n) : Within lo n m (Function.update m' a v) := by
  intro x outside
  have other : x ≠ a := by
    rintro rfl
    exact outside inside
  rw [Function.update_of_ne other]
  exact old x outside

/-- A loop whose body stays inside the range stays inside the range. -/
theorem Within.foldl {β : Type*} {lo n : Nat} (body : (Nat → α) → β → Nat → α) (items : List β)
    (one : ∀ b ∈ items, ∀ m, Within lo n m (body m b)) (m : Nat → α) :
    Within lo n m (items.foldl body m) := by
  induction items generalizing m with
  | nil => exact Within.refl lo n m
  | cons b rest ih =>
    have head := one b (List.mem_cons_self ..) m
    exact head.trans (ih (fun c member => one c (List.mem_cons_of_mem _ member)) (body m b))

end Store
