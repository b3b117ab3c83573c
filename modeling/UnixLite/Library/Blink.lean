import UnixLite.Library.Paper

namespace Scroll

variable {α : Type*} {h w : Nat} {blank mark : α}

namespace Window

/-- The cell at the cursor is overwritten. -/
def drawCursor (s : Window h w α) (a : α) : Window h w α := s.drawAt s.y s.x a

/-- The cell at the cursor and the one behind it are blanked. -/
def undraw (blank : α) (s : Window h w α) : Window h w α :=
  if s.x + 1 < w then (s.drawCursor blank).drawAt s.y (s.x + 1) blank
  else (s.drawCursor blank).drawAt (s.y + 1) 0 blank

/-- The cursor goes back by one cell, which is blanked. -/
def back (blank : α) (s : Window h w α) : Window h w α :=
  if s.y = 0 ∧ s.x = 0 then s
  else if s.x = 0 then { s with x := w - 1, y := s.y - 1 }.drawCursor blank
  else { s with x := s.x - 1 }.drawCursor blank

def wipe (blank : α) : Window h w α := ⟨fun _ _ => blank, 0, 0⟩

/-- The cells at and behind the cursor are blank. -/
def Clear (blank : α) (s : Window h w α) : Prop :=
  ∀ j i, s.y < j.val ∨ (j.val = s.y ∧ s.x ≤ i.val) → s.cells j i = blank

/-- A mark is drawn at the cursor. -/
def Drawn (mark : α) (s : Window h w α) : Prop := ∃ j i, j.val = s.y ∧ i.val = s.x ∧ s.cells j i = mark

/-- Two displays agree in their cursor and in all cells but the one there. -/
structure SameText (b p : Window h w α) : Prop where
  x : b.x = p.x
  y : b.y = p.y
  cells : ∀ j i, ¬ (j.val = p.y ∧ i.val = p.x) → b.cells j i = p.cells j i

/-- `p` is clear from its cursor on, and `b` is `p` with a blank or a mark there. -/
structure Blinks (blank mark : α) (b p : Window h w α) : Prop where
  text : b.drawCursor blank = p
  cursor : Drawn mark b ∨ b = p
  clear : p.Clear blank
  on : p.OnScreen

theorem Blinks.refl {s : Window h w α} (clear : s.Clear blank) (on : s.OnScreen) : Blinks blank mark s s where
  text := by
    ext j i
    · simp only [drawCursor, drawAt]
      split
      · rename_i here
        exact (clear j i (Or.inr ⟨here.1, Nat.le_of_eq here.2.symm⟩)).symm
      · rfl
    · rfl
    · rfl
  cursor := Or.inr rfl
  clear := clear
  on := on

section Twins

variable {b p : Window h w α}

theorem Blinks.sameText (twins : Blinks blank mark b p) : SameText b p := by
  obtain ⟨text, _, _, _⟩ := twins
  subst text
  refine ⟨rfl, rfl, fun j i other => ?_⟩
  change b.cells j i = if j.val = b.y ∧ i.val = b.x then blank else b.cells j i
  exact (if_neg other).symm

/-- Drawing over the cursor hides whether there was one. -/
theorem drawCursor_drawCursor (s : Window h w α) (a c : α) : (s.drawCursor a).drawCursor c = s.drawCursor c := by
  ext j i
  · simp only [drawCursor, drawAt]
    split <;> rfl
  · rfl
  · rfl

/-- The blinking of the cursor itself. -/
theorem Blinks.draw (twins : Blinks blank mark b p) {a : α} (blinks : a = blank ∨ a = mark) :
    Blinks blank mark (b.drawCursor a) p where
  text := (b.drawCursor_drawCursor a blank).trans twins.text
  cursor := by
    rcases blinks with rfl | rfl
    · exact Or.inr twins.text
    · have same := twins.sameText
      obtain ⟨column, row⟩ := twins.on
      refine Or.inl ⟨⟨p.y, row⟩, ⟨p.x, column⟩, same.y.symm, same.x.symm, ?_⟩
      simp [drawCursor, drawAt, same.x, same.y]
  clear := twins.clear
  on := twins.on

/-- With no mark drawn the two are one. -/
theorem Blinks.eq (twins : Blinks blank mark b p) (undrawn : ¬ Drawn mark b) : b = p :=
  twins.cursor.resolve_left undrawn

theorem Clear.newRow {s : Window h w α} (below : ∀ j i, s.y < j.val → s.cells j i = blank) :
    (s.newRow blank).Clear blank := by
  intro j i after
  unfold Window.newRow at after ⊢
  split at after
  · rename_i room
    rw [if_pos room]
    simp only at after ⊢
    exact below j i (by omega)
  · rename_i last
    rw [if_neg last]
    have bottom : ¬ j.val + 1 < h := by
      simp only [scroll] at after
      omega
    simp only [scroll, bottom, dite_false]

theorem OnScreen.newRow {s : Window h w α} (wide : 0 < w) (row : s.y < h) :
    (s.newRow blank).OnScreen := by
  unfold Window.newRow
  split
  · rename_i room
    exact ⟨wide, room⟩
  · exact ⟨wide, row⟩

/-- What is written leaves the rest of the screen clear. -/
theorem Clear.write {s : Window h w α} (clear : s.Clear blank) (on : s.OnScreen) (stroke : Option α) :
    (s.write blank stroke).Clear blank ∧ (s.write blank stroke).OnScreen := by
  obtain ⟨column, row⟩ := on
  have wide : 0 < w := Nat.zero_lt_of_lt column
  have below (a : α) (j : Fin h) (i : Fin w) (after : s.y < j.val) :
      (s.drawAt s.y s.x a).cells j i = blank := by
    have other : ¬ (j.val = s.y ∧ i.val = s.x) := by omega
    simp only [drawAt, other, if_false]
    exact clear j i (Or.inl after)
  cases stroke with
  | none => exact ⟨.newRow fun j i after => clear j i (Or.inl after), .newRow wide row⟩
  | some a =>
    unfold Window.write
    simp only
    split
    · rename_i room
      refine ⟨fun j i after => ?_, room, row⟩
      simp only at after
      rcases after with under | ⟨same, right⟩
      · exact below a j i under
      · have other : ¬ (j.val = s.y ∧ i.val = s.x) := by omega
        change (s.drawAt s.y s.x a).cells j i = blank
        simp only [drawAt, other, if_false]
        exact clear j i (Or.inr ⟨same, by omega⟩)
    · exact ⟨.newRow (below a), .newRow wide row⟩

theorem undraw_place (s : Window h w α) : (s.undraw blank).x = s.x ∧ (s.undraw blank).y = s.y := by
  unfold undraw
  split <;> exact ⟨rfl, rfl⟩

theorem Clear.undraw {s : Window h w α} (clear : s.Clear blank) (on : s.OnScreen) :
    (s.undraw blank).Clear blank ∧ (s.undraw blank).OnScreen := by
  obtain ⟨column, row⟩ := undraw_place s
  refine ⟨fun j i after => ?_, column ▸ on.1, row ▸ on.2⟩
  rw [row, column] at after
  have old := clear j i after
  unfold Window.undraw
  split
  · simp only [drawCursor, drawAt]
    grind
  · simp only [drawCursor, drawAt]
    grind

theorem Clear.back {s : Window h w α} (clear : s.Clear blank) (on : s.OnScreen) :
    (s.back blank).Clear blank ∧ (s.back blank).OnScreen := by
  obtain ⟨column, row⟩ := on
  unfold Window.back
  split
  · exact ⟨clear, column, row⟩
  split
  · refine ⟨fun j i after => ?_, ?_⟩
    · simp only [drawCursor, drawAt] at after ⊢
      have inRow := i.isLt
      by_cases here : j.val = s.y - 1 ∧ i.val = w - 1
      · rw [if_pos here]
      · rw [if_neg here]
        exact clear j i (by omega)
    · simp only [drawCursor, drawAt, OnScreen]
      omega
  · refine ⟨fun j i after => ?_, ?_⟩
    · simp only [drawCursor, drawAt] at after ⊢
      by_cases here : j.val = s.y ∧ i.val = s.x - 1
      · rw [if_pos here]
      · rw [if_neg here]
        exact clear j i (by omega)
    · simp only [drawCursor, drawAt, OnScreen]
      omega

/-- A character takes the place of the mark. -/
theorem Blinks.write (twins : Blinks blank mark b p) (a : α) :
    Blinks blank mark (b.write blank (some a)) (p.write blank (some a)) := by
  obtain ⟨text, _, clear, on⟩ := twins
  have same : b.write blank (some a) = p.write blank (some a) := by
    subst text
    have drawn : (b.drawCursor blank).drawAt b.y b.x a = b.drawAt b.y b.x a :=
      b.drawCursor_drawCursor blank a
    change _ = if b.x + 1 < w then { (b.drawCursor blank).drawAt b.y b.x a with x := b.x + 1 }
      else ((b.drawCursor blank).drawAt b.y b.x a).newRow blank
    rw [drawn]
    rfl
  obtain ⟨nextClear, nextOn⟩ := clear.write on (some a)
  rw [same]
  exact .refl nextClear nextOn

/-- After `undraw` there is no mark. -/
theorem Blinks.undraw_eq (twins : Blinks blank mark b p) : b.undraw blank = p.undraw blank := by
  have text := twins.text
  subst text
  have drawn := b.drawCursor_drawCursor blank blank
  change _ = if b.x + 1 < w then ((b.drawCursor blank).drawCursor blank).drawAt b.y (b.x + 1) blank
    else ((b.drawCursor blank).drawCursor blank).drawAt (b.y + 1) 0 blank
  rw [drawn]
  rfl

theorem Blinks.undraw (twins : Blinks blank mark b p) :
    Blinks blank mark (b.undraw blank) (p.undraw blank) := by
  obtain ⟨cleared, on⟩ := twins.clear.undraw twins.on
  rw [twins.undraw_eq]
  exact .refl cleared on

theorem Blinks.undraw_undrawn (twins : Blinks blank mark b p) (visible : mark ≠ blank) :
    ¬ Drawn mark (b.undraw blank) := by
  rintro ⟨j, i, row, column, marked⟩
  rw [twins.undraw_eq] at row column marked
  have cleared := (twins.clear.undraw twins.on).1 j i (Or.inr ⟨row, Nat.le_of_eq column.symm⟩)
  exact visible (marked.symm.trans cleared)

/-- A line break without a mark at the cursor. -/
theorem Blinks.lineBreak (twins : Blinks blank mark b p) (undrawn : ¬ Drawn mark b) :
    Blinks blank mark (b.write blank none) (p.write blank none) := by
  obtain ⟨nextClear, nextOn⟩ := twins.clear.write twins.on none
  rw [twins.eq undrawn]
  exact .refl nextClear nextOn

/-- A rubout with its clean-up takes the mark away with the character. -/
theorem Blinks.rubOut (twins : Blinks blank mark b p) :
    Blinks blank mark ((b.back blank).undraw blank) ((p.back blank).undraw blank) := by
  have same : (b.back blank).undraw blank = (p.back blank).undraw blank := by
    by_cases start : b.y = 0 ∧ b.x = 0
    · have place := twins.sameText
      have stays : p.y = 0 ∧ p.x = 0 := ⟨place.y ▸ start.1, place.x ▸ start.2⟩
      rw [back, back, if_pos start, if_pos stays]
      exact twins.undraw_eq
    · have text := twins.text
      obtain ⟨column, _⟩ := twins.on
      subst text
      have later : ¬ ((b.drawCursor blank).y = 0 ∧ (b.drawCursor blank).x = 0) := start
      rw [back, back, if_neg start, if_neg later]
      by_cases first : b.x = 0
      · have wide : 0 < w := by omega
        have last : ¬ w - 1 + 1 < w := by omega
        have firstToo : (b.drawCursor blank).x = 0 := first
        rw [if_pos first, if_pos firstToo]
        simp only [Window.undraw, drawCursor, drawAt, last, if_false]
        congr 1
        funext j i
        grind
      · have inRow : b.x - 1 + 1 < w := by
          change b.x < w at column
          omega
        have firstToo : ¬ (b.drawCursor blank).x = 0 := first
        rw [if_neg first, if_neg firstToo]
        simp only [Window.undraw, drawCursor, drawAt, inRow, if_true]
        congr 1
        funext j i
        grind
  obtain ⟨cleared, on⟩ := twins.clear.back twins.on
  obtain ⟨nextClear, nextOn⟩ := cleared.undraw on
  rw [same]
  exact .refl nextClear nextOn

theorem Blinks.wipe (tall : 0 < h) (wide : 0 < w) :
    Blinks blank mark (Window.wipe blank : Window h w α) (Window.wipe blank) :=
  .refl (fun _ _ _ => rfl) ⟨wide, tall⟩

/-- A line break leaves a mark behind, where it stays in sight. -/
theorem Blinks.stray (twins : Blinks blank mark b p) (tall : 1 < h) (visible : mark ≠ blank)
    (drawn : Drawn mark b) : ¬ SameText (b.write blank none) (p.write blank none) := by
  intro same
  obtain ⟨j, i, row, column, marked⟩ := drawn
  obtain ⟨sameX, sameY, _⟩ := twins.sameText
  have before : p.cells j i = blank := twins.clear j i (Or.inr ⟨by omega, by omega⟩)
  by_cases room : b.y + 1 < h
  · have roomToo : p.y + 1 < h := by rwa [← sameY]
    have kept := same.cells j i
    simp only [Window.write, Window.newRow, if_pos room, if_pos roomToo] at kept
    refine visible (marked.symm.trans ((kept ?_).trans before))
    omega
  · have roomToo : ¬ p.y + 1 < h := by rwa [← sameY]
    have inside := j.isLt
    obtain ⟨up, sum⟩ : ∃ up : Fin h, up.val + 1 = j.val := ⟨⟨j.val - 1, by omega⟩, by simp; omega⟩
    have below : up.val + 1 < h := by omega
    have lifted : (⟨up.val + 1, below⟩ : Fin h) = j := Fin.ext sum
    have kept := same.cells up i
    simp only [Window.write, Window.newRow, if_neg room, if_neg roomToo, scroll, below, dite_true,
      lifted] at kept
    refine visible (marked.symm.trans ((kept ?_).trans before))
    omega

end Twins

end Window

end Scroll
