import Mathlib.Data.List.Basic

namespace Scroll

/-- Paper without an end, and the place of the next character. -/
@[ext] structure Paper (α : Type*) where
  cells : Nat → Nat → α
  row : Nat
  col : Nat

/-- A display of `h` rows and `w` columns with its cursor. -/
@[ext] structure Window (h w : Nat) (α : Type*) where
  cells : Fin h → Fin w → α
  x : Nat
  y : Nat

variable {α : Type*} {h w : Nat}

namespace Paper

def newRow (p : Paper α) : Paper α := { p with row := p.row + 1, col := 0 }

/-- A character is put down at the cursor, which moves on by one column. -/
def draw (p : Paper α) (a : α) : Paper α where
  cells r i := if r = p.row ∧ i = p.col then a else p.cells r i
  row := p.row
  col := p.col + 1

/-- A character, or a line break for `none`. -/
def write (w : Nat) (p : Paper α) : Option α → Paper α
  | none => p.newRow
  | some a => if p.col + 1 < w then p.draw a else (p.draw a).newRow

def writeAll (w : Nat) (p : Paper α) (strokes : List (Option α)) : Paper α :=
  strokes.foldl (write w) p

/-- The first of the last `h` rows down to the one with the cursor. -/
def top (h : Nat) (p : Paper α) : Nat := p.row - (h - 1)

/-- The `h` rows from `top` on. -/
def window (h w : Nat) (p : Paper α) : Window h w α where
  cells j i := p.cells (p.top h + j) i
  x := p.col
  y := p.row - p.top h

/-- Nothing has been written below the window. -/
structure Fresh (h w : Nat) (blank : α) (p : Paper α) : Prop where
  column : p.col < w
  below : ∀ r i, p.top h + h ≤ r → p.cells r i = blank

end Paper

namespace Window

/-- The rows move up by one; the top one is lost, the bottom one is blank. -/
def scroll (blank : α) (s : Window h w α) : Window h w α where
  cells j i := if below : j.val + 1 < h then s.cells ⟨j.val + 1, below⟩ i else blank
  x := s.x
  y := s.y

/-- The cell at `(y, x)`, if there is one, is overwritten. -/
def drawAt (s : Window h w α) (y x : Nat) (a : α) : Window h w α where
  cells j i := if j.val = y ∧ i.val = x then a else s.cells j i
  x := s.x
  y := s.y

def newRow (blank : α) (s : Window h w α) : Window h w α :=
  if s.y + 1 < h then { s with x := 0, y := s.y + 1 } else { s.scroll blank with x := 0 }

def write (blank : α) (s : Window h w α) : Option α → Window h w α
  | none => s.newRow blank
  | some a =>
    if s.x + 1 < w then { s.drawAt s.y s.x a with x := s.x + 1 }
    else (s.drawAt s.y s.x a).newRow blank

def writeAll (blank : α) (s : Window h w α) (strokes : List (Option α)) : Window h w α :=
  strokes.foldl (write blank) s

def OnScreen (s : Window h w α) : Prop := s.x < w ∧ s.y < h

/-- Paper that starts with what the display shows. -/
def paper (blank : α) (s : Window h w α) : Paper α where
  cells r i := if inside : r < h ∧ i < w then s.cells ⟨r, inside.1⟩ ⟨i, inside.2⟩ else blank
  row := s.y
  col := s.x

theorem OnScreen.top {s : Window h w α} (on : s.OnScreen) (blank : α) : (s.paper blank).top h = 0 := by
  obtain ⟨_, row⟩ := on
  simp only [Paper.top, paper]
  omega

theorem OnScreen.fresh {s : Window h w α} (on : s.OnScreen) (blank : α) :
    (s.paper blank).Fresh h w blank where
  column := on.1
  below := by
    intro r i outside
    rw [on.top blank] at outside
    have beyond : ¬ (r < h ∧ i < w) := by omega
    simp only [paper, beyond, dite_false]

theorem OnScreen.window_paper {s : Window h w α} (on : s.OnScreen) (blank : α) :
    (s.paper blank).window h w = s := by
  have first := on.top blank
  ext j i
  · simp only [Paper.window, first, Nat.zero_add]
    simp [paper]
  · rfl
  · simp only [Paper.window, first]
    rfl

end Window

namespace Paper

variable {blank : α} {p : Paper α}

theorem top_newRow (p : Paper α) : p.newRow.top h = if p.row + 1 < h then p.top h else p.top h + 1 := by
  simp only [top, newRow]
  split <;> omega

/-- A new row of the paper is a new row of its window, which scrolls exactly
when the cursor is on its last row. -/
theorem window_newRow (tall : 0 < h) (below : ∀ r i, p.top h + h ≤ r → p.cells r i = blank) :
    p.newRow.window h w = (p.window h w).newRow blank := by
  have place : p.top h = p.row - (h - 1) := rfl
  have next := p.top_newRow (h := h)
  by_cases room : p.row + 1 < h
  · rw [if_pos room] at next
    have stays : (p.window h w).y + 1 < h := by
      simp only [window]
      omega
    rw [Window.newRow, if_pos stays]
    ext j i
    · simp only [window, next]
      rfl
    · rfl
    · simp only [window, next]
      simp only [newRow]
      omega
  · rw [if_neg room] at next
    have leaves : ¬ (p.window h w).y + 1 < h := by
      simp only [window]
      omega
    rw [Window.newRow, if_neg leaves]
    ext j i
    · simp only [window, next, Window.scroll]
      change p.cells (p.top h + 1 + j) i = _
      split
      · rw [Nat.add_assoc, Nat.add_comm 1]
      · exact below _ _ (by omega)
    · rfl
    · simp only [window, next, Window.scroll]
      simp only [newRow]
      omega

theorem window_draw (p : Paper α) (a : α) : (p.draw a).window h w =
    { (p.window h w).drawAt (p.window h w).y (p.window h w).x a with x := p.col + 1 } := by
  ext j i
  · have same : p.top h + j = p.row ↔ (j : Nat) = p.row - p.top h := by
      simp only [top]
      omega
    simp only [window, draw, Window.drawAt, ← same]
    rfl
  · rfl
  · rfl

theorem Fresh.below_draw (fresh : p.Fresh h w blank) (tall : 0 < h) (a : α) (r i : Nat)
    (beyond : (p.draw a).top h + h ≤ r) : (p.draw a).cells r i = blank := by
  have other : r ≠ p.row := by
    simp only [top, draw] at beyond
    omega
  simp only [draw, other, false_and, if_false]
  exact fresh.below r i beyond

/-- The window of the paper is what a display of its size shows. -/
theorem window_write (tall : 0 < h) (fresh : p.Fresh h w blank) (stroke : Option α) :
    (p.write w stroke).window h w = (p.window h w).write blank stroke := by
  cases stroke with
  | none => exact window_newRow tall fresh.below
  | some a =>
    have drawn := fresh.below_draw tall a
    have column : (p.window h w).x = p.col := rfl
    simp only [write, Window.write, column]
    split
    · exact p.window_draw a
    · rw [window_newRow tall drawn, window_draw]
      rfl

theorem Fresh.newRow {p : Paper α} (wide : 0 < w)
    (below : ∀ r i, p.top h + h ≤ r → p.cells r i = blank) : p.newRow.Fresh h w blank where
  column := wide
  below := by
    intro r i beyond
    have lower : p.top h ≤ p.newRow.top h := by
      simp only [top, Paper.newRow]
      omega
    exact below r i (by omega)

theorem Fresh.write (tall : 0 < h) (fresh : p.Fresh h w blank) (stroke : Option α) :
    (p.write w stroke).Fresh h w blank := by
  have wide : 0 < w := Nat.zero_lt_of_lt fresh.column
  cases stroke with
  | none => exact Fresh.newRow wide fresh.below
  | some a =>
    have drawn := fresh.below_draw tall a
    simp only [Paper.write]
    split
    · rename_i room
      exact ⟨room, drawn⟩
    · exact Fresh.newRow wide drawn

theorem window_writeAll (tall : 0 < h) (fresh : p.Fresh h w blank) (strokes : List (Option α)) :
    (p.writeAll w strokes).window h w = (p.window h w).writeAll blank strokes := by
  induction strokes generalizing p with
  | nil => rfl
  | cons stroke rest ih =>
    have later := ih (fresh.write tall stroke)
    rw [window_write tall fresh] at later
    exact later

end Paper

/-- A display that scrolls is the window of an endless paper. -/
theorem Window.OnScreen.writeAll {s : Window h w α} (on : s.OnScreen) (blank : α)
    (strokes : List (Option α)) :
    s.writeAll blank strokes = ((s.paper blank).writeAll w strokes).window h w := by
  have tall : 0 < h := Nat.zero_lt_of_lt on.2
  rw [Paper.window_writeAll tall (on.fresh blank), on.window_paper blank]

end Scroll
