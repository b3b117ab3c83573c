import UnixLite.Library.Blink

namespace Scroll

variable {α : Type*} {h w : Nat} {blank : α}

namespace Window

/-- The number of cells before the cursor, row after row. -/
def place (s : Window h w α) : Nat := w * s.y + s.x

/-- Cell `n` in reading order holds `a`. -/
def Reads (s : Window h w α) (n : Nat) (a : α) : Prop := ∃ j i, w * j.val + i.val = n ∧ s.cells j i = a

/-- The cells by which the screen moves up when a character is written. -/
def scrolled (s : Window h w α) : Nat := if s.y + 1 = h ∧ s.x + 1 = w then w else 0

/-- The cells from `start` up to the cursor hold `text`. -/
structure Mirrors (start : Nat) (text : List α) (s : Window h w α) : Prop where
  place : s.place = start + text.length
  cells : ∀ i (inside : i < text.length), s.Reads (start + i) text[i]

/-- Row and column are told apart by the place. -/
theorem place_inj {y x y' x' : Nat} (column : x < w) (column' : x' < w) :
    w * y + x = w * y' + x' ↔ y = y' ∧ x = x' := by
  constructor
  · intro same
    have quotient := congrArg (· / w) same
    simp only [Nat.mul_add_div (Nat.zero_lt_of_lt column), Nat.div_eq_of_lt column, Nat.div_eq_of_lt column',
      Nat.add_zero] at quotient
    subst quotient
    exact ⟨rfl, by omega⟩
  · rintro ⟨rfl, rfl⟩
    rfl

theorem OnScreen.place_lt {s : Window h w α} (on : s.OnScreen) : s.place < w * h := by
  obtain ⟨column, row⟩ := on
  have rows : w * (s.y + 1) ≤ w * h := Nat.mul_le_mul_left w row
  rw [Nat.mul_add, Nat.mul_one] at rows
  unfold Window.place
  omega

/-- The last cell of the screen is the one where it scrolls. -/
theorem OnScreen.last_iff {s : Window h w α} (on : s.OnScreen) :
    s.place + 1 = w * h ↔ s.y + 1 = h ∧ s.x + 1 = w := by
  obtain ⟨column, row⟩ := on
  have bottomRow (bottom : s.y + 1 = h) : w * s.y + w = w * h := congrArg (w * ·) bottom
  unfold Window.place
  constructor
  · intro last
    by_cases bottom : s.y + 1 = h
    · have rows := bottomRow bottom
      exact ⟨bottom, by omega⟩
    · have rows : w * (s.y + 2) ≤ w * h := Nat.mul_le_mul_left w (by omega)
      rw [Nat.mul_add] at rows
      omega
  · rintro ⟨bottom, last⟩
    have rows := bottomRow bottom
    omega

theorem Reads.drawAt {s : Window h w α} {n y x : Nat} {a c : α} (reads : s.Reads n a) (column : x < w)
    (other : n ≠ w * y + x) : (s.drawAt y x c).Reads n a := by
  obtain ⟨j, i, rfl, held⟩ := reads
  refine ⟨j, i, rfl, ?_⟩
  have elsewhere : ¬ (j.val = y ∧ i.val = x) := fun same => other ((place_inj i.isLt column).mpr same)
  simp only [Window.drawAt, elsewhere, if_false]
  exact held

theorem reads_drawAt {s : Window h w α} {y x : Nat} (row : y < h) (column : x < w) (c : α) :
    (s.drawAt y x c).Reads (w * y + x) c :=
  ⟨⟨y, row⟩, ⟨x, column⟩, rfl, by simp [Window.drawAt]⟩

theorem Reads.scroll {s : Window h w α} {n : Nat} {a : α} (reads : s.Reads (n + w) a) :
    (s.scroll blank).Reads n a := by
  obtain ⟨j, i, same, held⟩ := reads
  have below : j.val ≠ 0 := by
    intro first
    have column := i.isLt
    rw [first] at same
    omega
  have above : j.val - 1 + 1 = j.val := by omega
  have split : w * (j.val - 1) + w = w * j.val := by rw [← Nat.mul_succ, Nat.succ_eq_add_one, above]
  refine ⟨⟨j.val - 1, by omega⟩, i, by simp only; omega, ?_⟩
  have inside : j.val - 1 + 1 < h := by omega
  simp only [Window.scroll, inside, dite_true]
  rw [← held]
  congr 1
  exact Fin.ext above

theorem OnScreen.write {s : Window h w α} (on : s.OnScreen) (a : α) :
    (s.write blank (some a)).OnScreen := by
  obtain ⟨column, row⟩ := on
  simp only [Window.write]
  split
  · rename_i room
    exact ⟨room, row⟩
  · exact OnScreen.newRow (Nat.zero_lt_of_lt column) row

/-- A character moves the cursor on by one cell, over what it scrolls. -/
theorem OnScreen.write_place {s : Window h w α} (on : s.OnScreen) (a : α) :
    (s.write blank (some a)).place + s.scrolled = s.place + 1 := by
  obtain ⟨column, row⟩ := on
  simp only [Window.write]
  by_cases room : s.x + 1 < w
  · have still : s.scrolled = 0 := if_neg (by omega)
    rw [if_pos room, still]
    simp only [Window.place, Window.drawAt]
    omega
  · rw [if_neg room, Window.newRow]
    by_cases below : s.y + 1 < h
    · have still : s.scrolled = 0 := if_neg (by omega)
      have inside : (s.drawAt s.y s.x a).y + 1 < h := below
      rw [if_pos inside, still]
      simp only [Window.place, Window.drawAt, Nat.mul_add]
      omega
    · have moves : s.scrolled = w := if_pos (by omega)
      have last : ¬ (s.drawAt s.y s.x a).y + 1 < h := below
      rw [if_neg last, moves]
      simp only [Window.place, Window.drawAt, Window.scroll]
      omega

/-- After a write the strip reads as with the character drawn, moved by what scrolled. -/
theorem OnScreen.write_drawn {s : Window h w α} (on : s.OnScreen) (a : α) {n : Nat} {b : α}
    (reads : (s.drawAt s.y s.x a).Reads (n + s.scrolled) b) : (s.write blank (some a)).Reads n b := by
  obtain ⟨column, row⟩ := on
  simp only [Window.write]
  by_cases room : s.x + 1 < w
  · have still : s.scrolled = 0 := if_neg (by omega)
    rw [still] at reads
    rw [if_pos room]
    exact reads
  · rw [if_neg room, Window.newRow]
    by_cases below : s.y + 1 < h
    · have still : s.scrolled = 0 := if_neg (by omega)
      have inside : (s.drawAt s.y s.x a).y + 1 < h := below
      rw [still] at reads
      rw [if_pos inside]
      exact reads
    · have moves : s.scrolled = w := if_pos (by omega)
      have last : ¬ (s.drawAt s.y s.x a).y + 1 < h := below
      rw [moves] at reads
      rw [if_neg last]
      exact Reads.scroll (s := s.drawAt s.y s.x a) reads

/-- It goes to the cell of the cursor, the others keep theirs. -/
theorem OnScreen.write_reads {s : Window h w α} (on : s.OnScreen) (a : α) :
    (∀ n, n + s.scrolled = s.place → (s.write blank (some a)).Reads n a) ∧
      ∀ n b, n + s.scrolled ≠ s.place → s.Reads (n + s.scrolled) b → (s.write blank (some a)).Reads n b := by
  refine ⟨fun n here => on.write_drawn a ?_, fun n b other reads => on.write_drawn a (reads.drawAt on.1 other)⟩
  rw [here]
  exact reads_drawAt on.2 on.1 a

/-- The cursor goes back by one cell from any but the first. -/
theorem OnScreen.back_place {s : Window h w α} (on : s.OnScreen) (inside : 0 < s.place) :
    (s.back blank).place + 1 = s.place := by
  obtain ⟨column, row⟩ := on
  unfold Window.place at inside
  unfold Window.back
  by_cases first : s.y = 0 ∧ s.x = 0
  · simp [first] at inside
  rw [if_neg first]
  by_cases left : s.x = 0
  · have split : w * s.y = w * (s.y - 1) + w := by
      rw [← Nat.mul_succ, Nat.succ_eq_add_one]
      congr 1
      omega
    rw [if_pos left]
    simp only [Window.place, Window.drawCursor, Window.drawAt]
    omega
  · rw [if_neg left]
    simp only [Window.place, Window.drawCursor, Window.drawAt]
    omega

theorem OnScreen.back {s : Window h w α} (on : s.OnScreen) : (s.back blank).OnScreen := by
  obtain ⟨column, row⟩ := on
  unfold Window.back
  split
  · exact ⟨column, row⟩
  split
  · exact ⟨by simp [drawCursor, drawAt]; omega, by simp [drawCursor, drawAt]; omega⟩
  · exact ⟨by simp [drawCursor, drawAt]; omega, row⟩

/-- Of the cells before the cursor it blanks the last one. -/
theorem OnScreen.back_reads {s : Window h w α} (on : s.OnScreen) {n : Nat} {a : α}
    (before : n + 1 < s.place) (reads : s.Reads n a) : (s.back blank).Reads n a := by
  have place := @OnScreen.back_place _ _ _ blank s on (by omega)
  obtain ⟨column, row⟩ := @OnScreen.back _ _ _ blank s on
  unfold Window.place at before
  unfold Window.back at place column ⊢
  split
  · exact reads
  rename_i first
  rw [if_neg first] at place column
  split at place
  · rename_i left
    rw [if_pos left] at column ⊢
    have cursor : w * (s.y - 1) + (w - 1) + 1 = w * s.y + s.x := place
    exact Reads.drawAt (s := { s with x := w - 1, y := s.y - 1 }) reads column
      (show n ≠ w * (s.y - 1) + (w - 1) by omega)
  · rename_i right
    rw [if_neg right] at column ⊢
    have cursor : w * s.y + (s.x - 1) + 1 = w * s.y + s.x := place
    exact Reads.drawAt (s := { s with x := s.x - 1 }) reads column
      (show n ≠ w * s.y + (s.x - 1) by omega)

/-- The cursor is undrawn behind the text. -/
theorem OnScreen.undraw_reads {s : Window h w α} (on : s.OnScreen) {n : Nat} {a : α}
    (before : n < s.place) (reads : s.Reads n a) : (s.undraw blank).Reads n a := by
  obtain ⟨column, row⟩ := on
  unfold Window.place at before
  unfold Window.undraw
  have drawn : (s.drawCursor blank).Reads n a := reads.drawAt column (by omega)
  split
  · rename_i room
    exact drawn.drawAt room (by omega)
  · exact drawn.drawAt (Nat.zero_lt_of_lt column) (by rw [Nat.mul_add]; omega)

section Mirrors

variable {s : Window h w α} {start : Nat} {text : List α} {a : α}

/-- A character is typed, where the screen has room for the text and a row. -/
theorem Mirrors.type (mirrors : Mirrors start text s) (on : s.OnScreen) (room : text.length + 1 + w ≤ w * h) :
    s.scrolled ≤ start ∧ Mirrors (start - s.scrolled) (text ++ [a]) (s.write blank (some a)) := by
  have place := mirrors.place
  have fits : s.scrolled ≤ start := by
    have last := on.last_iff
    unfold scrolled
    split
    · rename_i corner
      have full := last.mpr corner
      omega
    · exact Nat.zero_le _
  have next := @OnScreen.write_place _ _ _ blank s on a
  obtain ⟨here, others⟩ := @OnScreen.write_reads _ _ _ blank s on a
  refine ⟨fits, ?_, ?_⟩
  · rw [List.length_append, List.length_singleton]
    omega
  · intro i inside
    rw [List.length_append, List.length_singleton] at inside
    by_cases last : i = text.length
    · subst last
      rw [List.getElem_append_right (Nat.le_refl _)]
      simp only [Nat.sub_self, List.getElem_singleton]
      exact here _ (by omega)
    · rw [List.getElem_append_left (by omega)]
      refine others _ _ (by omega) ?_
      have same : start - s.scrolled + i + s.scrolled = start + i := by omega
      rw [same]
      exact mirrors.cells i (by omega)

/-- The last character is rubbed out. -/
theorem Mirrors.rubOut (mirrors : Mirrors start (text ++ [a]) s) (on : s.OnScreen) :
    Mirrors start text ((s.back blank).undraw blank) := by
  have place := mirrors.place
  rw [List.length_append, List.length_singleton] at place
  have back := @OnScreen.back_place _ _ _ blank s on (by omega)
  obtain ⟨column, row⟩ := @undraw_place _ _ _ blank (s.back blank)
  refine ⟨?_, fun i inside => ?_⟩
  · rw [Window.place, column, row]
    exact Nat.add_right_cancel (back.trans place)
  · have stored := mirrors.cells i (by rw [List.length_append, List.length_singleton]; omega)
    rw [List.getElem_append_left inside] at stored
    exact on.back.undraw_reads (by omega) (on.back_reads (by omega) stored)

theorem Mirrors.wipe : Mirrors 0 [] (Window.wipe blank : Window h w α) :=
  ⟨rfl, fun _ inside => absurd inside (Nat.not_lt_zero _)⟩

/-- A text is typed, where the screen has room for it and a row. -/
theorem Mirrors.typeAll (mirrors : Mirrors start text s) (on : s.OnScreen) (more : List α)
    (room : text.length + more.length + w ≤ w * h) :
    (s.writeAll blank (more.map some)).OnScreen ∧
      ∃ moved, Mirrors moved (text ++ more) (s.writeAll blank (more.map some)) := by
  induction more generalizing s start text with
  | nil =>
    rw [List.append_nil]
    exact ⟨on, start, mirrors⟩
  | cons c rest ih =>
    rw [List.length_cons] at room
    obtain ⟨_, typed⟩ := @Mirrors.type _ _ _ blank s start text c mirrors on (by omega)
    have shorter : (text ++ [c]).length + rest.length + w ≤ w * h := by
      rw [List.length_append, List.length_singleton]
      omega
    have later := ih typed (on.write c) shorter
    rw [List.append_assoc] at later
    exact later

end Mirrors

section Holds

variable {s : Window h w α} {start slack : Nat} {text : List α}

/-- The cells from `start` on hold `text`, wherever the cursor is. -/
def Holds (start : Nat) (text : List α) (s : Window h w α) : Prop :=
  ∀ i (inside : i < text.length), s.Reads (start + i) text[i]

/-- A line break keeps a text that the cursor is not far behind. -/
theorem Holds.newRow (holds : Holds start text s) (on : s.OnScreen)
    (behind : s.place ≤ start + text.length + slack) (room : text.length + slack + 2 * w ≤ w * h) :
    ∃ moved, Holds moved text (s.newRow blank) ∧
      (s.newRow blank).place ≤ moved + text.length + (slack + w) := by
  obtain ⟨column, row⟩ := on
  unfold Window.newRow
  unfold Window.place at behind
  by_cases below : s.y + 1 < h
  · rw [if_pos below]
    refine ⟨start, fun i inside => holds i inside, ?_⟩
    simp only [Window.place, Nat.mul_add]
    omega
  · rw [if_neg below]
    have bottom : s.y + 1 = h := by omega
    have rows : w * s.y + w = w * h := congrArg (w * ·) bottom
    refine ⟨start - w, fun i inside => ?_, ?_⟩
    · have same : start - w + i + w = start + i := by omega
      have reads := holds i inside
      rw [← same] at reads
      exact Reads.scroll (s := s) reads
    · simp only [Window.place, Window.scroll]
      omega

theorem Holds.newRows (holds : Holds start text s) (on : s.OnScreen)
    (behind : s.place ≤ start + text.length + slack) (breaks : Nat)
    (room : text.length + slack + (breaks + 1) * w ≤ w * h) :
    ∃ moved, Holds moved text (s.writeAll blank (List.replicate breaks none)) := by
  induction breaks generalizing s start slack with
  | zero => exact ⟨start, holds⟩
  | succ breaks ih =>
    have split : (breaks + 1 + 1) * w = (breaks + 1) * w + w := Nat.succ_mul _ w
    have more : (breaks + 1) * w = breaks * w + w := Nat.succ_mul _ w
    obtain ⟨moved, kept, place⟩ := @Holds.newRow _ _ _ blank s start slack text holds on behind (by omega)
    exact ih kept (OnScreen.newRow (Nat.zero_lt_of_lt on.1) on.2) place (by omega)

/-- A text and the line breaks behind it, written anywhere on a screen that
has room for them. -/
theorem OnScreen.holds_written (on : s.OnScreen) (text : List α) (breaks : Nat)
    (room : text.length + (breaks + 1) * w ≤ w * h) :
    ∃ start, Holds start text (s.writeAll blank (text.map some ++ List.replicate breaks none)) := by
  have empty : Mirrors s.place [] s := ⟨rfl, fun _ inside => absurd inside (Nat.not_lt_zero _)⟩
  have one : (breaks + 1) * w = breaks * w + w := Nat.succ_mul _ w
  obtain ⟨stays, start, mirrors⟩ := @Mirrors.typeAll _ _ _ blank s s.place [] empty on text
    (by rw [List.length_nil]; omega)
  rw [Window.writeAll, List.foldl_append]
  exact @Holds.newRows _ _ _ blank _ start 0 text mirrors.cells stays (Nat.le_of_eq mirrors.place) breaks
    (by omega)

end Holds

end Window

end Scroll
