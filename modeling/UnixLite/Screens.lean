import UnixLite.Boot
import UnixLite.Library.Paper

namespace UnixLite

open Store Scroll

/-- The character and the attribute byte of each cell of the page at `vid`. -/
def shownCells (vid : Nat) (m : Nat → UInt8) (j : Fin 25) (i : Fin 80) : UInt8 × UInt8 :=
  (m (cell vid j i), m (cell vid j i + 1))

/-- What `clear_screen` and `shift_screen` leave in a cell. -/
def blankCell : UInt8 × UInt8 := (32, 7)

/-- What a byte asks the console for. -/
def stroke (c : UInt8) : Option (UInt8 × UInt8) := if c = 10 ∨ c = 13 then none else some (c, 7)

theorem stroke_none {c : UInt8} : stroke c = none ↔ c = 10 ∨ c = 13 := by
  unfold stroke
  split <;> simp_all

theorem shownCells_draw {vid y x : Nat} {c : UInt8} {m : Nat → UInt8} (j : Fin 25) (i : Fin 80) :
    shownCells vid (drawCell vid y x c m) j i =
      if 80 * j.val + i.val = 80 * y + x then (c, 7) else shownCells vid m j i := by
  by_cases here : 80 * j.val + i.val = 80 * y + x
  · rw [if_pos here]
    have same : cell vid j i = cell vid y x := by
      unfold cell
      omega
    simp [shownCells, drawCell, same]
  · rw [if_neg here]
    have first : cell vid j i ≠ cell vid y x ∧ cell vid j i ≠ cell vid y x + 1 := by
      unfold cell
      omega
    have second : cell vid j i + 1 ≠ cell vid y x ∧ cell vid j i + 1 ≠ cell vid y x + 1 := by
      unfold cell
      omega
    simp only [shownCells, drawCell, Function.update_of_ne first.1, Function.update_of_ne first.2,
      Function.update_of_ne second.1, Function.update_of_ne second.2]

/-- A loop that draws the first `n` cells of a row, or of the rows behind it. -/
theorem fillCells_shown {vid y n : Nat} {m : Nat → UInt8} (j : Fin 25) (i : Fin 80) :
    shownCells vid ((List.range n).foldl (fun m i => drawCell vid y i 32 m) m) j i =
      if 80 * y ≤ 80 * j.val + i.val ∧ 80 * j.val + i.val < 80 * y + n then blankCell
      else shownCells vid m j i := by
  induction n with
  | zero =>
    have none : ¬ (80 * y ≤ 80 * j.val + i.val ∧ 80 * j.val + i.val < 80 * y + 0) := by omega
    rw [if_neg none]
    rfl
  | succ n ih =>
    rw [List.range_succ, List.foldl_append, List.foldl_cons, List.foldl_nil, shownCells_draw, ih]
    by_cases last : 80 * j.val + i.val = 80 * y + n
    · rw [if_pos last, if_pos (by omega)]
      rfl
    · rw [if_neg last]
      have same : (80 * y ≤ 80 * j.val + i.val ∧ 80 * j.val + i.val < 80 * y + (n + 1)) ↔
          (80 * y ≤ 80 * j.val + i.val ∧ 80 * j.val + i.val < 80 * y + n) := by omega
      simp only [same]

/-- The copying of `n` cells of row `j` into the row above. -/
theorem shiftCells_copy (vid j n : Nat) (m : Nat → UInt8) (below : 1 ≤ j) (short : n ≤ 80) :
    (List.range n).foldl (shiftCell vid j) m =
      blockCopy m (cell vid (j - 1) 0) (cell vid j 0) (2 * n) := by
  induction n with
  | zero =>
    funext a
    exact (blockCopy_outside (by omega)).symm
  | succ n ih =>
    rw [List.range_succ, List.foldl_append, List.foldl_cons, List.foldl_nil, ih (by omega)]
    have row : cell vid j 0 = cell vid (j - 1) 0 + 160 := by
      unfold cell
      omega
    have target : cell vid (j - 1) n = cell vid (j - 1) 0 + 2 * n := by
      unfold cell
      omega
    have source : cell vid j n = cell vid (j - 1) 0 + 160 + 2 * n := by
      unfold cell
      omega
    funext a
    simp only [shiftCell, row, target, source]
    generalize cell vid (j - 1) 0 = start
    by_cases second : a = start + 2 * n + 1
    · subst second
      rw [Function.update_self, Function.update_of_ne (by omega), blockCopy_outside (by omega),
        Nat.add_assoc start (2 * n) 1, blockCopy_inside (by omega)]
      congr 1
    · rw [Function.update_of_ne second]
      by_cases first : a = start + 2 * n
      · subst first
        rw [Function.update_self, blockCopy_outside (by omega), blockCopy_inside (by omega)]
      · rw [Function.update_of_ne first]
        unfold blockCopy
        have same : (start ≤ a ∧ a < start + 2 * (n + 1)) ↔ (start ≤ a ∧ a < start + 2 * n) := by omega
        simp only [same]

/-- The rows copied one after the other are one copy of them all: a row is
read before it is written. -/
theorem shiftRows_copy (vid n : Nat) (m : Nat → UInt8) :
    (List.range' 1 n).foldl (shiftRow vid) m = blockCopy m vid (vid + 160) (160 * n) := by
  induction n with
  | zero =>
    funext a
    exact (blockCopy_outside (by omega)).symm
  | succ n ih =>
    rw [List.range'_1_concat, List.foldl_append, List.foldl_cons, List.foldl_nil, ih, shiftRow,
      shiftCells_copy vid (1 + n) 80 _ (by omega) (by omega)]
    have target : cell vid (1 + n - 1) 0 = vid + 160 * n := by
      unfold cell
      omega
    have source : cell vid (1 + n) 0 = vid + 160 * n + 160 := by
      unfold cell
      omega
    rw [target, source]
    funext a
    unfold blockCopy
    grind

theorem shiftScreen_shown (vid : Nat) (m : Nat → UInt8) (j : Fin 25) (i : Fin 80) :
    shownCells vid (shiftScreen vid m) j i =
      if below : j.val + 1 < 25 then shownCells vid m ⟨j.val + 1, below⟩ i else blankCell := by
  simp only [shiftScreen, fillCells_shown, shiftRows_copy]
  by_cases below : j.val + 1 < 25
  · rw [dif_pos below, if_neg (by omega)]
    have start : cell vid j i = vid + (160 * j.val + 2 * i.val) := by
      unfold cell
      omega
    have source : vid + 160 + (160 * j.val + 2 * i.val) = cell vid (j.val + 1) i := by
      unfold cell
      omega
    have copied (b : Nat) (small : b < 2) : blockCopy m vid (vid + 160) (160 * 24) (cell vid j i + b) =
        m (cell vid (j.val + 1) i + b) := by
      rw [start, Nat.add_assoc vid, blockCopy_inside (by omega), ← source, Nat.add_assoc (vid + 160)]
    exact Prod.ext (copied 0 (by omega)) (copied 1 (by omega))
  · rw [dif_neg below, if_pos (by omega)]

namespace Console

/-- The screen on the page at `vid`. -/
def window (vid : Nat) (s : Console) : Window 25 80 (UInt8 × UInt8) where
  cells := shownCells vid s.mem
  x := s.x
  y := s.y

theorem window_scroll (vid : Nat) (s : Console) :
    ({ s with mem := shiftScreen vid s.mem } : Console).window vid = (s.window vid).scroll blankCell := by
  simp only [window, Window.scroll]
  congr 1
  funext j i
  exact shiftScreen_shown vid s.mem j i

theorem window_newRow {vid : Nat} {s : Console} (row : s.y < 25) :
    ({ s with y := s.y + 1, x := 0 }.keepOnScreen vid).window vid = (s.window vid).newRow blankCell := by
  have place : (s.window vid).y = s.y := rfl
  unfold keepOnScreen Window.newRow
  rw [place]
  by_cases room : s.y + 1 < 25
  · rw [if_neg (by simp; omega), if_pos room]
    rfl
  · have last : s.y = 24 := by omega
    rw [if_pos (by simp; omega), if_neg room, ← window_scroll]
    simp only [window, last]

theorem window_drawCell {vid : Nat} {s : Console} (column : s.x < 80) (c : UInt8) :
    ({ s with mem := drawCell vid s.y s.x c s.mem } : Console).window vid =
      (s.window vid).drawAt s.y s.x (c, 7) := by
  simp only [window, Window.drawAt]
  congr 1
  funext j i
  have same : 80 * j.val + i.val = 80 * s.y + s.x ↔ j.val = s.y ∧ i.val = s.x := by omega
  simp only [shownCells_draw, same]

/-- Where a character leaves the cursor. In the last cell of the screen it
scrolls, at the end of another row it does what a line break does. -/
theorem put_place {vid : Nat} {s : Console} (on : s.OnScreen) (c : UInt8) :
    (s.place vid c).keepOnScreen vid =
      if s.x + 1 < 80 then ⟨drawCell vid s.y s.x c s.mem, s.x + 1, s.y⟩
      else keepOnScreen vid ⟨drawCell vid s.y s.x c s.mem, 0, s.y + 1⟩ := by
  obtain ⟨column, row⟩ := on
  by_cases room : s.x + 1 < 80
  · have inRow : ¬ (s.y = 24 ∧ s.x + 1 ≥ 80) := by omega
    have sameRow : (s.y + (s.x + 1) / 80) % 25 = s.y := by omega
    have sameColumn : (s.x + 1) % 80 = s.x + 1 := by omega
    have shown : ¬ s.y ≥ 25 := by omega
    simp only [place, inRow, if_false, room, if_true, sameRow, sameColumn, keepOnScreen, shown]
  · have last : s.x + 1 = 80 := by omega
    by_cases corner : s.y = 24
    · simp [place, keepOnScreen, corner, last]
    · have inRows : ¬ (s.y = 24 ∧ 80 ≥ 80) := by omega
      have nextRow : (s.y + 80 / 80) % 25 = s.y + 1 := by omega
      have shown : ¬ s.y + 1 ≥ 25 := by omega
      simp only [place, last, ge_iff_le, inRows, if_false, nextRow, keepOnScreen, Nat.mod_self,
        Nat.lt_irrefl]

/-- One byte of output, on memory and on the display. -/
theorem window_put {vid : Nat} {s : Console} (on : s.OnScreen) (c : UInt8) :
    (s.put vid c).window vid = (s.window vid).write blankCell (stroke c) := by
  obtain ⟨column, row⟩ := on
  by_cases break_ : c = 10 ∨ c = 13
  · simp only [put, stroke, break_, if_true]
    exact window_newRow row
  have drawn : ({ s with mem := drawCell vid s.y s.x c s.mem } : Console).window vid = _ :=
    window_drawCell column c
  have place : (s.window vid).x = s.x ∧ (s.window vid).y = s.y := ⟨rfl, rfl⟩
  simp only [put, stroke, break_, if_false, Window.write, place.1, place.2, ← drawn]
  rw [put_place ⟨column, row⟩]
  split
  · rfl
  · exact window_newRow row (s := { s with mem := drawCell vid s.y s.x c s.mem })

end Console

namespace Kernel

/-- The screen on the page at `vid`, with the cursor of terminal `t`. -/
def window (k : Kernel) (vid : Nat) (t : Fin 3) : Window 25 80 (UInt8 × UInt8) :=
  (k.console t).window vid

theorem window_setConsole (k : Kernel) (t : Fin 3) (s : Console) (vid : Nat) :
    (k.setConsole t s).window vid t = s.window vid := by
  simp [window, console, setConsole, setTerm]

/-- Output of one byte at the cursor of terminal `t`, on the page at `vid`. -/
def putAt (vid : Nat) (t : Fin 3) (k : Kernel) (c : UInt8) : Kernel :=
  k.setConsole t ((k.console t).put vid c)

theorem putAt_window {k : Kernel} {vid : Nat} {t : Fin 3} (on : (k.console t).OnScreen)
    (bytes : List UInt8) : (bytes.foldl (putAt vid t) k).window vid t =
      (k.window vid t).writeAll blankCell (bytes.map stroke) := by
  induction bytes generalizing k with
  | nil => rfl
  | cons c rest ih =>
    have next : (k.putAt vid t c).console t = (k.console t).put vid c := by
      simp [putAt, console, setConsole, setTerm]
    have later := ih (k := k.putAt vid t c) (by rw [next]; exact Console.put_onScreen on vid c)
    rw [putAt, window_setConsole, Console.window_put on] at later
    exact later

/-- `putc` keeps to one terminal and one page. -/
theorem putc_foldl (bytes : List UInt8) (k : Kernel) :
    bytes.foldl putc k = bytes.foldl (putAt k.videoMem k.ta) k := by
  induction bytes generalizing k with
  | nil => rfl
  | cons c rest ih => exact ih (k.putc c)

theorem putKey_foldl (bytes : List UInt8) (k : Kernel) :
    bytes.foldl putKey k = bytes.foldl (putAt video k.ts) k := by
  induction bytes generalizing k with
  | nil => rfl
  | cons c rest ih => exact ih (k.putKey c)

/-- What the paper console makes of a screen and some bytes. -/
def paperConsole (s : Window 25 80 (UInt8 × UInt8)) (bytes : List UInt8) :
    Window 25 80 (UInt8 × UInt8) :=
  ((s.paper blankCell).writeAll 80 (bytes.map stroke)).window 25 80

theorem putAt_paper {k : Kernel} {vid : Nat} {t : Fin 3} (on : (k.console t).OnScreen)
    (bytes : List UInt8) :
    (bytes.foldl (putAt vid t) k).window vid t = paperConsole (k.window vid t) bytes := by
  have shown : (k.window vid t).OnScreen := on
  rw [putAt_window on, shown.writeAll]
  rfl

end Kernel

open Kernel

/-- The console is the endless paper, seen through a window of 25 rows, for all
three ways of writing to it. -/
theorem paper_console {k : Kernel} {t : Fin 3} (on : (k.console t).OnScreen) (bytes : List UInt8) :
    (k.ta = t → (bytes.foldl putc k).window k.videoMem t = paperConsole (k.window k.videoMem t) bytes) ∧
    (k.ta = t → ∀ buf src nbytes, buf ≠ 0 → 0 ≤ nbytes.toInt →
      bytes = (List.range nbytes.toInt.toNat).map src →
      (k.terminalWrite buf src nbytes).1.window k.videoMem t =
          paperConsole (k.window k.videoMem t) bytes ∧
        (k.terminalWrite buf src nbytes).2 = bytes.length) ∧
    (k.ts = t → (bytes.foldl putKey k).window video t = paperConsole (k.window video t) bytes) := by
  have output (active : k.ta = t) : (bytes.foldl putc k).window k.videoMem t =
      paperConsole (k.window k.videoMem t) bytes := by
    rw [putc_foldl, active]
    exact putAt_paper on bytes
  refine ⟨output, ?_, ?_⟩
  · intro active buf src nbytes mapped count same
    have valid : ¬ (buf = 0 ∨ nbytes.toInt < 0) := by omega
    have written := output active
    rw [same, List.foldl_map] at written
    simp only [terminalWrite, valid, if_false]
    constructor
    · rw [same]
      exact written
    · rw [same, List.length_map, List.length_range]
      omega
  · intro shown
    rw [putKey_foldl, shown]
    exact putAt_paper on bytes

/-- A row and some more of the next one, line feeds past the last row, a character. -/
def scrollingText : List UInt8 := List.replicate 85 72 ++ List.replicate 25 10 ++ [73]

/-- It is written to the cleared screen of the sample in all three ways: it
wraps once and scrolls twice. -/
theorem paper_console_sample :
    (scrollingText.foldl putc sampleEntry).window video 0 =
        paperConsole (sampleEntry.window video 0) scrollingText ∧
      (sampleEntry.terminalWrite 1 (fun i => scrollingText.getD i 0) 111).1.window video 0 =
        paperConsole (sampleEntry.window video 0) scrollingText ∧
      (scrollingText.foldl putKey sampleEntry).window video 0 =
        paperConsole (sampleEntry.window video 0) scrollingText ∧
      (paperConsole (sampleEntry.window video 0) scrollingText).x = 1 ∧
      (paperConsole (sampleEntry.window video 0) scrollingText).y = 24 ∧
      ((paperConsole (sampleEntry.window video 0) scrollingText).cells 24 0).1 = 73 ∧
      ((paperConsole (sampleEntry.window video 0) scrollingText).cells 0 0).1 = 32 := by
  have on : (sampleEntry.console 0).OnScreen := ⟨by decide, by decide⟩
  obtain ⟨output, write, echo⟩ := paper_console on scrollingText
  have place : (paperConsole (sampleEntry.window video 0) scrollingText).x = 1 ∧
      (paperConsole (sampleEntry.window video 0) scrollingText).y = 24 ∧
      ((paperConsole (sampleEntry.window video 0) scrollingText).cells 24 0).1 = 73 ∧
      ((paperConsole (sampleEntry.window video 0) scrollingText).cells 0 0).1 = 32 := by
    decide +kernel
  exact ⟨output rfl, (write rfl 1 (fun i => scrollingText.getD i 0) 111 (by decide) (by decide) (by decide)).1,
    echo rfl, place⟩

end UnixLite
