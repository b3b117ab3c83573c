import UnixLite.Kernel
import UnixLite.Library.Store

namespace UnixLite

/-- `VIDEO`, the page the hardware shows; also the page of `temp`. -/
def video : Nat := 0xB8000

/-- `TERM_1_VID` to `TERM_3_VID`: where the screen of a terminal that is not
shown is kept, `TERMINAL_ONE_VIDMEM_IDX << 12` and so on. -/
def termVid (t : Fin 3) : Nat := 0xB9000 + 0x1000 * t.val

/-- `vid_mem_pages[]` -/
def vidMemPages : Nat → Nat
  | 0 => video
  | 1 => 0xB9000
  | 2 => 0xBA000
  | _ => 0xBB000

/-- The address of a character cell of the page at `vid`. -/
def cell (vid y x : Nat) : Nat := vid + 2 * (80 * y + x)

/-- A character and its attribute byte. -/
def drawCell (vid y x : Nat) (c : UInt8) (m : Nat → UInt8) : Nat → UInt8 :=
  Function.update (Function.update m (cell vid y x) c) (cell vid y x + 1) 7

/-- The body of the copying loops of `shift_screen`. -/
def shiftCell (vid j : Nat) (m : Nat → UInt8) (i : Nat) : Nat → UInt8 :=
  let m := Function.update m (cell vid (j - 1) i) (m (cell vid j i))
  Function.update m (cell vid (j - 1) i + 1) (m (cell vid j i + 1))

def shiftRow (vid : Nat) (m : Nat → UInt8) (j : Nat) : Nat → UInt8 :=
  (List.range 80).foldl (shiftCell vid j) m

def shiftScreen (vid : Nat) (m : Nat → UInt8) : Nat → UInt8 :=
  let m := (List.range' 1 24).foldl (shiftRow vid) m
  (List.range 80).foldl (fun m i => drawCell vid 24 i 32 m) m

def clear (m : Nat → UInt8) : Nat → UInt8 :=
  (List.range 2000).foldl (fun m i => drawCell video 0 i 32 m) m

/-- The memory and the cursor that a console routine works on. -/
structure Console where
  mem : Nat → UInt8
  x : Nat
  y : Nat

namespace Console

/-- A character cell is written and the cursor moves on; past column 79 of
the last row the screen scrolls and the cursor stays on that row. -/
def place (vid : Nat) (c : UInt8) (s : Console) : Console :=
  let s := { s with mem := drawCell vid s.y s.x c s.mem, x := s.x + 1 }
  let s := if s.y = 24 ∧ s.x ≥ 80 then { s with mem := shiftScreen vid s.mem, x := 0 } else s
  { s with y := (s.y + s.x / 80) % 25, x := s.x % 80 }

/-- The scrolling at the end of `putc` and `put_key`. -/
def keepOnScreen (vid : Nat) (s : Console) : Console :=
  if s.y ≥ 25 then { s with mem := shiftScreen vid s.mem, y := 24 } else s

/-- The common body of `putc` and `put_key`, on the page at `vid`. -/
def put (vid : Nat) (c : UInt8) (s : Console) : Console :=
  (if c = 10 ∨ c = 13 then { s with y := s.y + 1, x := 0 } else s.place vid c).keepOnScreen vid

def checkCursor (s : Console) : Console :=
  { s with mem := drawCell video s.y (s.x + 1) 32 (drawCell video s.y s.x 32 s.mem) }

def remc (s : Console) : Console :=
  if s.y = 0 ∧ s.x = 0 then s
  else
    let s := if s.x = 0 then { s with y := s.y - 1, x := 79 } else { s with x := s.x - 1 }
    { s with mem := drawCell video s.y s.x 32 s.mem }

def clearScreen (s : Console) : Console := { mem := clear s.mem, x := 0, y := 0 }

/-- A cursor on the 80 by 25 screen. -/
def OnScreen (s : Console) : Prop := s.x < 80 ∧ s.y < 25

end Console

namespace Kernel

def console (k : Kernel) (t : Fin 3) : Console :=
  ⟨k.mem, (k.terminals t).cursorX, (k.terminals t).cursorY⟩

def setConsole (k : Kernel) (t : Fin 3) (s : Console) : Kernel :=
  ({ k with mem := s.mem }).setTerm t fun u => { u with cursorX := s.x, cursorY := s.y }

def setVidmemPage (k : Kernel) (index : Nat) : Kernel := { k with videoMem := vidMemPages index }

/-- Output of the running process, at the cursor of the active terminal. -/
def putc (k : Kernel) (c : UInt8) : Kernel :=
  k.setConsole k.ta ((k.console k.ta).put k.videoMem c)

/-- Echo of a key, at the cursor of the shown terminal. -/
def putKey (k : Kernel) (c : UInt8) : Kernel :=
  k.setConsole k.ts ((k.console k.ts).put video c)

def checkCursor (k : Kernel) : Kernel := k.setConsole k.ts (k.console k.ts).checkCursor

def remc (k : Kernel) : Kernel := k.setConsole k.ts (k.console k.ts).remc

def clearScreen (k : Kernel) : Kernel := k.setConsole k.ts (k.console k.ts).clearScreen

theorem setConsole_ttyOnly (k : Kernel) (t : Fin 3) (s : Console) :
    TtyOnly k (k.setConsole t s) := by
  constructor <;> intros <;> try rfl
  rename_i u
  by_cases same : u = t <;> simp [setConsole, setTerm, same]

theorem setConsole_sameLines (k : Kernel) (t : Fin 3) (s : Console) :
    SameLines k (k.setConsole t s) := by
  constructor <;> intros <;> try rfl
  all_goals
    rename_i u
    by_cases same : u = t <;> simp [setConsole, setTerm, same]

end Kernel

open Store

/-- The bytes of a video page; the screen takes the first 4000. -/
abbrev PageWrites (vid : Nat) (m m' : Nat → UInt8) : Prop := Within vid 4096 m m'

/-- Column 80 is allowed: `check_cursor` writes one cell past the cursor. -/
theorem drawCell_page {vid y x : Nat} {c : UInt8} {m : Nat → UInt8} (inside : 80 * y + x ≤ 2000) :
    PageWrites vid m (drawCell vid y x c m) := by
  refine ((Within.refl vid 4096 m).update _ ?_).update _ ?_ <;> unfold cell <;> omega

theorem shiftScreen_page (vid : Nat) (m : Nat → UInt8) : PageWrites vid m (shiftScreen vid m) := by
  have rows : PageWrites vid m ((List.range' 1 24).foldl (shiftRow vid) m) := by
    apply Within.foldl
    intro j inRows m
    apply Within.foldl
    intro i inRow m
    simp only [List.mem_range'_1] at inRows
    rw [List.mem_range] at inRow
    refine ((Within.refl vid 4096 m).update _ ?_).update _ ?_ <;> unfold cell <;> omega
  refine rows.trans (Within.foldl _ _ ?_ _)
  intro i inRow m
  rw [List.mem_range] at inRow
  exact drawCell_page (by omega)

theorem clear_page (m : Nat → UInt8) : PageWrites video m (clear m) := by
  apply Within.foldl
  intro i inScreen m
  rw [List.mem_range] at inScreen
  exact drawCell_page (by omega)

namespace Console

theorem place_page {s : Console} (on : s.OnScreen) (vid : Nat) (c : UInt8) :
    PageWrites vid s.mem (s.place vid c).mem := by
  obtain ⟨xb, yb⟩ := on
  have drawn : PageWrites vid s.mem (drawCell vid s.y s.x c s.mem) := drawCell_page (by omega)
  by_cases corner : s.y = 24 ∧ s.x + 1 ≥ 80
  · simp only [place, corner]
    exact (corner.1 ▸ drawn).trans (shiftScreen_page vid _)
  · simpa only [place, corner, if_false] using drawn

theorem place_onScreen (s : Console) (on : s.OnScreen) (vid : Nat) (c : UInt8) :
    (s.place vid c).OnScreen := by
  obtain ⟨xb, yb⟩ := on
  by_cases corner : s.y = 24 ∧ s.x + 1 ≥ 80
  · simp [place, corner, OnScreen]
  · simp only [place, corner, if_false, OnScreen]
    omega

theorem keepOnScreen_page (s : Console) (vid : Nat) :
    PageWrites vid s.mem (s.keepOnScreen vid).mem := by
  unfold keepOnScreen
  split
  · exact shiftScreen_page vid s.mem
  · exact Within.refl vid 4096 s.mem

theorem keepOnScreen_onScreen {s : Console} (column : s.x < 80) (vid : Nat) :
    (s.keepOnScreen vid).OnScreen := by
  unfold keepOnScreen OnScreen
  split
  · exact ⟨column, by simp⟩
  · exact ⟨column, by omega⟩

theorem put_page {s : Console} (on : s.OnScreen) (vid : Nat) (c : UInt8) :
    PageWrites vid s.mem (s.put vid c).mem := by
  unfold put
  by_cases line : c = 10 ∨ c = 13
  · simp only [line, if_true]
    exact keepOnScreen_page { s with y := s.y + 1, x := 0 } vid
  · simp only [line, if_false]
    exact (place_page on vid c).trans (keepOnScreen_page _ vid)

theorem put_onScreen {s : Console} (on : s.OnScreen) (vid : Nat) (c : UInt8) :
    (s.put vid c).OnScreen := by
  unfold put
  by_cases line : c = 10 ∨ c = 13
  · simp only [line, if_true]
    exact keepOnScreen_onScreen (by simp) vid
  · simp only [line, if_false]
    exact keepOnScreen_onScreen (place_onScreen s on vid c).1 vid

theorem checkCursor_page {s : Console} (on : s.OnScreen) : PageWrites video s.mem s.checkCursor.mem := by
  obtain ⟨xb, yb⟩ := on
  exact (drawCell_page (by omega)).trans (drawCell_page (by omega))

theorem remc_page {s : Console} (on : s.OnScreen) : PageWrites video s.mem s.remc.mem := by
  obtain ⟨xb, yb⟩ := on
  unfold remc
  split
  · exact Within.refl video 4096 s.mem
  · split <;> exact drawCell_page (by simp; omega)

theorem remc_onScreen {s : Console} (on : s.OnScreen) : s.remc.OnScreen := by
  obtain ⟨xb, yb⟩ := on
  unfold remc OnScreen
  split
  · exact ⟨xb, yb⟩
  · split <;> simp <;> omega

theorem clearScreen_page (s : Console) : PageWrites video s.mem s.clearScreen.mem := by
  have page := clear_page s.mem
  simpa only [clearScreen] using page

theorem clearScreen_onScreen (s : Console) : s.clearScreen.OnScreen := by
  simp [clearScreen, OnScreen]

end Console

end UnixLite
