import UnixLite.Blinking

namespace UnixLite

open Store Transition

/-- Memory with the numbers of the cells that a routine has written, counted
from the page address it was given. Nothing keeps a number on the screen. -/
structure Cells where
  mem : Nat → UInt8
  written : List Int

namespace Cells

/-- A character and its attribute, at `vid + (i << 1)`. -/
def draw (vid : Nat) (i : Int) (c : UInt8) (p : Cells) : Cells where
  mem := Function.update (Function.update p.mem (vid + 2 * i).toNat c) (vid + 2 * i + 1).toNat 7
  written := i :: p.written

/-- A cell copied over another one, first the character. -/
def copy (vid : Nat) (dst src : Int) (p : Cells) : Cells :=
  let m := Function.update p.mem (vid + 2 * dst).toNat (p.mem (vid + 2 * src).toNat)
  ⟨Function.update m (vid + 2 * dst + 1).toNat (m (vid + 2 * src + 1).toNat), dst :: p.written⟩

def shiftScreen (vid : Nat) (p : Cells) : Cells :=
  let p := (List.range' 1 24).foldl (fun p (j : Nat) => (List.range 80).foldl (fun p (i : Nat) =>
    p.copy vid (80 * ((j : Int) - 1) + i) (80 * j + i)) p) p
  (List.range 80).foldl (fun p (i : Nat) => p.draw vid (80 * 24 + i) 32) p

/-- `clear`, which works on the page of `temp`. -/
def clear (p : Cells) : Cells := (List.range 2000).foldl (fun p (i : Nat) => p.draw video i 32) p

/-- Every cell written is one of the screen's. -/
def InScreen (p : Cells) : Prop := ∀ i ∈ p.written, 0 ≤ i ∧ i < 2000

end Cells

/-- What a console routine works on, with the cursor as the `int` it is. -/
structure Tty where
  cells : Cells
  x : Int
  y : Int

namespace Tty

/-- The cell of the cursor. -/
def here (s : Tty) : Int := 80 * s.y + s.x

def place (vid : Nat) (c : UInt8) (s : Tty) : Tty :=
  let s := { s with cells := s.cells.draw vid s.here c, x := s.x + 1 }
  let s := if s.y = 24 ∧ s.x ≥ 80 then { s with cells := s.cells.shiftScreen vid, x := 0 } else s
  { s with y := (s.y + s.x.tdiv 80).tmod 25, x := s.x.tmod 80 }

def keepOnScreen (vid : Nat) (s : Tty) : Tty :=
  if s.y ≥ 25 then { s with cells := s.cells.shiftScreen vid, y := 24 } else s

/-- The common body of `putc` and `put_key`. -/
def put (vid : Nat) (c : UInt8) (s : Tty) : Tty :=
  (if c = 10 ∨ c = 13 then { s with y := s.y + 1, x := 0 } else s.place vid c).keepOnScreen vid

/-- `put_cursor` with `'_'` and `rem_cursor` with a blank. -/
def drawCursor (c : UInt8) (s : Tty) : Tty := { s with cells := s.cells.draw video s.here c }

def checkCursor (s : Tty) : Tty :=
  { s with cells := (s.cells.draw video s.here 32).draw video (s.here + 1) 32 }

def remc (s : Tty) : Tty :=
  if s.y = 0 ∧ s.x = 0 then s
  else
    let s := if s.x = 0 then { s with y := s.y - 1, x := 79 } else { s with x := s.x - 1 }
    { s with cells := s.cells.draw video s.here 32 }

def clearScreen (s : Tty) : Tty := ⟨s.cells.clear, 0, 0⟩

/-- The memory and the cursor are those of a console, all of whose cells so
far have been the screen's. -/
structure Follows (s : Tty) (c : Console) : Prop where
  mem : s.cells.mem = c.mem
  x : s.x = c.x
  y : s.y = c.y

end Tty

/-- The memory, the cursors, the two terminals in charge and `video_mem`. -/
structure Ttys where
  mem : Nat → UInt8
  x : Fin 3 → Int
  y : Fin 3 → Int
  ts : Fin 3
  ta : Fin 3
  videoMem : Nat

/-- The console routines, and a change of the terminals that they work on. -/
inductive TtyAct
  | putc (c : UInt8)
  | putKey (c : UInt8)
  | remc
  | checkCursor
  | putCursor
  | remCursor
  | clearScreen
  | select (ts ta : Fin 3) (index : Fin 4)

namespace Ttys

/-- A routine at the cursor of terminal `t`, and the cells that it writes. -/
def on (s : Ttys) (t : Fin 3) (routine : Tty → Tty) : Ttys × List Int :=
  let r := routine ⟨⟨s.mem, []⟩, s.x t, s.y t⟩
  ({ s with
    mem := r.cells.mem
    x := Function.update s.x t r.x
    y := Function.update s.y t r.y }, r.cells.written)

def perform (s : Ttys) : TtyAct → Ttys × List Int
  | .putc c => s.on s.ta (Tty.put s.videoMem c)
  | .putKey c => s.on s.ts (Tty.put video c)
  | .remc => s.on s.ts Tty.remc
  | .checkCursor => s.on s.ts Tty.checkCursor
  | .putCursor => s.on s.ts (Tty.drawCursor 95)
  | .remCursor => s.on s.ts (Tty.drawCursor 32)
  | .clearScreen => s.on s.ts Tty.clearScreen
  | .select ts ta index => ({ s with ts := ts, ta := ta, videoMem := vidMemPages index }, [])

def Step (s : Ttys) (l : TtyAct × List Int) (s' : Ttys) : Prop := s.perform l.1 = (s', l.2)

/-- The acts performed one after the other, with the steps recorded. -/
def performAll (acts : List TtyAct) (first : Ttys) :
    Option (List (Event Ttys (TtyAct × List Int)) × Ttys) :=
  replay (fun s act => some ((act, (s.perform act).2), (s.perform act).1)) acts ([], first)

theorem performAll_run {acts : List TtyAct} {first : Ttys}
    {result : List (Event Ttys (TtyAct × List Int)) × Ttys} (done : performAll acts first = some result) :
    Run Step first result.1 result.2 := by
  refine replay_run (fun s act l s' taken => ?_) .start done
  cases taken
  rfl

def CursorsOnScreen (s : Ttys) : Prop := ∀ t, 0 ≤ s.x t ∧ s.x t < 80 ∧ 0 ≤ s.y t ∧ s.y t < 25

/-- The shown cursor is in the bottom right corner. -/
def InLastCell (s : Ttys) : Prop := s.x s.ts = 79 ∧ s.y s.ts = 24

/-- The console part of the kernel. -/
def of (k : Kernel) : Ttys where
  mem := k.mem
  x t := (k.terminals t).cursorX
  y t := (k.terminals t).cursorY
  ts := k.ts
  ta := k.ta
  videoMem := k.videoMem

end Ttys

namespace Cells

theorem inScreen_draw {vid : Nat} {i : Int} {c : UInt8} {p : Cells} :
    (p.draw vid i c).InScreen ↔ (0 ≤ i ∧ i < 2000) ∧ p.InScreen := List.forall_mem_cons

theorem inScreen_copy {vid : Nat} {dst src : Int} {p : Cells} :
    (p.copy vid dst src).InScreen ↔ (0 ≤ dst ∧ dst < 2000) ∧ p.InScreen := List.forall_mem_cons

theorem InScreen.foldl {β : Type} (body : Cells → β → Cells) (items : List β)
    (one : ∀ b ∈ items, ∀ p : Cells, p.InScreen → (body p b).InScreen) {p : Cells} (inside : p.InScreen) :
    (items.foldl body p).InScreen := by
  induction items generalizing p with
  | nil => exact inside
  | cons b rest ih =>
    have head := one b (List.mem_cons_self ..) p inside
    exact ih (fun c member => one c (List.mem_cons_of_mem _ member)) head

theorem shiftScreen_inScreen (vid : Nat) {p : Cells} (inside : p.InScreen) :
    (p.shiftScreen vid).InScreen := by
  refine InScreen.foldl _ _ ?_ (InScreen.foldl _ _ ?_ inside)
  · intro i inRow p old
    rw [List.mem_range] at inRow
    exact inScreen_draw.mpr ⟨by omega, old⟩
  · intro j inRows p old
    refine InScreen.foldl _ _ ?_ old
    intro i inRow p old
    simp only [List.mem_range'_1] at inRows
    rw [List.mem_range] at inRow
    exact inScreen_copy.mpr ⟨by omega, old⟩

theorem clear_inScreen {p : Cells} (inside : p.InScreen) : p.clear.InScreen := by
  refine InScreen.foldl _ _ ?_ inside
  intro i inRange p old
  rw [List.mem_range] at inRange
  exact inScreen_draw.mpr ⟨by omega, old⟩

/-- The two bytes of a cell. -/
theorem cell_bytes (vid : Nat) {y x : Nat} {i : Int} (place : i = 80 * y + x) :
    (vid + 2 * i).toNat = cell vid y x ∧ (vid + 2 * i + 1).toNat = cell vid y x + 1 := by
  unfold cell
  omega

theorem draw_mem {vid y x : Nat} {i : Int} (place : i = 80 * y + x) (c : UInt8) (p : Cells) :
    (p.draw vid i c).mem = drawCell vid y x c p.mem := by
  obtain ⟨char, attribute_⟩ := cell_bytes vid place
  simp only [draw, drawCell, char, attribute_]

theorem copy_mem (vid : Nat) {j : Nat} (below : 1 ≤ j) (i : Nat) (p : Cells) :
    (p.copy vid (80 * ((j : Int) - 1) + i) (80 * j + i)).mem = shiftCell vid j p.mem i := by
  have above : 80 * ((j : Int) - 1) + i = 80 * (j - 1 : Nat) + i := by omega
  obtain ⟨target, targetNext⟩ := cell_bytes vid above
  obtain ⟨source, sourceNext⟩ := @cell_bytes vid j i _ rfl
  simp only [copy, shiftCell, target, targetNext, source, sourceNext]

/-- A loop on cells does to the memory what the loop on memory does. -/
theorem foldl_mem {β : Type} {body : Cells → β → Cells} {step : (Nat → UInt8) → β → Nat → UInt8}
    (items : List β) (one : ∀ b ∈ items, ∀ p : Cells, (body p b).mem = step p.mem b) (p : Cells) :
    (items.foldl body p).mem = items.foldl step p.mem := by
  induction items generalizing p with
  | nil => rfl
  | cons b rest ih =>
    rw [List.foldl_cons, List.foldl_cons, ih fun c member => one c (List.mem_cons_of_mem _ member),
      one b (List.mem_cons_self ..)]

theorem shiftScreen_mem (vid : Nat) (p : Cells) :
    (p.shiftScreen vid).mem = UnixLite.shiftScreen vid p.mem := by
  have blank (i : Nat) (p : Cells) : (p.draw vid (80 * 24 + i) 32).mem = drawCell vid 24 i 32 p.mem :=
    draw_mem (by omega) 32 p
  have rows : ((List.range' 1 24).foldl (fun p (j : Nat) => (List.range 80).foldl (fun p (i : Nat) =>
      p.copy vid (80 * ((j : Int) - 1) + i) (80 * j + i)) p) p).mem =
      (List.range' 1 24).foldl (shiftRow vid) p.mem := by
    refine foldl_mem _ (fun j inRows p => ?_) p
    rw [List.mem_range'_1] at inRows
    exact foldl_mem _ (fun i _ p => copy_mem vid inRows.1 i p) p
  have bottom (p : Cells) : ((List.range 80).foldl (fun p (i : Nat) => p.draw vid (80 * 24 + i) 32) p).mem =
      (List.range 80).foldl (fun m i => drawCell vid 24 i 32 m) p.mem :=
    foldl_mem _ (fun i _ p => blank i p) p
  rw [shiftScreen, UnixLite.shiftScreen, bottom, rows]

theorem clear_mem (p : Cells) : p.clear.mem = UnixLite.clear p.mem :=
  foldl_mem _ (fun i _ p => draw_mem (y := 0) (x := i) (by omega) 32 p) p

end Cells

namespace Tty

variable {s : Tty} {c : Console}

theorem Follows.here (follows : s.Follows c) : s.here = 80 * c.y + c.x := by
  rw [Tty.here, follows.x, follows.y]

theorem Follows.draw {vid : Nat} (follows : s.Follows c) (char : UInt8) :
    (s.cells.draw vid s.here char).mem = drawCell vid c.y c.x char c.mem := by
  rw [Cells.draw_mem follows.here, follows.mem]

theorem Follows.scroll {vid : Nat} (follows : s.Follows c) :
    (s.cells.shiftScreen vid).mem = shiftScreen vid c.mem := by
  rw [Cells.shiftScreen_mem, follows.mem]

/-- A character is drawn at the cursor, which is on the screen. -/
theorem Follows.place {vid : Nat} {char : UInt8} (follows : s.Follows c) (on : c.OnScreen) :
    (s.place vid char).Follows (c.place vid char) ∧
      (s.cells.InScreen → (s.place vid char).cells.InScreen) := by
  obtain ⟨column, row⟩ := on
  have here := follows.here
  have drawn : s.cells.InScreen → (s.cells.draw vid s.here char).InScreen :=
    fun inside => Cells.inScreen_draw.mpr ⟨by omega, inside⟩
  have x := follows.x
  have y := follows.y
  by_cases corner : c.y = 24 ∧ c.x + 1 ≥ 80
  · have cornerHere : s.y = 24 ∧ s.x + 1 ≥ 80 := by omega
    simp only [Tty.place, Console.place, corner, cornerHere, and_self, if_true]
    refine ⟨⟨?_, rfl, rfl⟩, fun inside => Cells.shiftScreen_inScreen vid (drawn inside)⟩
    simp only [Cells.shiftScreen_mem, follows.draw, corner.1]
  · have cornerHere : ¬ (s.y = 24 ∧ s.x + 1 ≥ 80) := by omega
    simp only [Tty.place, Console.place, corner, cornerHere, if_false]
    refine ⟨⟨follows.draw char, ?_, ?_⟩, drawn⟩
    · change (s.x + 1).tmod 80 = ((c.x + 1) % 80 : Nat)
      rw [x, Int.tmod_eq_emod_of_nonneg (by omega)]
      omega
    · change (s.y + (s.x + 1).tdiv 80).tmod 25 = ((c.y + (c.x + 1) / 80) % 25 : Nat)
      rw [x, y, Int.tdiv_eq_ediv_of_nonneg (by omega), Int.tmod_eq_emod_of_nonneg (by omega)]
      omega

theorem Follows.keepOnScreen {vid : Nat} (follows : s.Follows c) :
    (s.keepOnScreen vid).Follows (c.keepOnScreen vid) ∧
      (s.cells.InScreen → (s.keepOnScreen vid).cells.InScreen) := by
  have y := follows.y
  by_cases beyond : c.y ≥ 25
  · have beyondHere : s.y ≥ 25 := by omega
    simp only [Tty.keepOnScreen, Console.keepOnScreen, beyond, beyondHere, if_true]
    exact ⟨⟨follows.scroll, follows.x, rfl⟩, Cells.shiftScreen_inScreen vid⟩
  · have beyondHere : ¬ s.y ≥ 25 := by omega
    simp only [Tty.keepOnScreen, Console.keepOnScreen, beyond, beyondHere, if_false]
    exact ⟨follows, id⟩

theorem Follows.put {vid : Nat} (follows : s.Follows c) (on : c.OnScreen) (char : UInt8) :
    (s.put vid char).Follows (c.put vid char) ∧
      (s.cells.InScreen → (s.put vid char).cells.InScreen) := by
  unfold Tty.put Console.put
  by_cases break_ : char = 10 ∨ char = 13
  · rw [if_pos break_, if_pos break_]
    have lower : Follows { s with y := s.y + 1, x := 0 } { c with y := c.y + 1, x := 0 } :=
      ⟨follows.mem, rfl, by rw [follows.y]; rfl⟩
    exact lower.keepOnScreen
  · rw [if_neg break_, if_neg break_]
    obtain ⟨placed, drawn⟩ := follows.place on
    obtain ⟨kept, scrolled⟩ := placed.keepOnScreen
    exact ⟨kept, fun inside => scrolled (drawn inside)⟩

theorem Follows.drawCursor (follows : s.Follows c) (on : c.OnScreen) (char : UInt8) :
    (s.drawCursor char).Follows (c.drawCursor char) ∧
      (s.cells.InScreen → (s.drawCursor char).cells.InScreen) := by
  obtain ⟨column, row⟩ := on
  have here := follows.here
  exact ⟨⟨follows.draw char, follows.x, follows.y⟩,
    fun inside => Cells.inScreen_draw.mpr ⟨by omega, inside⟩⟩

/-- The second cell of `check_cursor` is the screen's unless the first is its last. -/
theorem Follows.checkCursor (follows : s.Follows c) (on : c.OnScreen) :
    s.checkCursor.Follows c.checkCursor ∧
      (s.cells.InScreen → (s.checkCursor.cells.InScreen ↔ ¬ (c.x = 79 ∧ c.y = 24))) := by
  obtain ⟨column, row⟩ := on
  have here := follows.here
  have next : s.here + 1 = 80 * c.y + (c.x + 1 : Nat) := by omega
  refine ⟨⟨?_, follows.x, follows.y⟩, fun inside => ?_⟩
  · simp only [Tty.checkCursor, Cells.draw_mem next, follows.draw, Console.checkCursor]
  · simp only [Tty.checkCursor, Cells.inScreen_draw, inside, and_true]
    omega

theorem Follows.remc (follows : s.Follows c) (on : c.OnScreen) :
    s.remc.Follows c.remc ∧ (s.cells.InScreen → s.remc.cells.InScreen) := by
  obtain ⟨column, row⟩ := on
  have x := follows.x
  have y := follows.y
  have back {s1 : Tty} {c1 : Console} (moved : s1.Follows c1) (column : c1.x < 80) (row : c1.y < 25) :
      (Follows { s1 with cells := s1.cells.draw video s1.here 32 }
        { c1 with mem := drawCell video c1.y c1.x 32 c1.mem }) ∧
        (s1.cells.InScreen → (s1.cells.draw video s1.here 32).InScreen) := by
    have here := moved.here
    exact ⟨⟨moved.draw 32, moved.x, moved.y⟩, fun inside => Cells.inScreen_draw.mpr ⟨by omega, inside⟩⟩
  by_cases first : c.y = 0 ∧ c.x = 0
  · have firstHere : s.y = 0 ∧ s.x = 0 := by omega
    rw [Tty.remc, Console.remc, if_pos first, if_pos firstHere]
    exact ⟨follows, id⟩
  · have firstHere : ¬ (s.y = 0 ∧ s.x = 0) := by omega
    rw [Tty.remc, Console.remc, if_neg first, if_neg firstHere]
    by_cases start : c.x = 0
    · have startHere : s.x = 0 := by omega
      rw [if_pos start, if_pos startHere]
      have moved : Follows { s with y := s.y - 1, x := 79 } { c with y := c.y - 1, x := 79 } :=
        ⟨follows.mem, rfl, by simp only; omega⟩
      have upper : c.y - 1 < 25 := by omega
      exact back moved (show 79 < 80 by omega) upper
    · have startHere : ¬ s.x = 0 := by omega
      rw [if_neg start, if_neg startHere]
      have moved : Follows { s with x := s.x - 1 } { c with x := c.x - 1 } :=
        ⟨follows.mem, by simp only; omega, y⟩
      exact back moved (by simp only; omega) row

theorem Follows.clearScreen (follows : s.Follows c) :
    s.clearScreen.Follows c.clearScreen ∧ (s.cells.InScreen → s.clearScreen.cells.InScreen) := by
  simp only [Tty.clearScreen, Console.clearScreen]
  refine ⟨⟨?_, rfl, rfl⟩, fun inside => Cells.clear_inScreen inside⟩
  rw [Cells.clear_mem, follows.mem]

end Tty

namespace Ttys

variable {s : Ttys} {t : Fin 3} {routine : Tty → Tty}

/-- The console that terminal `t` stands for. -/
def console (s : Ttys) (t : Fin 3) : Console := ⟨s.mem, (s.x t).toNat, (s.y t).toNat⟩

theorem CursorsOnScreen.console (cursors : s.CursorsOnScreen) (t : Fin 3) :
    (s.console t).OnScreen ∧ Tty.Follows ⟨⟨s.mem, []⟩, s.x t, s.y t⟩ (s.console t) := by
  obtain ⟨left, right, top, bottom⟩ := cursors t
  refine ⟨⟨?_, ?_⟩, rfl, ?_, ?_⟩
  · simp only [Ttys.console]
    omega
  · simp only [Ttys.console]
    omega
  · simp only [Ttys.console, Int.toNat_of_nonneg left]
  · simp only [Ttys.console, Int.toNat_of_nonneg top]

theorem CursorsOnScreen.on (cursors : s.CursorsOnScreen) {c : Console}
    (follows : (routine ⟨⟨s.mem, []⟩, s.x t, s.y t⟩).Follows c) (onScreen : c.OnScreen) :
    (s.on t routine).1.CursorsOnScreen := by
  obtain ⟨column, row⟩ := onScreen
  have x := follows.x
  have y := follows.y
  intro u
  by_cases same : u = t
  · subst same
    simp only [Ttys.on, Function.update_self]
    omega
  · simp only [Ttys.on, Function.update_of_ne same]
    exact cursors u

theorem on_of {k : Kernel} {c : Console}
    (follows : (routine ⟨⟨k.mem, []⟩, (k.terminals t).cursorX, (k.terminals t).cursorY⟩).Follows c) :
    ((of k).on t routine).1 = of (k.setConsole t c) := by
  have x (u : Fin 3) : Function.update (of k).x t c.x u = (of (k.setConsole t c)).x u := by
    by_cases same : u = t
    · subst same
      simp [of, Kernel.setConsole, Kernel.setTerm]
    · simp [of, Kernel.setConsole, Kernel.setTerm, same]
  have y (u : Fin 3) : Function.update (of k).y t c.y u = (of (k.setConsole t c)).y u := by
    by_cases same : u = t
    · subst same
      simp [of, Kernel.setConsole, Kernel.setTerm]
    · simp [of, Kernel.setConsole, Kernel.setTerm, same]
  have mem := follows.mem
  rw [Ttys.on]
  refine (Ttys.mk.injEq ..).mpr ⟨mem, ?_, ?_, rfl, rfl, rfl⟩
  · refine Eq.trans ?_ (funext x)
    rw [← follows.x]
    rfl
  · refine Eq.trans ?_ (funext y)
    rw [← follows.y]
    rfl

end Ttys

/-- The same on the kernel. -/
def TtyAct.onKernel (k : Kernel) : TtyAct → Kernel
  | .putc c => k.putc c
  | .putKey c => k.putKey c
  | .remc => k.remc
  | .checkCursor => k.checkCursor
  | .putCursor => k.putCursor
  | .remCursor => k.remCursor
  | .clearScreen => k.clearScreen
  | .select ts ta index => { k with ts := ts, ta := ta, videoMem := vidMemPages index }

namespace Ttys

/-- From cursors on the screen the routines do what they do in the kernel. -/
theorem perform_of {k : Kernel} (cursors : k.CursorsOnScreen) (act : TtyAct) :
    ((of k).perform act).1 = of (act.onKernel k) := by
  have start (t : Fin 3) : Tty.Follows ⟨⟨k.mem, []⟩, (k.terminals t).cursorX, (k.terminals t).cursorY⟩
      (k.console t) := ⟨rfl, rfl, rfl⟩
  cases act with
  | putc c => exact on_of ((start k.ta).put (cursors k.ta) c).1
  | putKey c => exact on_of ((start k.ts).put (cursors k.ts) c).1
  | remc => exact on_of ((start k.ts).remc (cursors k.ts)).1
  | checkCursor => exact on_of ((start k.ts).checkCursor (cursors k.ts)).1
  | putCursor => exact on_of ((start k.ts).drawCursor (cursors k.ts) 95).1
  | remCursor => exact on_of ((start k.ts).drawCursor (cursors k.ts) 32).1
  | clearScreen => exact on_of (start k.ts).clearScreen.1
  | select ts ta index => rfl

/-- A step keeps the cursors on the screen, and all that it writes is on the
screen unless `check_cursor` finds the cursor in the last cell. -/
theorem CursorsOnScreen.step {s s' : Ttys} {l : TtyAct × List Int} (cursors : s.CursorsOnScreen)
    (move : s.Step l s') : s'.CursorsOnScreen ∧
      ((∀ i ∈ l.2, 0 ≤ i ∧ i < 2000) ↔ (l.1 = .checkCursor → ¬ s.InLastCell)) := by
  obtain ⟨act, cells⟩ := l
  have none : Cells.InScreen ⟨s.mem, []⟩ := List.forall_mem_nil _
  have moved : s.perform act = (s', cells) := move
  obtain ⟨rfl, rfl⟩ : (s.perform act).1 = s' ∧ (s.perform act).2 = cells := by
    rw [moved]
    exact ⟨rfl, rfl⟩
  have routine {t : Fin 3} {f : Tty → Tty} {c : Console} (other : act ≠ .checkCursor)
      (onScreen : c.OnScreen) (spec : (f ⟨⟨s.mem, []⟩, s.x t, s.y t⟩).Follows c ∧
        (Cells.InScreen ⟨s.mem, []⟩ → (f ⟨⟨s.mem, []⟩, s.x t, s.y t⟩).cells.InScreen)) :
      (s.on t f).1.CursorsOnScreen ∧
        ((∀ i ∈ (s.on t f).2, 0 ≤ i ∧ i < 2000) ↔ (act = .checkCursor → ¬ s.InLastCell)) :=
    ⟨cursors.on spec.1 onScreen, iff_of_true (spec.2 none) fun same => absurd same other⟩
  have active := cursors.console s.ta
  have shown := cursors.console s.ts
  cases act with
  | putc c =>
    exact routine (by simp) (Console.put_onScreen active.1 s.videoMem c) (active.2.put active.1 c)
  | putKey c => exact routine (by simp) (Console.put_onScreen shown.1 video c) (shown.2.put shown.1 c)
  | remc => exact routine (by simp) (Console.remc_onScreen shown.1) (shown.2.remc shown.1)
  | checkCursor =>
    obtain ⟨follows, written⟩ := shown.2.checkCursor shown.1
    refine ⟨cursors.on follows shown.1, (written none).trans ?_⟩
    obtain ⟨left, _, top, _⟩ := cursors s.ts
    simp only [true_imp_iff, InLastCell, Ttys.console]
    omega
  | putCursor =>
    have onScreen : ((s.console s.ts).drawCursor 95).OnScreen := shown.1
    exact routine (by simp) onScreen (shown.2.drawCursor shown.1 95)
  | remCursor =>
    have onScreen : ((s.console s.ts).drawCursor 32).OnScreen := shown.1
    exact routine (by simp) onScreen (shown.2.drawCursor shown.1 32)
  | clearScreen =>
    have onScreen := (s.console s.ts).clearScreen_onScreen
    have spec := @routine s.ts Tty.clearScreen _ (by simp) onScreen shown.2.clearScreen
    simp only [perform]
    exact spec
  | select ts ta index =>
    exact ⟨cursors, iff_of_true (List.forall_mem_nil _) fun same => by cases same⟩

end Ttys

/-- From the boot on, whatever routines run on whatever terminals, the cursors
stay on the screen, and every cell written is one of the screen exactly when
`check_cursor` never finds the cursor in the last cell. -/
theorem screen_bounds {pcbs : Int → Pcb} {ram : Nat → UInt8} {ptFrame ptUserFrame : BitVec 20}
    {history : List (Event Ttys (TtyAct × List Int))} {s : Ttys}
    (run : Run Ttys.Step (Ttys.of (entryState pcbs ram ptFrame ptUserFrame)) history s) :
    (∀ e ∈ history, e.post.CursorsOnScreen) ∧
      ((∀ e ∈ history, ∀ i ∈ e.act.2, 0 ≤ i ∧ i < 2000) ↔
        ∀ e ∈ history, e.act.1 = .checkCursor → ¬ e.pre.InLastCell) := by
  have start : (Ttys.of (entryState pcbs ram ptFrame ptUserFrame)).CursorsOnScreen := by
    intro t
    simp [Ttys.of, entryState]
  have each (e : Event Ttys (TtyAct × List Int)) (member : e ∈ history) : e.post.CursorsOnScreen := by
    obtain ⟨past, before, move, _⟩ := run.event_reached member
    have cursors := before.invariant Ttys.CursorsOnScreen start fun _ _ _ old taken => (old.step taken).1
    exact (cursors.step move).1
  refine ⟨each, ?_⟩
  exact run.each_iff_allowed (fun _ s => s.CursorsOnScreen) (fun e => ∀ i ∈ e.act.2, 0 ≤ i ∧ i < 2000)
    (fun s l => l.1 = .checkCursor → ¬ s.InLastCell) start
    (fun _ s l s' held move => ⟨(held.step move).2, fun _ => (held.step move).1⟩)

/-- A key is echoed, and the cell behind it undrawn. -/
theorem screen_bounds_sample : ∃ history s, Run Ttys.Step (Ttys.of sampleEntry) history s ∧
    (∃ e ∈ history, e.act.2 = [2, 1]) ∧ ∀ e ∈ history, ∀ i ∈ e.act.2, 0 ≤ i ∧ i < 2000 := by
  have echoed : Ttys.Step (Ttys.of sampleEntry) (.putKey 97, [0])
      ((Ttys.of sampleEntry).perform (.putKey 97)).1 := rfl
  have undrawn : Ttys.Step ((Ttys.of sampleEntry).perform (.putKey 97)).1 (.checkCursor, [2, 1])
      (((Ttys.of sampleEntry).perform (.putKey 97)).1.perform .checkCursor).1 := rfl
  have run := (Run.start.next echoed).next undrawn
  refine ⟨_, _, run, ⟨_, List.mem_cons_self .., rfl⟩, (screen_bounds run).2.mpr ?_⟩
  intro e member check
  rcases List.mem_cons.mp member with rfl | earlier
  · unfold Ttys.InLastCell
    decide
  · rw [List.mem_singleton] at earlier
    rw [earlier] at check
    cases check

/-- The cursor of the shown terminal is put into the last cell, and the
character there is undrawn. -/
def cornerActs : List TtyAct :=
  List.replicate 24 (.putKey 10) ++ (List.replicate 79 (.putKey 97) ++ [.checkCursor])

theorem screen_bounds_corner : ∃ history s, Run Ttys.Step (Ttys.of sampleEntry) history s ∧
    ∃ e ∈ history, ¬ ∀ i ∈ e.act.2, 0 ≤ i ∧ i < 2000 := by
  have computed : (Ttys.performAll cornerActs (Ttys.of sampleEntry)).map (fun r =>
      r.1.head?.map fun e => e.act.2) = some (some [2000, 1999]) := by
    decide +kernel
  obtain ⟨r, done, last⟩ := Option.map_eq_some_iff.mp computed
  obtain ⟨e, newest, cells⟩ := Option.map_eq_some_iff.mp last
  refine ⟨r.1, r.2, Ttys.performAll_run done, e, List.mem_of_head? newest, fun inside => ?_⟩
  have cell := inside 2000 (by simp [cells])
  omega

end UnixLite
