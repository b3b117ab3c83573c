import UnixLite.Display
import UnixLite.Screens
import UnixLite.Library.Blink

namespace UnixLite

open Store Scroll Transition

/-- What `put_cursor` draws. -/
def markCell : UInt8 × UInt8 := (95, 7)

theorem keyChar_noReturn {keys : List (UInt8 × Char × Char)} {upper : Bool} {keypress c : UInt8}
    (typed : keyChar keys upper keypress = some c)
    (table : ∀ e ∈ keys, e.2.1.toUInt8 ≠ 13 ∧ e.2.2.toUInt8 ≠ 13) : c ≠ 13 := by
  obtain ⟨e, found, rfl⟩ := Option.map_eq_some_iff.mp typed
  obtain ⟨plain, shifted⟩ := table e (List.mem_of_find?_eq_some found)
  cases upper with
  | true => exact shifted
  | false => exact plain

/-- No key types a carriage return. -/
theorem getKey_noReturn (f : KeyFlags) (keypress : UInt8) : (getKey f keypress).2 ≠ 13 := by
  unfold getKey
  extract_lets shift
  split
  · show (0 : UInt8) ≠ 13
    decide
  split
  · rename_i c typed
    exact keyChar_noReturn typed (by decide)
  · cases typed : keyChar letterKeys (f.caps != shift) keypress with
    | none =>
      show (0 : UInt8) ≠ 13
      decide
    | some c => exact keyChar_noReturn typed (by decide)

namespace Console

def drawCursor (c : UInt8) (s : Console) : Console := { s with mem := drawCell video s.y s.x c s.mem }

theorem window_drawCursor {s : Console} (on : s.OnScreen) (c : UInt8) :
    (s.drawCursor c).window video = (s.window video).drawCursor (c, 7) :=
  window_drawCell on.1 c

theorem drawCursor_page {s : Console} (on : s.OnScreen) (c : UInt8) :
    PageWrites video s.mem (s.drawCursor c).mem := by
  obtain ⟨column, row⟩ := on
  exact drawCell_page (by omega)

theorem window_checkCursor {s : Console} (on : s.OnScreen) :
    s.checkCursor.window video = (s.window video).undraw blankCell := by
  obtain ⟨column, row⟩ := on
  by_cases room : s.x + 1 < 80
  · have place : (s.window video).x + 1 < 80 := room
    rw [Window.undraw, if_pos place]
    refine Window.ext (funext fun j => funext fun i => ?_) rfl rfl
    have here : 80 * j.val + i.val = 80 * s.y + s.x ↔ j.val = s.y ∧ i.val = s.x := by omega
    have next : 80 * j.val + i.val = 80 * s.y + (s.x + 1) ↔ j.val = s.y ∧ i.val = s.x + 1 := by omega
    simp only [window, checkCursor, shownCells_draw, here, next]
    rfl
  · have place : ¬ (s.window video).x + 1 < 80 := room
    rw [Window.undraw, if_neg place]
    refine Window.ext (funext fun j => funext fun i => ?_) rfl rfl
    have here : 80 * j.val + i.val = 80 * s.y + s.x ↔ j.val = s.y ∧ i.val = s.x := by omega
    have next : 80 * j.val + i.val = 80 * s.y + (s.x + 1) ↔ j.val = s.y + 1 ∧ i.val = 0 := by omega
    simp only [window, checkCursor, shownCells_draw, here, next]
    rfl

theorem window_remc {s : Console} (on : s.OnScreen) :
    s.remc.window video = (s.window video).back blankCell := by
  obtain ⟨column, row⟩ := on
  have place : (s.window video).x = s.x ∧ (s.window video).y = s.y := ⟨rfl, rfl⟩
  rw [Window.back, place.1, place.2, remc]
  split
  · rfl
  split
  · exact window_drawCursor (s := ⟨s.mem, 79, s.y - 1⟩) ⟨by simp, by simp; omega⟩ 32
  · exact window_drawCursor (s := ⟨s.mem, s.x - 1, s.y⟩) ⟨by simp; omega, row⟩ 32

theorem window_clearScreen (s : Console) : s.clearScreen.window video = Window.wipe blankCell := by
  refine Window.ext (funext fun j => funext fun i => ?_) rfl rfl
  have inside : 80 * 0 ≤ 80 * j.val + i.val ∧ 80 * j.val + i.val < 80 * 0 + 2000 := by omega
  simp only [window, clearScreen, clear, fillCells_shown, if_pos inside, Window.wipe]

/-- The echo of Backspace keeps to the screen. -/
theorem rubOut_page {s : Console} (on : s.OnScreen) : PageWrites video s.mem s.remc.checkCursor.mem :=
  (remc_page on).trans (checkCursor_page (remc_onScreen on))

end Console

namespace Kernel

def putCursor (k : Kernel) : Kernel := k.setConsole k.ts ((k.console k.ts).drawCursor 95)

def remCursor (k : Kernel) : Kernel := k.setConsole k.ts ((k.console k.ts).drawCursor 32)

/-- The screen of terminal `t`, wherever it is kept. -/
def screen (k : Kernel) (t : Fin 3) : Window 25 80 (UInt8 × UInt8) := k.window (k.page t) t

theorem screen_of_logical {k k' : Kernel} {t : Fin 3} (same : k'.logical t = k.logical t) :
    k'.screen t = k.screen t := by
  have byte (i : Nat) (inside : i < 4096) : k'.mem (k'.page t + i) = k.mem (k.page t + i) :=
    congrFun (congrArg Logical.screen same) ⟨i, inside⟩
  refine Window.ext (funext fun j => funext fun i => ?_) (congrArg Logical.cursorX same)
    (congrArg Logical.cursorY same)
  have first := byte (2 * (80 * j.val + i.val)) (by omega)
  have second := byte (2 * (80 * j.val + i.val) + 1) (by omega)
  exact Prod.ext first second

theorem setConsole_setConsole (k : Kernel) (t : Fin 3) (s s' : Console) :
    (k.setConsole t s).setConsole t s' = k.setConsole t s' := by
  simp [setConsole, setTerm]

theorem console_setConsole (k : Kernel) (t : Fin 3) (s : Console) : (k.setConsole t s).console t = s := by
  simp [console, setConsole, setTerm]

/-- The two steps of the echo of Backspace. -/
theorem remc_checkCursor (k : Kernel) :
    k.remc.checkCursor = k.setConsole k.ts (k.console k.ts).remc.checkCursor := by
  have same : (k.setConsole k.ts (k.console k.ts).remc).ts = k.ts := rfl
  rw [checkCursor, remc, same, console_setConsole, setConsole_setConsole]

/-- Two kernels that differ in their memory alone, and there only by cursors
drawn in the first, on a system that has been set up. -/
structure Twins (b p : Kernel) : Prop where
  memory : ∃ m, b = { p with mem := m }
  cursors : p.CursorsOnScreen
  finished : p.termInitDone = true
  mapped : p.videoMem = p.page p.ta
  screens : ∀ t, Window.Blinks blankCell markCell (b.screen t) (p.screen t)

section Twins

variable {b p : Kernel}

/-- A console routine on both. -/
theorem Twins.draw (twins : Twins b p) {t : Fin 3} {sb sp : Console}
    (pageB : PageWrites (p.page t) b.mem sb.mem) (pageP : PageWrites (p.page t) p.mem sp.mem)
    (drawn : Window.Blinks blankCell markCell (sb.window (p.page t)) (sp.window (p.page t))) :
    Twins (b.setConsole t sb) (p.setConsole t sp) := by
  obtain ⟨⟨m, rfl⟩, cursors, finished, mapped, screens⟩ := twins
  obtain ⟨x, y, _⟩ := drawn.sameText
  have placeX : sb.x = sp.x := x
  have placeY : sb.y = sp.y := y
  have touchesP := setConsole_touches cursors pageP drawn.on
  have onB : sb.OnScreen := by
    rw [Console.OnScreen, placeX, placeY]
    exact drawn.on
  have touchesB := setConsole_touches (k := { p with mem := m }) (t := t) cursors pageB onB
  refine ⟨⟨sb.mem, ?_⟩, touchesP.cursors, finished, mapped, ?_⟩
  · simp [setConsole, setTerm, placeX, placeY]
  · intro u
    by_cases here : u = t
    · subst here
      have shownB : ({ p with mem := m }.setConsole u sb).screen u = sb.window (p.page u) :=
        window_setConsole _ u sb _
      have shownP : (p.setConsole u sp).screen u = sp.window (p.page u) := window_setConsole p u sp _
      rw [shownB, shownP]
      exact drawn
    · rw [screen_of_logical (touchesB.others u here), screen_of_logical (touchesP.others u here)]
      exact screens u

theorem Twins.shared (twins : Twins b p) :
    b.ts = p.ts ∧ b.ta = p.ta ∧ b.videoMem = p.videoMem ∧ b.flags = p.flags := by
  obtain ⟨⟨m, rfl⟩, _⟩ := twins
  exact ⟨rfl, rfl, rfl, rfl⟩

theorem Twins.onScreen (twins : Twins b p) (t : Fin 3) :
    (b.console t).OnScreen ∧ (p.console t).OnScreen := by
  obtain ⟨⟨m, rfl⟩, cursors, _⟩ := twins
  exact ⟨cursors t, cursors t⟩

theorem Twins.windows (twins : Twins b p) (t : Fin 3) :
    Window.Blinks blankCell markCell ((b.console t).window (p.page t)) ((p.console t).window (p.page t)) := by
  obtain ⟨⟨m, rfl⟩, _, _, _, screens⟩ := twins
  exact screens t

/-- A byte put on both. A line break needs a cursor that is not drawn. -/
theorem Twins.put (twins : Twins b p) {t : Fin 3} {c : UInt8}
    (tidy : stroke c = none → ¬ Window.Drawn markCell (b.screen t)) :
    Twins (b.putAt (p.page t) t c) (p.putAt (p.page t) t c) := by
  obtain ⟨onB, onP⟩ := twins.onScreen t
  have windows := twins.windows t
  have pageB : (b.console t).mem = b.mem := rfl
  refine twins.draw (Console.put_page onB _ c) (Console.put_page onP _ c) ?_
  rw [Console.window_put onB, Console.window_put onP]
  cases kind : stroke c with
  | some a => exact windows.write a
  | none =>
    refine windows.lineBreak ?_
    have undrawn := tidy kind
    obtain ⟨⟨m, rfl⟩, _⟩ := twins
    exact undrawn

/-- A line break where the cursor is drawn leaves it behind. -/
theorem Twins.put_stray (twins : Twins b p) {t : Fin 3} {c : UInt8} (kind : stroke c = none)
    (drawn : Window.Drawn markCell (b.screen t)) :
    ¬ Window.SameText ((b.putAt (p.page t) t c).screen t) ((p.putAt (p.page t) t c).screen t) := by
  obtain ⟨onB, onP⟩ := twins.onScreen t
  have windows := twins.windows t
  obtain ⟨⟨m, rfl⟩, _⟩ := twins
  have shownB : ({ p with mem := m }.putAt (p.page t) t c).screen t =
      (({ p with mem := m }.console t).put (p.page t) c).window (p.page t) :=
    window_setConsole _ t _ _
  have shownP : (p.putAt (p.page t) t c).screen t = ((p.console t).put (p.page t) c).window (p.page t) :=
    window_setConsole p t _ _
  rw [shownB, shownP, Console.window_put onB, Console.window_put onP, kind]
  exact windows.stray (by decide) (by decide) drawn

/-- The fields of the keyboard are set on both. -/
theorem Twins.keyboard (twins : Twins b p) (flags : KeyFlags) (buf : Nat → UInt8) (idx : Nat) :
    Twins { b with flags := flags, keyboardBuf := buf, keyIdx := idx }
      { p with flags := flags, keyboardBuf := buf, keyIdx := idx } := by
  obtain ⟨⟨m, rfl⟩, cursors, finished, mapped, screens⟩ := twins
  exact ⟨⟨m, rfl⟩, cursors, finished, mapped, screens⟩

theorem Twins.clearKeyboardBuf (twins : Twins b p) : Twins b.clearKeyboardBuf p.clearKeyboardBuf := by
  obtain ⟨m, same⟩ := twins.memory
  have next := twins.keyboard p.flags (fillLoop 128 0 p.keyboardBuf) 0
  subst same
  exact next

/-- The flags of a key are decoded on both. -/
theorem Twins.decode (twins : Twins b p) (keypress : UInt8) :
    Twins { b with flags := (getKey b.flags keypress).1 } { p with flags := (getKey p.flags keypress).1 } := by
  have next := twins.keyboard (getKey p.flags keypress).1 p.keyboardBuf p.keyIdx
  obtain ⟨⟨m, rfl⟩, _⟩ := twins
  exact next

/-- A change of the line on both. -/
theorem Twins.edit (twins : Twins b p) (result : Option ((Nat → UInt8) × Nat)) {onB onP : Option Kernel}
    (changeB : onB = result.map fun r => { b with keyboardBuf := r.1, keyIdx := r.2 })
    (changeP : onP = result.map fun r => { p with keyboardBuf := r.1, keyIdx := r.2 }) :
    (onB = none ∧ onP = none) ∨ ∃ b' p', onB = some b' ∧ onP = some p' ∧ Twins b' p' := by
  cases result with
  | none => exact Or.inl ⟨changeB, changeP⟩
  | some r =>
    have next := twins.keyboard p.flags r.1 r.2
    obtain ⟨⟨m, rfl⟩, _⟩ := twins
    exact Or.inr ⟨_, _, changeB, changeP, next⟩

theorem Twins.writeKey (twins : Twins b p) (c : UInt8) :
    (b.writeKey c = none ∧ p.writeKey c = none) ∨
      ∃ b' p', b.writeKey c = some b' ∧ p.writeKey c = some p' ∧ Twins b' p' := by
  refine twins.edit (writeChar p.keyboardBuf p.keyIdx c) ?_ rfl
  obtain ⟨⟨m, rfl⟩, _⟩ := twins
  rfl

theorem Twins.deleteKey (twins : Twins b p) :
    (b.deleteKey = none ∧ p.deleteKey = none) ∨
      ∃ b' p', b.deleteKey = some b' ∧ p.deleteKey = some p' ∧ Twins b' p' := by
  refine twins.edit (deleteChar p.keyboardBuf p.keyIdx) ?_ rfl
  obtain ⟨⟨m, rfl⟩, _⟩ := twins
  rfl

theorem Twins.putKey (twins : Twins b p) {c : UInt8}
    (tidy : stroke c = none → ¬ Window.Drawn markCell (b.screen b.ts)) :
    Twins (b.putKey c) (p.putKey c) := by
  have shown := page_shown (rfl : p.ts = p.ts)
  obtain ⟨ts, _⟩ := twins.shared
  rw [ts] at tidy
  have next := twins.put tidy
  rw [shown] at next
  rw [Kernel.putKey, ts]
  exact next

theorem Twins.putKey_stray (twins : Twins b p) {c : UInt8} (kind : stroke c = none)
    (drawn : Window.Drawn markCell (b.screen b.ts)) :
    ¬ Window.SameText ((b.putKey c).screen p.ts) ((p.putKey c).screen p.ts) := by
  have shown := page_shown (rfl : p.ts = p.ts)
  obtain ⟨ts, _⟩ := twins.shared
  rw [ts] at drawn
  have stray := twins.put_stray kind drawn
  rw [shown] at stray
  rw [Kernel.putKey, ts]
  exact stray

theorem Twins.putc (twins : Twins b p) {c : UInt8}
    (tidy : stroke c = none → ¬ Window.Drawn markCell (b.screen b.ta)) :
    Twins (b.putc c) (p.putc c) := by
  obtain ⟨_, ta, videoMem, _⟩ := twins.shared
  rw [ta] at tidy
  have next := twins.put tidy
  rw [← twins.mapped] at next
  rw [Kernel.putc, ta, videoMem]
  exact next

/-- A routine on the shown screen of both. -/
theorem Twins.shown (twins : Twins b p) (f : Console → Console)
    (page : ∀ s : Console, s.OnScreen → PageWrites video s.mem (f s).mem)
    (drawn : Window.Blinks blankCell markCell ((f (b.console p.ts)).window video)
      ((f (p.console p.ts)).window video)) :
    Twins (b.setConsole b.ts (f (b.console b.ts))) (p.setConsole p.ts (f (p.console p.ts))) := by
  have shown := page_shown (rfl : p.ts = p.ts)
  obtain ⟨ts, _⟩ := twins.shared
  obtain ⟨onB, onP⟩ := twins.onScreen p.ts
  rw [ts]
  refine twins.draw ?_ ?_ ?_
  · rw [shown]
    exact page _ onB
  · rw [shown]
    exact page _ onP
  · rw [shown]
    exact drawn

theorem Twins.shownWindows (twins : Twins b p) :
    Window.Blinks blankCell markCell ((b.console p.ts).window video) ((p.console p.ts).window video) := by
  have windows := twins.windows p.ts
  rwa [page_shown (rfl : p.ts = p.ts)] at windows

theorem Twins.checkCursor (twins : Twins b p) : Twins b.checkCursor p.checkCursor := by
  obtain ⟨onB, onP⟩ := twins.onScreen p.ts
  refine twins.shown Console.checkCursor (fun s on => Console.checkCursor_page on) ?_
  rw [Console.window_checkCursor onB, Console.window_checkCursor onP]
  exact twins.shownWindows.undraw

theorem Twins.rubOut (twins : Twins b p) : Twins b.remc.checkCursor p.remc.checkCursor := by
  obtain ⟨onB, onP⟩ := twins.onScreen p.ts
  rw [remc_checkCursor, remc_checkCursor]
  refine twins.shown (fun s => s.remc.checkCursor) (fun s on => Console.rubOut_page on) ?_
  rw [Console.window_checkCursor (Console.remc_onScreen onB), Console.window_remc onB,
    Console.window_checkCursor (Console.remc_onScreen onP), Console.window_remc onP]
  exact twins.shownWindows.rubOut

theorem Twins.clearScreen (twins : Twins b p) : Twins b.clearScreen p.clearScreen := by
  refine twins.shown Console.clearScreen (fun s _ => s.clearScreen_page) ?_
  rw [Console.window_clearScreen, Console.window_clearScreen]
  exact .wipe (by decide) (by decide)

theorem Twins.checkCursor_undrawn (twins : Twins b p) :
    ¬ Window.Drawn markCell (b.checkCursor.screen b.checkCursor.ts) := by
  obtain ⟨ts, _⟩ := twins.shared
  obtain ⟨onB, _⟩ := twins.onScreen p.ts
  have same : b.checkCursor.ts = p.ts := ts
  have page : b.checkCursor.page p.ts = video := page_shown same
  have shown : b.checkCursor.screen p.ts = ((b.console p.ts).window video).undraw blankCell := by
    rw [screen, page, Kernel.checkCursor, ts, window_setConsole, Console.window_checkCursor onB]
  rw [same, shown]
  exact twins.shownWindows.undraw_undrawn (by decide)

theorem Twins.cursor (twins : Twins b p) {c : UInt8} (blinks : c = 32 ∨ c = 95) :
    Twins (b.setConsole b.ts ((b.console b.ts).drawCursor c)) p := by
  have shown := page_shown (rfl : p.ts = p.ts)
  obtain ⟨ts, _⟩ := twins.shared
  obtain ⟨onB, onP⟩ := twins.onScreen p.ts
  have drawn : Window.Blinks blankCell markCell (((b.console p.ts).drawCursor c).window video)
      ((p.console p.ts).window video) := by
    rw [Console.window_drawCursor onB]
    refine twins.shownWindows.draw ?_
    rcases blinks with rfl | rfl
    · exact Or.inl rfl
    · exact Or.inr rfl
  have next : Twins (b.setConsole p.ts ((b.console p.ts).drawCursor c)) (p.setConsole p.ts (p.console p.ts)) :=
    twins.draw (by rw [shown]; exact Console.drawCursor_page onB c) (Within.refl _ _ _)
      (by rw [shown]; exact drawn)
  have same : p.setConsole p.ts (p.console p.ts) = p := by
    simp [setConsole, setTerm, console]
  rw [same] at next
  rw [ts]
  exact next

/-- A drawn cursor survives no blank. -/
theorem Twins.tabLoop (twins : Twins b p) (n : Nat) : Twins (b.tabLoop n) (p.tabLoop n) := by
  induction n generalizing b p with
  | zero => exact twins
  | succ n ih =>
    unfold Kernel.tabLoop
    rcases twins.writeKey 32 with ⟨noneB, noneP⟩ | ⟨b', p', someB, someP, next⟩
    · rw [noneB, noneP]
      exact twins
    · rw [someB, someP]
      exact ih (next.putKey fun kind => absurd kind (by decide))

end Twins

/-- Once the terminals are set up a switch does nothing or shows another
terminal, whatever the memory holds. -/
theorem terminalSwitch_cases {k : Kernel} (finished : k.termInitDone = true) (function : Nat) :
    (∀ m, ({ k with mem := m }.terminalSwitch function).1 = { k with mem := m }) ∨
      ∃ t, ∀ m, ({ k with mem := m }.terminalSwitch function).1 =
        ({ k with mem := m }.showTerminal t).mapVideo := by
  let shown : Fin 3 := if function = 1 then 0 else if function = 2 then 1
    else if function = 3 then 2 else k.ts
  by_cases same : k.ts = shown
  · exact Or.inl fun m => congrArg Prod.fst (if_pos same)
  · refine Or.inr ⟨shown, fun m => ?_⟩
    have init : ({ k with mem := m }.showTerminal shown).termInitDone = true := finished
    unfold terminalSwitch
    dsimp only
    rw [if_neg same]
    exact if_pos init

section Twins

variable {b p : Kernel}

theorem mapVideo_memory (k : Kernel) (m : Nat → UInt8) :
    { k with mem := m }.mapVideo = { k.mapVideo with mem := m } := by
  unfold mapVideo
  by_cases shown : k.ts = k.ta
  · rw [if_pos shown, if_pos shown]
    rfl
  · rw [if_neg shown, if_neg shown]
    rfl

theorem Twins.switch (twins : Twins b p) (function : Nat) :
    Twins (b.terminalSwitch function).1 (p.terminalSwitch function).1 := by
  obtain ⟨⟨m, rfl⟩, cursors, finished, mapped, screens⟩ := twins
  refine ⟨?_, cursors_logical cursors (p.terminalSwitch_logical function), ?_, ?_, ?_⟩
  · rcases terminalSwitch_cases finished function with still | ⟨t, switched⟩
    · have plain := still p.mem
      exact ⟨m, (still m).trans (by rw [plain])⟩
    · have plain := switched p.mem
      refine ⟨({ p with mem := m }.showTerminal t).mem, (switched m).trans ?_⟩
      rw [plain]
      exact mapVideo_memory (p.showTerminal t) _
  · exact (p.terminalSwitch_ttyOnly function).termInitDone.trans finished
  · rcases terminalSwitch_cases finished function with still | ⟨t, switched⟩
    · have plain := still p.mem
      rw [plain]
      exact mapped
    · have plain := switched p.mem
      rw [plain]
      exact (mapVideo_mapped _).1
  · intro t
    rw [screen_of_logical (terminalSwitch_logical _ function t),
      screen_of_logical (p.terminalSwitch_logical function t)]
    exact screens t

theorem Twins.putKeyed (twins : Twins b p) {c : UInt8}
    (tidy : stroke c = none → ¬ Window.Drawn markCell (b.screen b.ts)) :
    Twins (((b.writeKey c).getD b).putKey c) (((p.writeKey c).getD p).putKey c) := by
  obtain ⟨ts, _⟩ := twins.shared
  rcases twins.writeKey c with ⟨noneB, noneP⟩ | ⟨b', p', someB, someP, next⟩
  · rw [noneB, noneP]
    exact twins.putKey tidy
  · rw [someB, someP]
    refine next.putKey fun kind => ?_
    obtain ⟨r, _, rfl⟩ := Option.map_eq_some_iff.mp someB
    exact tidy kind

theorem Twins.ctrlHelper (twins : Twins b p) {c : UInt8}
    (tidy : stroke c = none → ¬ Window.Drawn markCell (b.screen b.ts)) :
    Twins (b.ctrlHelper c) (p.ctrlHelper c) := by
  unfold Kernel.ctrlHelper
  split
  · exact twins.clearScreen.clearKeyboardBuf
  · split
    · exact twins
    · exact twins.putKeyed tidy

/-- One key on both. A line break that is typed is echoed behind a clean-up,
one that comes with Ctrl is not. -/
theorem Twins.keyboardHandler (twins : Twins b p) {keypress : UInt8}
    (tidy : (getKey b.flags keypress).1.ctrl = true → stroke (getKey b.flags keypress).2 = none →
      ¬ Window.Drawn markCell (b.screen b.ts)) :
    Twins (b.keyboardHandler keypress) (p.keyboardHandler keypress) := by
  have noReturn := getKey_noReturn b.flags keypress
  obtain ⟨_, _, _, flags⟩ := twins.shared
  unfold Kernel.keyboardHandler
  extract_lets ascii b1 asciiP p1
  have decoded : asciiP = ascii := by rw [show ascii = (getKey b.flags keypress).2 from rfl, flags]
  have flagged : Twins b1 p1 := twins.decode keypress
  have tidyCtrl : b1.flags.ctrl = true → stroke ascii = none →
      ¬ Window.Drawn markCell (b1.screen b1.ts) := tidy
  have notReturn : ascii ≠ 13 := noReturn
  clear_value ascii asciiP b1 p1
  subst decoded
  obtain ⟨_, _, _, flags⟩ := flagged.shared
  rw [← flags]
  split
  · rename_i ctrl
    exact flagged.ctrlHelper (tidyCtrl ctrl)
  split
  · rcases flagged.writeKey asciiP with ⟨noneB, noneP⟩ | ⟨b', p', someB, someP, next⟩
    · rw [noneB, noneP]
      exact flagged
    · rw [someB, someP]
      dsimp only
      split
      · exact next.checkCursor.putKey fun _ => next.checkCursor_undrawn
      · rename_i notEnter
        refine next.putKey fun kind => ?_
        rcases stroke_none.mp kind with enter | ret
        · exact absurd enter notEnter
        · exact absurd ret notReturn
  split
  · rcases flagged.deleteKey with ⟨noneB, noneP⟩ | ⟨b', p', someB, someP, next⟩
    · rw [noneB, noneP]
      exact flagged
    · rw [someB, someP]
      exact next.rubOut
  split
  · exact flagged.tabLoop 4
  split
  · unfold altHelper
    rw [← flags]
    split
    · exact flagged
    · exact flagged.switch _
  · exact flagged

/-- Enter with Ctrl down goes to `put_key` without a clean-up. -/
theorem keyboardHandler_ctrlEnter {k : Kernel} {keypress : UInt8}
    (ctrl : (getKey k.flags keypress).1.ctrl = true) (enter : (getKey k.flags keypress).2 = 10) :
    k.keyboardHandler keypress =
      (({ k with flags := (getKey k.flags keypress).1 }.writeKey 10).getD
        { k with flags := (getKey k.flags keypress).1 }).putKey 10 := by
  unfold Kernel.keyboardHandler
  extract_lets ascii k1
  have decoded : ascii = 10 := enter
  have down : k1.flags.ctrl = true := ctrl
  rw [if_pos down, decoded]
  rfl

theorem Twins.ctrlEnter_stray (twins : Twins b p) {keypress : UInt8}
    (ctrl : (getKey b.flags keypress).1.ctrl = true) (enter : (getKey b.flags keypress).2 = 10)
    (drawn : Window.Drawn markCell (b.screen b.ts)) :
    ¬ Window.SameText ((b.keyboardHandler keypress).screen p.ts)
      ((p.keyboardHandler keypress).screen p.ts) := by
  have flagged := twins.decode keypress
  obtain ⟨_, _, _, flags⟩ := twins.shared
  rw [keyboardHandler_ctrlEnter ctrl enter, keyboardHandler_ctrlEnter (flags ▸ ctrl) (flags ▸ enter)]
  rcases flagged.writeKey 10 with ⟨noneB, noneP⟩ | ⟨b', p', someB, someP, next⟩
  · rw [noneB, noneP]
    exact flagged.putKey_stray (by decide) drawn
  · rw [someB, someP]
    obtain ⟨rb, _, rfl⟩ := Option.map_eq_some_iff.mp someB
    obtain ⟨rp, _, rfl⟩ := Option.map_eq_some_iff.mp someP
    exact next.putKey_stray (by decide) drawn

end Twins

end Kernel

/-- What writes to the consoles: output, a key, a switch of terminals. -/
inductive ConsoleOp
  | putc (c : UInt8)
  | key (keypress : UInt8)
  | switchTo (function : Nat)

def ConsoleOp.apply (k : Kernel) : ConsoleOp → Kernel
  | .putc c => k.putc c
  | .key keypress => k.keyboardHandler keypress
  | .switchTo function => (k.terminalSwitch function).1

/-- A console operation, or one of the two cursor steps of `rtc_handler`. -/
inductive BlinkAct
  | console (op : ConsoleOp)
  | putCursor
  | remCursor

/-- The same operations run with the cursor blinking and without. -/
structure Blinked where
  blinking : Kernel
  plain : Kernel

def Blinked.perform (s : Blinked) : BlinkAct → Blinked
  | .console op => ⟨op.apply s.blinking, op.apply s.plain⟩
  | .putCursor => { s with blinking := s.blinking.putCursor }
  | .remCursor => { s with blinking := s.blinking.remCursor }

def Blinked.Step (s : Blinked) (a : BlinkAct) (s' : Blinked) : Prop := s' = s.perform a

/-- The screens agree in every cell but those at their cursors. -/
def Blinked.SameTexts (s : Blinked) : Prop :=
  ∀ t, Window.SameText (s.blinking.screen t) (s.plain.screen t)

/-- A line break without a clean-up on a terminal whose cursor is drawn:
output of a newline or carriage return, or Enter while Ctrl is down. -/
def LeavesCursor (k : Kernel) : BlinkAct → Prop
  | .console (.putc c) => (c = 10 ∨ c = 13) ∧ Window.Drawn markCell (k.screen k.ta)
  | .console (.key keypress) => (getKey k.flags keypress).1.ctrl = true ∧
      (getKey k.flags keypress).2 = 10 ∧ Window.Drawn markCell (k.screen k.ts)
  | .console (.switchTo _) | .putCursor | .remCursor => False

/-- The set-up is over and the screens are blank from their cursors on. -/
structure BlankAhead (k : Kernel) : Prop where
  cursors : k.CursorsOnScreen
  finished : k.termInitDone = true
  mapped : k.videoMem = k.page k.ta
  clear : ∀ t, (k.screen t).Clear blankCell

theorem BlankAhead.twins {k : Kernel} (ready : BlankAhead k) : Kernel.Twins k k where
  memory := ⟨k.mem, rfl⟩
  cursors := ready.cursors
  finished := ready.finished
  mapped := ready.mapped
  screens t := .refl (ready.clear t) (ready.cursors t)

theorem Kernel.Twins.sameTexts {s : Blinked} (twins : Twins s.blinking s.plain) : s.SameTexts :=
  fun t => (twins.screens t).sameText

/-- A step that leaves no cursor behind keeps the kernels twins. -/
theorem Kernel.Twins.perform {s : Blinked} (twins : Twins s.blinking s.plain) {a : BlinkAct}
    (tidy : ¬ LeavesCursor s.blinking a) : Twins (s.perform a).blinking (s.perform a).plain := by
  cases a with
  | putCursor => exact twins.cursor (Or.inr rfl)
  | remCursor => exact twins.cursor (Or.inl rfl)
  | console op =>
    cases op with
    | putc c => exact twins.putc fun kind drawn => tidy ⟨stroke_none.mp kind, drawn⟩
    | switchTo function => exact twins.switch function
    | key keypress =>
      refine twins.keyboardHandler fun ctrl kind drawn => tidy ⟨ctrl, ?_, drawn⟩
      exact (stroke_none.mp kind).resolve_right (getKey_noReturn _ _)

/-- A step that leaves one shows it. -/
theorem Kernel.Twins.leaves {s : Blinked} (twins : Twins s.blinking s.plain) {a : BlinkAct}
    (leaves : LeavesCursor s.blinking a) : ¬ (s.perform a).SameTexts := by
  obtain ⟨ts, ta, videoMem, flags⟩ := twins.shared
  intro same
  cases a with
  | putCursor => exact leaves
  | remCursor => exact leaves
  | console op =>
    cases op with
    | switchTo function => exact leaves
    | putc c =>
      obtain ⟨kind, drawn⟩ := leaves
      rw [ta] at drawn
      have stray := twins.put_stray (stroke_none.mpr kind) drawn
      have differ := same s.plain.ta
      rw [← twins.mapped] at stray
      change Window.SameText ((s.blinking.putAt s.blinking.videoMem s.blinking.ta c).screen s.plain.ta) _
        at differ
      rw [ta, videoMem] at differ
      exact stray differ
    | key keypress =>
      obtain ⟨ctrl, enter, drawn⟩ := leaves
      exact twins.ctrlEnter_stray ctrl enter drawn (same s.plain.ts)

/-- Blinking leaves the text alone as long as no line break comes without a
clean-up while the cursor is drawn, and no longer. -/
theorem blinking_keeps_text {k : Kernel} (ready : BlankAhead k) {history : List (Event Blinked BlinkAct)}
    {s : Blinked} (run : Run Blinked.Step ⟨k, k⟩ history s) :
    (∀ e ∈ history, e.post.SameTexts) ↔ ∀ e ∈ history, ¬ LeavesCursor e.pre.blinking e.act := by
  refine run.each_iff_allowed (fun _ s => Kernel.Twins s.blinking s.plain) (fun e => e.post.SameTexts)
    (fun s a => ¬ LeavesCursor s.blinking a) ready.twins ?_
  intro past s a s' twins move
  subst move
  have keeps (tidy : ¬ LeavesCursor s.blinking a) := twins.perform tidy
  exact ⟨⟨fun same leaves => twins.leaves leaves same, fun tidy => (keeps tidy).sameTexts⟩, keeps⟩

/-- The sample with its terminals set up and nothing on their screens. -/
def blankScreens : Kernel :=
  { sampleEntry with termInitDone := true, terminalInit := 4, mem := fun a => if a % 2 = 0 then 32 else 7 }

theorem blankScreens_blankAhead : BlankAhead blankScreens where
  cursors t := by simp [Kernel.console, blankScreens, sampleEntry, entryState, Console.OnScreen]
  finished := rfl
  mapped := rfl
  clear t j i _ := by
    have even : blankScreens.page t % 2 = 0 := by
      unfold Kernel.page termVid video
      split <;> omega
    have first : cell (blankScreens.page t) j i % 2 = 0 := by
      unfold cell
      omega
    have second : ¬ (cell (blankScreens.page t) j i + 1) % 2 = 0 := by omega
    exact Prod.ext (if_pos first) (if_neg second)

/-- A character is put where the cursor is drawn. -/
theorem blinking_keeps_text_sample :
    (⟨blankScreens.putCursor.putc 65, blankScreens.putc 65⟩ : Blinked).SameTexts := by
  have run : Run Blinked.Step ⟨blankScreens, blankScreens⟩
      [⟨⟨blankScreens.putCursor, blankScreens⟩, .console (.putc 65),
          ⟨blankScreens.putCursor.putc 65, blankScreens.putc 65⟩⟩,
        ⟨⟨blankScreens, blankScreens⟩, .putCursor, ⟨blankScreens.putCursor, blankScreens⟩⟩]
      ⟨blankScreens.putCursor.putc 65, blankScreens.putc 65⟩ :=
    (Run.start.next rfl).next rfl
  refine (blinking_keeps_text blankScreens_blankAhead run).mpr ?_ _ (List.mem_cons_self ..)
  intro e member
  simp only [List.mem_cons, List.not_mem_nil, or_false] at member
  rcases member with rfl | rfl
  · exact fun leaves => absurd leaves.1 (by decide)
  · exact id

/-- A newline is put where the cursor is drawn: a `_` stays at the start of the screen. -/
theorem blinking_leaves_cursor : ¬ ∀ (k : Kernel), BlankAhead k →
    ∀ (history : List (Event Blinked BlinkAct)) (s : Blinked),
      Run Blinked.Step ⟨k, k⟩ history s → s.SameTexts := by
  intro same
  have run : Run Blinked.Step ⟨blankScreens, blankScreens⟩
      [⟨⟨blankScreens.putCursor, blankScreens⟩, .console (.putc 10),
          ⟨blankScreens.putCursor.putc 10, blankScreens.putc 10⟩⟩,
        ⟨⟨blankScreens, blankScreens⟩, .putCursor, ⟨blankScreens.putCursor, blankScreens⟩⟩]
      ⟨blankScreens.putCursor.putc 10, blankScreens.putc 10⟩ :=
    (Run.start.next rfl).next rfl
  have texts := same _ blankScreens_blankAhead _ _ run
  have first := (texts 0).cells 0 0 (by decide)
  exact absurd first (by decide)

end UnixLite
