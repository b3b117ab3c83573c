import UnixLite.Terminals

namespace UnixLite

open Store Transition

namespace Kernel

/-- The cursor of every terminal is on the screen. -/
def CursorsOnScreen (k : Kernel) : Prop := ∀ t, (k.console t).OnScreen

/-- A change of the screen, line and cursor of one terminal. -/
structure Touches (t : Fin 3) (k k' : Kernel) : Prop where
  ts : k'.ts = k.ts
  ta : k'.ta = k.ta
  videoMem : k'.videoMem = k.videoMem
  ptUser : k'.ptUser = k.ptUser
  termInitDone : k'.termInitDone = k.termInitDone
  terminalInit : k'.terminalInit = k.terminalInit
  others : ∀ u, u ≠ t → k'.logical u = k.logical u
  cursors : k'.CursorsOnScreen

/-- A console routine writes one page and moves one cursor. -/
theorem setConsole_touches {k : Kernel} {t : Fin 3} {s : Console} (cursors : k.CursorsOnScreen)
    (page : PageWrites (k.page t) k.mem s.mem) (on : s.OnScreen) : Touches t k (k.setConsole t s) := by
  have terminal (u : Fin 3) (other : u ≠ t) : (k.setConsole t s).terminals u = k.terminals u := by
    simp [setConsole, setTerm, other]
  constructor
  case others =>
    intro u other
    have apart := k.page_apart other
    refine logical_eq ?_ ?_ ?_ ?_ ?_ ?_ ?_ ?_
    · rfl
    · intro i inPage
      exact page _ (by omega)
    · exact fun _ _ _ => rfl
    · exact fun _ => rfl
    · intro _ _ _
      rw [terminal u other]
    · intro _
      rw [terminal u other]
    · rw [terminal u other]
    · rw [terminal u other]
  case cursors =>
    intro u
    by_cases same : u = t
    · subst same
      simpa [console, setConsole, setTerm] using on
    · have old := cursors u
      simpa only [console, Console.OnScreen, terminal u same] using old
  all_goals rfl

theorem Touches.refl {k : Kernel} (t : Fin 3) (cursors : k.CursorsOnScreen) : Touches t k k := by
  constructor <;> first | exact cursors | (intros; rfl)

theorem Touches.trans {a b c : Kernel} {t : Fin 3} (first : Touches t a b) (second : Touches t b c) :
    Touches t a c where
  ts := second.ts.trans first.ts
  ta := second.ta.trans first.ta
  videoMem := second.videoMem.trans first.videoMem
  ptUser := second.ptUser.trans first.ptUser
  termInitDone := second.termInitDone.trans first.termInitDone
  terminalInit := second.terminalInit.trans first.terminalInit
  others u other := (second.others u other).trans (first.others u other)
  cursors := second.cursors

theorem putKey_touches {k : Kernel} (cursors : k.CursorsOnScreen) (c : UInt8) :
    Touches k.ts k (k.putKey c) := by
  have shown := page_shown (rfl : k.ts = k.ts)
  refine setConsole_touches cursors ?_ (Console.put_onScreen (cursors k.ts) video c)
  rw [shown]
  exact Console.put_page (cursors k.ts) video c

theorem remc_touches {k : Kernel} (cursors : k.CursorsOnScreen) : Touches k.ts k k.remc := by
  have shown := page_shown (rfl : k.ts = k.ts)
  refine setConsole_touches cursors ?_ (Console.remc_onScreen (cursors k.ts))
  rw [shown]
  exact Console.remc_page (cursors k.ts)

theorem checkCursor_touches {k : Kernel} (cursors : k.CursorsOnScreen) :
    Touches k.ts k k.checkCursor := by
  have shown := page_shown (rfl : k.ts = k.ts)
  refine setConsole_touches cursors ?_ (cursors k.ts)
  rw [shown]
  exact Console.checkCursor_page (cursors k.ts)

theorem clearScreen_touches {k : Kernel} (cursors : k.CursorsOnScreen) :
    Touches k.ts k k.clearScreen := by
  have shown := page_shown (rfl : k.ts = k.ts)
  refine setConsole_touches cursors ?_ (Console.clearScreen_onScreen _)
  rw [shown]
  exact (k.console k.ts).clearScreen_page

/-- A change of the shown line alone. -/
theorem line_touches {k k' : Kernel} (cursors : k.CursorsOnScreen) (video : SameVideo k k')
    (terminals : k'.terminals = k.terminals) : Touches k.ts k k' := by
  constructor
  case others =>
    intro u other
    have hidden : k.ts ≠ u := Ne.symm other
    apply logical_eq video.ts
    · intro _ _
      rw [video.mem]
    · exact fun _ _ shown => absurd shown hidden
    · exact fun shown => absurd shown hidden
    · exact fun _ _ _ => by rw [terminals]
    · exact fun _ => by rw [terminals]
    · exact video.cursorX u
    · exact video.cursorY u
  case cursors =>
    intro u
    have old := cursors u
    simpa only [console, Console.OnScreen, terminals] using old
  case ts => exact video.ts
  case ta => exact video.ta
  case videoMem => exact video.videoMem
  case ptUser => exact video.ptUser
  case termInitDone => exact video.termInitDone
  case terminalInit => exact video.terminalInit

theorem writeKey_touches {k k' : Kernel} {c : UInt8} (cursors : k.CursorsOnScreen)
    (written : k.writeKey c = some k') : Touches k.ts k k' := by
  have video := writeKey_sameVideo written
  obtain ⟨r, _, rfl⟩ := Option.map_eq_some_iff.mp written
  exact line_touches cursors video rfl

theorem deleteKey_touches {k k' : Kernel} (cursors : k.CursorsOnScreen)
    (deleted : k.deleteKey = some k') : Touches k.ts k k' := by
  have video := deleteKey_sameVideo deleted
  obtain ⟨r, _, rfl⟩ := Option.map_eq_some_iff.mp deleted
  exact line_touches cursors video rfl

theorem clearKeyboardBuf_touches {k : Kernel} (cursors : k.CursorsOnScreen) :
    Touches k.ts k k.clearKeyboardBuf :=
  line_touches cursors k.clearKeyboardBuf_sameVideo rfl

/-- A change of the shown terminal goes on from one that kept it shown. -/
theorem Touches.next {a b c : Kernel} (first : Touches a.ts a b)
    (second : b.CursorsOnScreen → Touches b.ts b c) : Touches a.ts a c := by
  have step := second first.cursors
  rw [first.ts] at step
  exact first.trans step

theorem tabLoop_touches (n : Nat) {k : Kernel} (cursors : k.CursorsOnScreen) :
    Touches k.ts k (tabLoop n k) := by
  induction n generalizing k with
  | zero => exact Touches.refl k.ts cursors
  | succ n ih =>
    unfold tabLoop
    split
    · exact Touches.refl k.ts cursors
    · rename_i k1 written
      have echoed := (writeKey_touches cursors written).next (fun on => putKey_touches on 32)
      exact echoed.next (fun on => ih on)

theorem ctrlHelper_touches {k : Kernel} (cursors : k.CursorsOnScreen) (c : UInt8) :
    Touches k.ts k (k.ctrlHelper c) := by
  unfold ctrlHelper
  split
  · exact (clearScreen_touches cursors).next clearKeyboardBuf_touches
  · split
    · exact Touches.refl k.ts cursors
    · cases written : k.writeKey c with
      | none => exact putKey_touches cursors c
      | some k1 => exact (writeKey_touches cursors written).next (fun on => putKey_touches on c)

/-- A key works on the shown terminal, or it asks for another one. -/
theorem keyboardHandler_touches {k : Kernel} (cursors : k.CursorsOnScreen) (keypress : UInt8) :
    Touches k.ts k (k.keyboardHandler keypress) ∨ ∃ function, k.keyboardHandler keypress =
      ({ k with flags := (getKey k.flags keypress).1 }.terminalSwitch function).1 := by
  unfold keyboardHandler
  extract_lets ascii k1
  have start : Touches k.ts k k1 := by
    constructor <;> first | exact cursors | (intros; rfl)
  split
  · exact Or.inl (start.next fun on => ctrlHelper_touches on ascii)
  split
  · split
    · exact Or.inl start
    · rename_i k2 written
      have typed := start.next fun on => writeKey_touches on written
      refine Or.inl (typed.next fun on => ?_)
      split
      · exact (checkCursor_touches on).next fun on => putKey_touches on ascii
      · exact putKey_touches on ascii
  split
  · split
    · exact Or.inl start
    · rename_i k2 deleted
      have erased := start.next fun on => deleteKey_touches on deleted
      exact Or.inl ((erased.next remc_touches).next checkCursor_touches)
  split
  · exact Or.inl (start.next fun on => tabLoop_touches 4 on)
  split
  · unfold altHelper
    split
    · exact Or.inl start
    · exact Or.inr ⟨_, rfl⟩
  · exact Or.inl start

/-- No key changes a terminal that is not shown. -/
theorem keyboardHandler_logical {k : Kernel} (cursors : k.CursorsOnScreen) (keypress : UInt8)
    {t : Fin 3} (hidden : t ≠ k.ts) : (k.keyboardHandler keypress).logical t = k.logical t := by
  rcases keyboardHandler_touches cursors keypress with touches | ⟨function, switch⟩
  · exact touches.others t hidden
  · rw [switch, terminalSwitch_logical]
    rfl

/-- The invariant of the display: cursors stay on the screen, and after the
boot both aliases of the video page follow the active terminal's screen. -/
structure Display (k : Kernel) : Prop where
  cursors : k.CursorsOnScreen
  setUp : k.termInitDone = true → 3 < k.terminalInit
  mapped : k.termInitDone = true →
    k.videoMem = k.page k.ta ∧ (k.ptUser 0xB8).addr.toNat * 4096 = k.page k.ta

theorem Display.keep {k k' : Kernel} (ok : Display k) (cursors : k'.CursorsOnScreen)
    (ts : k'.ts = k.ts) (ta : k'.ta = k.ta) (videoMem : k'.videoMem = k.videoMem)
    (addr : (k'.ptUser 0xB8).addr = (k.ptUser 0xB8).addr)
    (termInitDone : k'.termInitDone = k.termInitDone)
    (terminalInit : k'.terminalInit = k.terminalInit) : Display k' where
  cursors := cursors
  setUp done := by
    have count := ok.setUp (termInitDone ▸ done)
    omega
  mapped done := by
    have page : k'.page k'.ta = k.page k.ta := by simp only [Kernel.page, ts, ta]
    rw [page, videoMem, addr]
    exact ok.mapped (termInitDone ▸ done)

theorem Display.touches {k k' : Kernel} {t : Fin 3} (ok : Display k) (touches : Touches t k k') :
    Display k' :=
  ok.keep touches.cursors touches.ts touches.ta touches.videoMem (by rw [touches.ptUser])
    touches.termInitDone touches.terminalInit

theorem cursors_same {k k' : Kernel} (cursors : k.CursorsOnScreen)
    (same : ∀ t, (k'.terminals t).cursorX = (k.terminals t).cursorX ∧
      (k'.terminals t).cursorY = (k.terminals t).cursorY) : k'.CursorsOnScreen := by
  intro t
  obtain ⟨x, y⟩ := same t
  have old := cursors t
  simpa only [console, Console.OnScreen, x, y] using old

theorem cursors_logical {k k' : Kernel} (cursors : k.CursorsOnScreen)
    (same : ∀ t, k'.logical t = k.logical t) : k'.CursorsOnScreen :=
  cursors_same cursors fun t =>
    ⟨congrArg Logical.cursorX (same t), congrArg Logical.cursorY (same t)⟩

theorem Display.video {k k' : Kernel} (ok : Display k) (video : SameVideo k k') : Display k' :=
  ok.keep (cursors_same ok.cursors fun t => ⟨video.cursorX t, video.cursorY t⟩) video.ts video.ta
    video.videoMem (by rw [video.ptUser]) video.termInitDone video.terminalInit

theorem Display.started {fs : FsImage} {k k' : Kernel} {command : List UInt8} {regs : Regs}
    {pid : Int} (ok : Display k) (run : k.Started fs command regs pid k') : Display k' :=
  ok.keep (cursors_same ok.cursors run.cursor) run.lines.ts run.ta run.videoMem
    (by rw [run.videoPage]) run.termInitDone run.terminalInit

/-- Output keeps the cursors on the screen, whatever page it is written to. -/
theorem Display.putc {k : Kernel} (ok : Display k) (c : UInt8) : Display (k.putc c) := by
  refine ok.keep ?_ rfl rfl rfl rfl rfl rfl
  intro t
  by_cases same : t = k.ta
  · subst same
    have on := Console.put_onScreen (ok.cursors k.ta) k.videoMem c
    simpa [Kernel.putc, console, setConsole, setTerm] using on
  · have old := ok.cursors t
    simpa [Kernel.putc, console, Console.OnScreen, setConsole, setTerm, same] using old

theorem Display.putLoop {k : Kernel} (ok : Display k) (idxs : List Nat) (src : Nat → UInt8) :
    Display (idxs.foldl (fun k idx => k.putc (src idx)) k) := by
  induction idxs generalizing k with
  | nil => exact ok
  | cons idx rest ih => exact ih (ok.putc (src idx))

/-- Mapping the active terminal's screen points both aliases at its page. -/
theorem mapVideo_mapped (k : Kernel) : k.mapVideo.videoMem = k.mapVideo.page k.mapVideo.ta ∧
    (k.mapVideo.ptUser 0xB8).addr.toNat * 4096 = k.mapVideo.page k.mapVideo.ta := by
  unfold mapVideo
  by_cases shown : k.ts = k.ta
  · rw [if_pos shown]
    simp [Kernel.page, shown, setVidmemPage, vidMemPages, Function.update_self, video]
  · rw [if_neg shown]
    have choices : k.ta = 0 ∨ k.ta = 1 ∨ k.ta = 2 := by omega
    rcases choices with ta | ta | ta <;> rw [ta] at shown <;>
      simp [Kernel.page, ta, shown, setVidmemPage, vidMemPages, Function.update_self, termVid]

theorem mapVideo_setUp (k : Kernel) : k.mapVideo.terminalInit = k.terminalInit := by
  unfold mapVideo
  split <;> rfl

theorem Display.terminalSwitch {k : Kernel} (ok : Display k) (function : Nat) :
    Display (k.terminalSwitch function).1 := by
  have cursors := cursors_logical ok.cursors (k.terminalSwitch_logical function)
  unfold Kernel.terminalSwitch at cursors ⊢
  extract_lets _ k1 at cursors
  extract_lets
  split
  · exact ok
  rename_i other
  rw [if_neg other] at cursors
  dsimp only at cursors ⊢
  have count : k1.terminalInit = k.terminalInit := rfl
  split
  · rename_i finished
    have setUp := ok.setUp finished
    have mapped := k1.mapVideo_setUp
    rw [if_pos finished] at cursors
    exact ⟨cursors, fun _ => by omega, fun _ => mapVideo_mapped _⟩
  · rename_i notDone
    rw [if_neg notDone] at cursors
    exact ⟨cursors, fun finished => absurd finished notDone, fun finished => absurd finished notDone⟩

/-- A tick leaves both aliases at the screen of the terminal it switches to. -/
theorem Display.tick {k : Kernel} (ok : Display k) {regs : Regs}
    (tick : k.Switched regs (k.saveContext regs).finishInit.nextTerminal) :
    Display (k.saveContext regs).finishInit.nextTerminal where
  cursors := cursors_logical ok.cursors (k.tick_logical regs)
  setUp _ := tick.terminalInit
  mapped _ := mapVideo_mapped _

end Kernel

end UnixLite
