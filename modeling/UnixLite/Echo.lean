import UnixLite.Releases
import UnixLite.Blinking
import UnixLite.Library.Strip

namespace UnixLite

open Store Scroll Transition

/-- The rows by which `put_key` scrolls the screen. -/
def Console.rowsScrolled (s : Console) (c : UInt8) : Nat :=
  if c = 10 ∨ c = 13 then if s.y + 1 ≥ 25 then 1 else 0
  else if s.y = 24 ∧ s.x + 1 ≥ 80 then 1 else 0

/-- The memory after `put_key`: the character drawn, and the screen shifted
where it scrolls. -/
theorem Console.put_rowsScrolled {s : Console} (on : s.OnScreen) (vid : Nat) (c : UInt8) :
    let drawn := if c = 10 ∨ c = 13 then s.mem else drawCell vid s.y s.x c s.mem
    (s.put vid c).mem = if s.rowsScrolled c = 1 then shiftScreen vid drawn else drawn := by
  intro drawn
  obtain ⟨column, row⟩ := on
  by_cases break_ : c = 10 ∨ c = 13
  · simp only [put, rowsScrolled, drawn, break_, if_true, keepOnScreen]
    split <;> rfl
  · simp only [put, break_, if_false, put_place ⟨column, row⟩, rowsScrolled, drawn]
    by_cases room : s.x + 1 < 80
    · have still : ¬ (s.y = 24 ∧ s.x + 1 ≥ 80) := by omega
      simp only [room, if_true, still, if_false]
      rfl
    · have atEnd : s.x + 1 ≥ 80 := by omega
      simp only [room, if_false, atEnd, and_true, keepOnScreen]
      by_cases corner : s.y = 24
      · simp [corner]
      · have above : ¬ s.y + 1 ≥ 25 := by omega
        simp [corner, above]

theorem Console.window_scrolled {s : Console} (on : s.OnScreen) {c : UInt8} (plain : ¬ (c = 10 ∨ c = 13)) :
    (s.window video).scrolled = 80 * s.rowsScrolled c := by
  obtain ⟨column, row⟩ := on
  have corner : (s.window video).y + 1 = 25 ∧ (s.window video).x + 1 = 80 ↔ s.y = 24 ∧ s.x + 1 ≥ 80 := by
    simp only [window]
    omega
  simp only [rowsScrolled, plain, if_false, Window.scrolled, corner]
  split <;> rfl

namespace Kernel

/-- Cell `n` of the hardware screen in reading order, with its attribute. -/
def shownCell (k : Kernel) (n : Nat) : UInt8 × UInt8 := (k.mem (video + 2 * n), k.mem (video + 2 * n + 1))

theorem shownCell_reads (k : Kernel) (t : Fin 3) {n : Nat} (inside : n < 2000) :
    (k.window video t).Reads n (k.shownCell n) := by
  have whole : 80 * (n / 80) + n % 80 = n := Nat.div_add_mod n 80
  refine ⟨⟨n / 80, by omega⟩, ⟨n % 80, by omega⟩, whole, ?_⟩
  change (k.mem (cell video (n / 80) (n % 80)), k.mem (cell video (n / 80) (n % 80) + 1)) = k.shownCell n
  rw [cell, whole, shownCell]

theorem shownCell_of_reads {k : Kernel} {t : Fin 3} {n : Nat} {a : UInt8 × UInt8}
    (reads : (k.window video t).Reads n a) : k.shownCell n = a := by
  obtain ⟨j, i, rfl, rfl⟩ := reads
  rfl

/-- The characters of the line buffer as they are echoed. -/
def typedLine (k : Kernel) : List (UInt8 × UInt8) := (List.range k.keyIdx).map fun i => (k.keyboardBuf i, 7)

theorem typedLine_length (k : Kernel) : k.typedLine.length = k.keyIdx := by simp [typedLine]

/-- The echo of the line stands between `start` and the cursor. -/
structure EchoMirrors (start : Nat) (k : Kernel) : Prop where
  on : (k.console k.ts).OnScreen
  short : k.keyIdx ≤ 127
  mirrors : Window.Mirrors start k.typedLine (k.window video k.ts)

/-- A change of line and screen that keeps the echo, with the screen scrolled
by `rows`, and leaves what stands before the line. -/
structure Echo (start rows : Nat) (k k' : Kernel) : Prop where
  ts : k'.ts = k.ts
  fits : 80 * rows ≤ start
  mirrors : k'.EchoMirrors (start - 80 * rows)
  prompt : ∀ n, n + 80 * rows < start → k'.shownCell n = k.shownCell (n + 80 * rows)

theorem Echo.refl {start : Nat} {k : Kernel} (mirrors : k.EchoMirrors start) : Echo start 0 k k :=
  ⟨rfl, Nat.zero_le _, mirrors, fun _ _ => rfl⟩

theorem Echo.trans {start rows more : Nat} {a b c : Kernel} (first : Echo start rows a b)
    (second : Echo (start - 80 * rows) more b c) : Echo start (rows + more) a c := by
  obtain ⟨firstTs, firstFits, _, firstPrompt⟩ := first
  obtain ⟨secondTs, secondFits, mirrors, secondPrompt⟩ := second
  have split : 80 * (rows + more) = 80 * rows + 80 * more := Nat.mul_add 80 rows more
  refine ⟨secondTs.trans firstTs, by omega, ?_, fun n before => ?_⟩
  · rwa [split, ← Nat.sub_sub]
  · rw [secondPrompt n (by omega), firstPrompt _ (by omega)]
    congr 1
    omega

/-- The rows by which the echo of `c` scrolls. -/
def echoScrolls (k : Kernel) (c : UInt8) : Nat := (k.console k.ts).rowsScrolled c

theorem writeKey_typedLine {k k' : Kernel} {c : UInt8} (written : k.writeKey c = some k') :
    k'.typedLine = k.typedLine ++ [(c, 7)] := by
  have index := writeKey_keyIdx written
  obtain ⟨r, stored, rfl⟩ := Option.map_eq_some_iff.mp written
  have buf : r.1 = Function.update k.keyboardBuf k.keyIdx c := congrArg Prod.fst (writeChar_some stored).2
  simp only at index
  simp only [typedLine, index, buf, List.range_succ, List.map_append, List.map_singleton,
    Function.update_self, List.append_cancel_right_eq]
  refine List.map_congr_left fun i member => ?_
  rw [List.mem_range] at member
  rw [Function.update_of_ne (by omega)]

theorem deleteKey_typedLine {k k' : Kernel} (deleted : k.deleteKey = some k') :
    ∃ a, k.typedLine = k'.typedLine ++ [a] := by
  have index := deleteKey_keyIdx deleted
  obtain ⟨r, stored, rfl⟩ := Option.map_eq_some_iff.mp deleted
  have buf : r.1 = Function.update k.keyboardBuf r.2 0 := by
    rw [(deleteChar_some stored).2]
  simp only at index
  refine ⟨(k.keyboardBuf r.2, 7), ?_⟩
  simp only [typedLine, ← index, buf, List.range_succ, List.map_append, List.map_singleton,
    List.append_cancel_right_eq]
  refine List.map_congr_left fun i member => ?_
  rw [List.mem_range] at member
  rw [Function.update_of_ne (by omega)]

/-- The screen after `put_key` of a character. -/
theorem putKey_shown {k : Kernel} (on : (k.console k.ts).OnScreen) {c : UInt8} (plain : ¬ (c = 10 ∨ c = 13)) :
    (k.putKey c).window video (k.putKey c).ts = (k.window video k.ts).write blankCell (some (c, 7)) := by
  have drawn : (k.putKey c).window video k.ts = (k.window video k.ts).write blankCell (stroke c) :=
    (window_setConsole k k.ts _ video).trans (Console.window_put on c)
  rwa [stroke, if_neg plain] at drawn

theorem putKey_on {k : Kernel} (on : (k.console k.ts).OnScreen) (c : UInt8) :
    ((k.putKey c).console (k.putKey c).ts).OnScreen := by
  have next : (k.putKey c).console k.ts = (k.console k.ts).put video c := console_setConsole k k.ts _
  change ((k.putKey c).console k.ts).OnScreen
  rw [next]
  exact Console.put_onScreen on video c

theorem sameVideo_console {k k' : Kernel} (video : SameVideo k k') (t : Fin 3) : k'.console t = k.console t := by
  simp only [console, video.mem, video.cursorX t, video.cursorY t]

/-- The echo does not depend on the line before. -/
theorem Echo.sameVideo {start rows : Nat} {a b c : Kernel} (video : SameVideo a b) (echo : Echo start rows b c) :
    Echo start rows a c := by
  refine ⟨echo.ts.trans video.ts, echo.fits, echo.mirrors, fun n before => ?_⟩
  rw [echo.prompt n before, shownCell, video.mem]
  rfl

/-- The echo of a character behind the text on the screen. -/
theorem echo_putKey {start : Nat} {text : List (UInt8 × UInt8)} {k : Kernel} {c : UInt8}
    (on : (k.console k.ts).OnScreen) (mirrors : Window.Mirrors start text (k.window video k.ts))
    (stored : k.typedLine = text ++ [(c, 7)]) (short : k.keyIdx ≤ 127) (plain : ¬ (c = 10 ∨ c = 13)) :
    Echo start (k.echoScrolls c) k (k.putKey c) := by
  have onWindow : (k.window video k.ts).OnScreen := on
  have length := congrArg List.length stored
  rw [typedLine_length, List.length_append, List.length_singleton] at length
  have scrolled : (k.window video k.ts).scrolled = 80 * k.echoScrolls c := Console.window_scrolled on plain
  obtain ⟨fits, typed⟩ := @Window.Mirrors.type _ _ _ blankCell _ start text (c, 7) mirrors onWindow (by omega)
  have shown := putKey_shown on plain
  have place := mirrors.place
  have screen := onWindow.place_lt
  have others := (@Window.OnScreen.write_reads _ _ _ blankCell _ onWindow (c, 7)).2
  rw [← shown, scrolled] at typed others
  rw [scrolled] at fits
  refine ⟨rfl, fits, ⟨putKey_on on c, short, ?_⟩, fun n before => ?_⟩
  · have line : (k.putKey c).typedLine = text ++ [(c, 7)] := stored
    rw [line]
    exact typed
  · exact shownCell_of_reads (others n _ (by omega) (k.shownCell_reads k.ts (by omega)))

theorem writeKey_room {k k' : Kernel} {c : UInt8} (written : k.writeKey c = some k') (notEnter : c ≠ 10) :
    k.keyIdx < 127 := by
  obtain ⟨_, stored, _⟩ := Option.map_eq_some_iff.mp written
  exact (writeChar_some stored).1.resolve_right fun last => notEnter last.2

/-- A character that is stored and echoed. -/
theorem EchoMirrors.type {start : Nat} {k k1 : Kernel} {c : UInt8} (mirrors : k.EchoMirrors start)
    (written : k.writeKey c = some k1) (plain : ¬ (c = 10 ∨ c = 13)) :
    Echo start (k1.echoScrolls c) k (k1.putKey c) := by
  have video := writeKey_sameVideo written
  have index := writeKey_keyIdx written
  have room := writeKey_room written fun enter => plain (Or.inl enter)
  have same : k1.console k1.ts = k.console k.ts := by rw [video.ts, sameVideo_console video]
  refine Echo.sameVideo video (echo_putKey ?_ ?_ (writeKey_typedLine written) (by omega) plain)
  · rw [same]
    exact mirrors.on
  · rw [window, same]
    exact mirrors.mirrors

/-- The echo of Backspace behind the text on the screen. -/
theorem echo_rubOut {start : Nat} {a : UInt8 × UInt8} {k : Kernel} (on : (k.console k.ts).OnScreen)
    (mirrors : Window.Mirrors start (k.typedLine ++ [a]) (k.window video k.ts)) (short : k.keyIdx ≤ 127) :
    Echo start 0 k k.remc.checkCursor := by
  have onWindow : (k.window video k.ts).OnScreen := on
  have back := Console.remc_onScreen on
  have cursor : k.remc.checkCursor.console k.ts = (k.console k.ts).remc.checkCursor := by
    rw [remc_checkCursor]
    exact console_setConsole k k.ts _
  have shown : k.remc.checkCursor.window video k.ts =
      ((k.window video k.ts).back blankCell).undraw blankCell := by
    rw [window, cursor, Console.window_checkCursor back, Console.window_remc on]
    rfl
  have place := mirrors.place
  rw [List.length_append, List.length_singleton] at place
  have screen := onWindow.place_lt
  have moved := @Window.OnScreen.back_place _ _ _ blankCell _ onWindow (by omega)
  refine ⟨rfl, Nat.zero_le _, ⟨?_, short, ?_⟩, fun n before => ?_⟩
  · change (k.remc.checkCursor.console k.ts).OnScreen
    rw [cursor]
    exact back
  · change Window.Mirrors _ k.typedLine (k.remc.checkCursor.window video k.ts)
    rw [shown]
    exact mirrors.rubOut onWindow
  · have kept := @Window.OnScreen.back_reads _ _ _ blankCell _ onWindow n _ (by omega)
      (k.shownCell_reads k.ts (by omega))
    have undrawn := @Window.OnScreen.undraw_reads _ _ _ blankCell _ onWindow.back n _ (by omega) kept
    rw [← shown] at undrawn
    exact shownCell_of_reads undrawn

/-- A character that is removed and erased. -/
theorem EchoMirrors.rubOut {start : Nat} {k : Kernel} (mirrors : k.EchoMirrors start) :
    Echo start 0 k k.rubOut := by
  unfold Kernel.rubOut
  cases deleted : k.deleteKey with
  | none => exact Echo.refl mirrors
  | some k1 =>
    have video := deleteKey_sameVideo deleted
    have index := deleteKey_keyIdx deleted
    have short := mirrors.short
    obtain ⟨a, shorter⟩ := deleteKey_typedLine deleted
    have same : k1.console k1.ts = k.console k.ts := by rw [video.ts, sameVideo_console video]
    refine Echo.sameVideo video (echo_rubOut (a := a) ?_ ?_ (by omega))
    · rw [same]
      exact mirrors.on
    · rw [← shorter, window, same]
      exact mirrors.mirrors

/-- The rows by which the Tab loop scrolls. -/
def tabScrolls : Nat → Kernel → Nat
  | 0, _ => 0
  | n + 1, k =>
    match k.writeKey 32 with
    | none => 0
    | some k => k.echoScrolls 32 + tabScrolls n (k.putKey 32)

theorem EchoMirrors.tabs {start : Nat} {k : Kernel} (mirrors : k.EchoMirrors start) (n : Nat) :
    Echo start (tabScrolls n k) k (tabLoop n k) := by
  induction n generalizing start k with
  | zero => exact Echo.refl mirrors
  | succ n ih =>
    unfold tabScrolls tabLoop
    cases written : k.writeKey 32 with
    | none => exact Echo.refl mirrors
    | some k1 =>
      have typed := mirrors.type written (by decide)
      exact typed.trans (ih typed.mirrors)

/-- The keys that clear screen and line. -/
def Clears (k : Kernel) (code : UInt8) : Prop :=
  (getKey k.flags code).1.ctrl = true ∧
    ((getKey k.flags code).2 = 'l'.toUInt8 ∨ (getKey k.flags code).2 = 'L'.toUInt8)

instance decidableClears (k : Kernel) (code : UInt8) : Decidable (k.Clears code) :=
  inferInstanceAs (Decidable (_ ∧ _))

/-- The rows by which the echo of a key scrolls the screen, branch by branch
of `keyboard_handler`. -/
def keyScrolls (k : Kernel) (code : UInt8) : Nat :=
  let ascii := (getKey k.flags code).2
  let k := k.decoded code
  if k.flags.ctrl then
    if ascii = 'l'.toUInt8 ∨ ascii = 'L'.toUInt8 then 0
    else if ascii = 0 then 0
    else ((k.writeKey ascii).getD k).echoScrolls ascii
  else if ascii ≠ 0 then
    match k.writeKey ascii with
    | none => 0
    | some k => k.echoScrolls ascii
  else if k.flags.backspace then 0
  else if k.flags.tab then tabScrolls 4 k
  else 0

/-- No character is echoed that the line has no room for: with Ctrl down it
would be. -/
def EchoesStored (k : Kernel) (code : UInt8) : Prop :=
  k.ctrlDown code = true → code ∈ typingKeys → code = 0x26 ∨ k.keyIdx ≠ 127

theorem EchoMirrors.decoded {start : Nat} {k : Kernel} (mirrors : k.EchoMirrors start) (code : UInt8) :
    (k.decoded code).EchoMirrors start :=
  ⟨mirrors.on, mirrors.short, mirrors.mirrors⟩

theorem decoded_sameVideo (k : Kernel) (code : UInt8) : SameVideo k (k.decoded code) := by
  constructor <;> intros <;> rfl

theorem altHelper_still {k : Kernel} (stays : k.altHelper.1.ts = k.ts) : k.altHelper.1 = k := by
  unfold altHelper at stays ⊢
  split
  · rfl
  · rename_i inside
    rw [if_neg inside] at stays
    rw [terminalSwitch_still stays]

/-- A key that types nothing. -/
theorem held_echo {start : Nat} {k : Kernel} {code : UInt8} (mirrors : k.EchoMirrors start)
    (silent : code ∉ typingKeys) (stays : (k.keyboardHandler code).ts = k.ts) :
    ¬ k.Clears code ∧ Echo start (k.keyScrolls code) k (k.keyboardHandler code) := by
  have ascii := (getKey_silent k.flags code).mpr silent
  have plain : ¬ k.Clears code := by
    rintro ⟨_, small | capital⟩
    · rw [ascii] at small
      exact absurd small (by decide)
    · rw [ascii] at capital
      exact absurd capital (by decide)
  have scrolls : k.keyScrolls code = if k.ctrlDown code then 0 else if k.backspaceDown code then 0
      else if k.tabDown code then tabScrolls 4 (k.decoded code) else 0 := by
    rw [ctrlDown, backspaceDown, tabDown, ← getKey_ctrlDown, ← getKey_backspaceDown, ← getKey_tabDown]
    unfold keyScrolls
    rw [ascii]
    rfl
  have still := Echo.sameVideo (k.decoded_sameVideo code) (Echo.refl (mirrors.decoded code))
  refine ⟨plain, ?_⟩
  rw [keyboardHandler_held silent] at stays ⊢
  rw [scrolls]
  cases ctrl : k.ctrlDown code with
  | true => exact still
  | false =>
    cases backspace : k.backspaceDown code with
    | true => exact Echo.sameVideo (k.decoded_sameVideo code) (mirrors.decoded code).rubOut
    | false =>
      cases tab : k.tabDown code with
      | true => exact Echo.sameVideo (k.decoded_sameVideo code) ((mirrors.decoded code).tabs 4)
      | false =>
        cases alt : k.altDown code with
        | false => exact still
        | true =>
          simp only [ctrl, backspace, tab, alt, Bool.false_eq_true, if_false, if_true] at stays ⊢
          rw [altHelper_still (k := k.decoded code) stays]
          exact still

/-- Ctrl-L leaves an empty line at the start of a blank screen. -/
theorem clear_echo (k : Kernel) : k.clearScreen.clearKeyboardBuf.EchoMirrors 0 := by
  have ts : k.clearScreen.clearKeyboardBuf.ts = k.ts := rfl
  have line : k.clearScreen.clearKeyboardBuf.typedLine = [] := rfl
  have cursor : k.clearScreen.clearKeyboardBuf.console k.ts = (k.console k.ts).clearScreen := by
    rw [sameVideo_console k.clearScreen.clearKeyboardBuf_sameVideo, clearScreen, console_setConsole]
  refine ⟨?_, Nat.zero_le _, ?_⟩
  · rw [ts, cursor]
    exact Console.clearScreen_onScreen _
  · rw [line, ts, window, cursor, Console.window_clearScreen]
    exact Window.Mirrors.wipe

section Typing

variable {start : Nat} {k : Kernel} {code : UInt8}

/-- The character of a typing key, Enter apart. -/
theorem typing_char (typing : code ∈ typingKeys) (notEnter : code ≠ 0x1C) : ∃ c,
    getKey k.flags code = (k.flags, c) ∧ c ≠ 0 ∧ ¬ (c = 10 ∨ c = 13) ∧
      (c = 'l'.toUInt8 ∨ c = 'L'.toUInt8 ↔ code = 0x26) := by
  have decoded := getKey_unflagged (f := k.flags) (typingKeys_unflagged code typing)
  obtain ⟨visible, enter, letter⟩ :=
    typedChar_typing code typing k.flags.caps (k.flags.lShift || k.flags.rShift)
  have noReturn := getKey_noReturn k.flags code
  rw [decoded] at noReturn
  refine ⟨_, decoded, visible, ?_, letter⟩
  rintro (newline | carriage)
  · exact notEnter (enter.mp newline)
  · exact noReturn carriage

/-- A key that types, with Ctrl up. -/
theorem typing_echo (mirrors : k.EchoMirrors start) (typing : code ∈ typingKeys) (notEnter : code ≠ 0x1C)
    (ctrl : k.flags.ctrl = false) :
    ¬ k.Clears code ∧ Echo start (k.keyScrolls code) k (k.keyboardHandler code) := by
  obtain ⟨c, decoded, visible, plain, _⟩ := typing_char (k := k) typing notEnter
  have notNewline : c ≠ 10 := fun enter => plain (Or.inl enter)
  have same : k.decoded code = k := by rw [Kernel.decoded, decoded]
  refine ⟨fun clears => ?_, ?_⟩
  · have held := clears.1
    rw [decoded, ctrl] at held
    cases held
  · unfold keyScrolls keyboardHandler
    rw [same, decoded]
    simp only [ctrl, visible, Bool.false_eq_true, if_false, ne_eq, not_false_eq_true, if_true, notNewline]
    cases written : k.writeKey c with
    | none => exact Echo.refl mirrors
    | some k1 => exact mirrors.type written plain

/-- With Ctrl down a key other than L echoes what it types, stored or not. -/
theorem ctrl_handled (typing : code ∈ typingKeys) (notEnter : code ≠ 0x1C) (ctrl : k.flags.ctrl = true)
    (notL : code ≠ 0x26) : ∃ c, ¬ k.Clears code ∧ c ≠ 0 ∧ ¬ (c = 10 ∨ c = 13) ∧
      k.keyboardHandler code = ((k.writeKey c).getD k).putKey c ∧
        k.keyScrolls code = ((k.writeKey c).getD k).echoScrolls c := by
  obtain ⟨c, decoded, visible, plain, letter⟩ := typing_char (k := k) typing notEnter
  have other : ¬ (c = 'l'.toUInt8 ∨ c = 'L'.toUInt8) := fun isL => notL (letter.mp isL)
  have same : k.decoded code = k := by rw [Kernel.decoded, decoded]
  refine ⟨c, fun clears => ?_, visible, plain, ?_, ?_⟩
  · have isL := clears.2
    rw [decoded] at isL
    exact other isL
  · unfold keyboardHandler ctrlHelper
    rw [decoded]
    simp only [ctrl, if_true, if_neg other, if_neg visible]
  · unfold keyScrolls
    rw [same, decoded]
    simp only [ctrl, if_true, if_neg other, if_neg visible]

theorem ctrl_echo (mirrors : k.EchoMirrors start) (typing : code ∈ typingKeys) (notEnter : code ≠ 0x1C)
    (ctrl : k.flags.ctrl = true) (notL : code ≠ 0x26) (room : k.keyIdx ≠ 127) :
    ¬ k.Clears code ∧ Echo start (k.keyScrolls code) k (k.keyboardHandler code) := by
  obtain ⟨c, plainKey, _, plain, handled, scrolls⟩ := ctrl_handled typing notEnter ctrl notL
  have short := mirrors.short
  refine ⟨plainKey, ?_⟩
  rw [handled, scrolls]
  cases written : k.writeKey c with
  | none =>
    rw [writeKey, Option.map_eq_none_iff, writeChar_eq_none] at written
    exact absurd (Or.inl (by omega)) written
  | some k1 => exact mirrors.type written plain

/-- A full line takes no character, but its echo moves the cursor on. -/
theorem ctrl_overfull (mirrors : k.EchoMirrors start) (typing : code ∈ typingKeys) (notEnter : code ≠ 0x1C)
    (ctrl : k.flags.ctrl = true) (notL : code ≠ 0x26) (full : k.keyIdx = 127) :
    ¬ k.Clears code ∧ ((k.keyboardHandler code).window video (k.keyboardHandler code).ts).place ≠
      start - 80 * k.keyScrolls code + (k.keyboardHandler code).keyIdx := by
  obtain ⟨c, plainKey, _, plain, handled, scrolls⟩ := ctrl_handled typing notEnter ctrl notL
  have refused : k.writeKey c = none := by
    rw [writeKey, Option.map_eq_none_iff, writeChar_eq_none]
    rintro (small | last)
    · omega
    · exact plain (Or.inl last.2)
  rw [refused, Option.getD_none] at handled scrolls
  refine ⟨plainKey, fun place => ?_⟩
  have on : (k.window video k.ts).OnScreen := mirrors.on
  have moved := @Window.OnScreen.write_place _ _ _ blankCell _ on (c, 7)
  have scrolled : (k.window video k.ts).scrolled = 80 * k.echoScrolls c :=
    Console.window_scrolled mirrors.on plain
  obtain ⟨fits, _⟩ := @Window.Mirrors.type _ _ _ blankCell _ _ _ (c, 7) mirrors.mirrors on
    (by rw [typedLine_length]; omega)
  have before := mirrors.mirrors.place
  have index : (k.putKey c).keyIdx = k.keyIdx := rfl
  rw [typedLine_length] at before
  rw [handled, putKey_shown mirrors.on plain, index, scrolls] at place
  omega

end Typing

/-- One key. -/
theorem keyboardHandler_echo {start : Nat} {k : Kernel} {code : UInt8} (mirrors : k.EchoMirrors start)
    (notEnter : code ≠ 0x1C) (stays : (k.keyboardHandler code).ts = k.ts) :
    (k.Clears code ∧ k.EchoesStored code ∧ (k.keyboardHandler code).EchoMirrors 0) ∨
      (¬ k.Clears code ∧ k.EchoesStored code ∧ Echo start (k.keyScrolls code) k (k.keyboardHandler code)) ∨
      (¬ k.Clears code ∧ ¬ k.EchoesStored code ∧
        ((k.keyboardHandler code).window video (k.keyboardHandler code).ts).place ≠
          start - 80 * k.keyScrolls code + (k.keyboardHandler code).keyIdx) := by
  by_cases typing : code ∈ typingKeys
  swap
  · obtain ⟨plain, echo⟩ := held_echo mirrors typing stays
    exact Or.inr (Or.inl ⟨plain, fun _ types => absurd types typing, echo⟩)
  have held : k.ctrlDown code = k.flags.ctrl := by
    obtain ⟨c, decoded, _⟩ := typing_char (k := k) typing notEnter
    rw [ctrlDown, ← getKey_ctrlDown, decoded]
  cases ctrl : k.flags.ctrl with
  | false =>
    obtain ⟨plain, echo⟩ := typing_echo mirrors typing notEnter ctrl
    refine Or.inr (Or.inl ⟨plain, fun down => ?_, echo⟩)
    rw [held, ctrl] at down
    cases down
  | true =>
    by_cases isL : code = 0x26
    · obtain ⟨c, decoded, _, _, letter⟩ := typing_char (k := k) typing notEnter
      have clears : k.keyboardHandler code = k.clearScreen.clearKeyboardBuf := by
        unfold keyboardHandler ctrlHelper
        rw [decoded]
        simp only [ctrl, if_true, if_pos (letter.mpr isL)]
      refine Or.inl ⟨⟨by rw [decoded]; exact ctrl, by rw [decoded]; exact letter.mpr isL⟩,
        fun _ _ => Or.inl isL, ?_⟩
      rw [clears]
      exact clear_echo k
    · by_cases full : k.keyIdx = 127
      · obtain ⟨plain, broken⟩ := ctrl_overfull mirrors typing notEnter ctrl isL full
        refine Or.inr (Or.inr ⟨plain, fun stored => ?_, broken⟩)
        rcases stored (held.trans ctrl) typing with same | room
        · exact isL same
        · exact room full
      · obtain ⟨plain, echo⟩ := ctrl_echo mirrors typing notEnter ctrl isL full
        exact Or.inr (Or.inl ⟨plain, fun _ _ => Or.inr full, echo⟩)

end Kernel

/-- The kernel, and the cell of the screen where the line starts. -/
structure TypedAt where
  kernel : Kernel
  start : Nat

namespace TypedAt

/-- The line starts further up by what the echo scrolls, and at the top after
Ctrl-L. -/
def next (s : TypedAt) (code : UInt8) : TypedAt where
  kernel := s.kernel.keyboardHandler code
  start := if s.kernel.Clears code then 0 else s.start - 80 * s.kernel.keyScrolls code

/-- A key other than Enter that shows no other terminal. -/
def Step (s : TypedAt) (code : UInt8) (s' : TypedAt) : Prop :=
  code ≠ 0x1C ∧ (s.kernel.keyboardHandler code).ts = s.kernel.ts ∧ s' = s.next code

/-- The cells from the start of the line up to the cursor hold the line. -/
structure Mirrored (s : TypedAt) : Prop where
  cursor : 80 * (s.kernel.console s.kernel.ts).y + (s.kernel.console s.kernel.ts).x = s.start + s.kernel.keyIdx
  cells : ∀ i, i < s.kernel.keyIdx → s.kernel.shownCell (s.start + i) = (s.kernel.keyboardBuf i, 7)

/-- What stands before the line is kept, moved up by what the echo scrolls. -/
def KeepsPrompt (e : Event TypedAt UInt8) : Prop :=
  ¬ e.pre.kernel.Clears e.act → ∀ n, n < e.post.start →
    e.post.kernel.shownCell n = e.pre.kernel.shownCell (n + 80 * e.pre.kernel.keyScrolls e.act)

theorem mirrored {s : TypedAt} (mirrors : s.kernel.EchoMirrors s.start) : s.Mirrored := by
  have place := mirrors.mirrors.place
  rw [Kernel.typedLine_length] at place
  refine ⟨place, fun i inside => ?_⟩
  have reads := mirrors.mirrors.cells i (by rw [Kernel.typedLine_length]; exact inside)
  rw [Kernel.shownCell_of_reads reads]
  simp [Kernel.typedLine]

theorem step_mirrored {s s' : TypedAt} {code : UInt8} (mirrors : s.kernel.EchoMirrors s.start)
    (move : Step s code s') :
    (s'.Mirrored ∧ KeepsPrompt ⟨s, code, s'⟩ ↔ s.kernel.EchoesStored code) ∧
      (s.kernel.EchoesStored code → s'.kernel.EchoMirrors s'.start) := by
  obtain ⟨notEnter, stays, rfl⟩ := move
  rcases Kernel.keyboardHandler_echo mirrors notEnter stays with
    ⟨clears, stored, cleared⟩ | ⟨plain, stored, echo⟩ | ⟨plain, notStored, misplaced⟩
  · have after : (s.next code).kernel.EchoMirrors (s.next code).start := by
      rw [next, if_pos clears]
      exact cleared
    exact ⟨⟨fun _ => stored, fun _ => ⟨mirrored after, fun other => absurd clears other⟩⟩, fun _ => after⟩
  · have start : (s.next code).start = s.start - 80 * s.kernel.keyScrolls code := if_neg plain
    have after : (s.next code).kernel.EchoMirrors (s.next code).start := by
      rw [start]
      exact echo.mirrors
    refine ⟨⟨fun _ => stored, fun _ => ⟨mirrored after, fun _ n before => ?_⟩⟩, fun _ => after⟩
    have before : n < (s.next code).start := before
    have fits := echo.fits
    exact echo.prompt n (by omega)
  · have start : (s.next code).start = s.start - 80 * s.kernel.keyScrolls code := if_neg plain
    refine ⟨⟨fun kept => ?_, fun stored => absurd stored notStored⟩, fun stored => absurd stored notStored⟩
    have cursor := kept.1.cursor
    rw [start] at cursor
    exact absurd cursor misplaced

end TypedAt

/-- From an empty line on, anywhere on the screen, the echo is the line after
every key exactly when no key is typed with Ctrl to a line that is full. -/
theorem echo_mirrors_line {k : Kernel} (on : (k.console k.ts).OnScreen) (empty : k.keyIdx = 0)
    {history : List (Event TypedAt UInt8)} {s : TypedAt}
    (run : Run TypedAt.Step ⟨k, 80 * (k.console k.ts).y + (k.console k.ts).x⟩ history s) :
    (∀ e ∈ history, e.post.Mirrored ∧ TypedAt.KeepsPrompt e) ↔
      ∀ e ∈ history, e.pre.kernel.EchoesStored e.act := by
  refine run.each_iff_allowed (fun _ s => s.kernel.EchoMirrors s.start)
    (fun e => e.post.Mirrored ∧ TypedAt.KeepsPrompt e) (fun s code => s.kernel.EchoesStored code) ?_
    (fun _ s code s' mirrors move => TypedAt.step_mirrored mirrors move)
  have line : k.typedLine = [] := by rw [Kernel.typedLine, empty, List.range_zero, List.map_nil]
  refine ⟨on, by rw [empty]; exact Nat.zero_le _, ?_⟩
  rw [line]
  exact ⟨rfl, fun _ inside => absurd inside (Nat.not_lt_zero _)⟩

/-- The keys handled one after the other, with the steps recorded. -/
def TypedAt.replayKeys (codes : List UInt8) (s : TypedAt) : Option (List (Event TypedAt UInt8) × TypedAt) :=
  replay (fun s code =>
    if code ≠ 0x1C ∧ (s.kernel.keyboardHandler code).ts = s.kernel.ts then some (code, s.next code)
    else none) codes ([], s)

theorem TypedAt.replayKeys_run {codes : List UInt8} {s : TypedAt} {result : List (Event TypedAt UInt8) × TypedAt}
    (done : replayKeys codes s = some result) : Run Step s result.1 result.2 := by
  refine replay_run (fun s code code' s' taken => ?_) .start done
  split at taken
  · rename_i plain
    cases taken
    exact ⟨plain.1, plain.2, rfl⟩
  · cases taken

instance (k : Kernel) (code : UInt8) : Decidable (k.EchoesStored code) :=
  inferInstanceAs (Decidable (k.ctrlDown code = true → code ∈ typingKeys → code = 0x26 ∨ k.keyIdx ≠ 127))

/-- On the cleared screen of the sample a line is typed that wraps, with two
letters taken back, a Tab and a letter with Ctrl. -/
def wrappedKeys : List UInt8 := List.replicate 80 0x1E ++ [0x30, 0x0E, 0x0E, 0x8E, 0x0F, 0x8F, 0x1D, 0x1E]

theorem echo_mirrors_line_sample : ∃ (history : List (Event TypedAt UInt8)) (s : TypedAt),
    Run TypedAt.Step ⟨sampleEntry, 0⟩ history s ∧ history.length = 88 ∧ s.kernel.keyIdx = 84 ∧
      ∀ e ∈ history, e.post.Mirrored := by
  have computed : (TypedAt.replayKeys wrappedKeys ⟨sampleEntry, 0⟩).map (fun r =>
      (r.1.length, r.2.kernel.keyIdx, decide (∀ e ∈ r.1, e.pre.kernel.EchoesStored e.act))) = some (88, 84, true) := by
    decide +kernel
  obtain ⟨r, done, values⟩ := Option.map_eq_some_iff.mp computed
  simp only [Prod.mk.injEq, decide_eq_true_eq] at values
  obtain ⟨length, index, stored⟩ := values
  have run : Run TypedAt.Step ⟨sampleEntry, 0⟩ r.1 r.2 := TypedAt.replayKeys_run done
  have mirrored := (echo_mirrors_line (k := sampleEntry) ⟨by decide, by decide⟩ rfl run).mpr stored
  exact ⟨r.1, r.2, run, length, index, fun e member => (mirrored e member).1⟩

/-- In a full line Ctrl-A is echoed but not stored. -/
theorem echo_not_mirrored : ¬ ∀ (k : Kernel), (k.console k.ts).OnScreen → k.keyIdx = 0 →
    ∀ (history : List (Event TypedAt UInt8)) (s : TypedAt),
      Run TypedAt.Step ⟨k, 80 * (k.console k.ts).y + (k.console k.ts).x⟩ history s →
        ∀ e ∈ history, e.post.Mirrored := by
  intro always
  have computed : (TypedAt.replayKeys (List.replicate 127 0x1E ++ [0x1D, 0x1E]) ⟨sampleEntry, 0⟩).map
      (fun r => (r.1.length, r.2.start, r.2.kernel.keyIdx, 80 * (r.2.kernel.console r.2.kernel.ts).y +
        (r.2.kernel.console r.2.kernel.ts).x)) = some (129, 0, 127, 128) := by
    decide +kernel
  obtain ⟨⟨history, s⟩, done, values⟩ := Option.map_eq_some_iff.mp computed
  simp only [Prod.mk.injEq] at values
  obtain ⟨length, start, index, place⟩ := values
  have run : Run TypedAt.Step ⟨sampleEntry, 0⟩ history s := TypedAt.replayKeys_run done
  have kept := always sampleEntry ⟨by decide, by decide⟩ rfl history s run
  cases run with
  | start => cases length
  | next _ _ =>
    have cursor := (kept _ (List.mem_cons_self ..)).cursor
    simp only at cursor
    rw [start, index, place] at cursor
    cases cursor

end UnixLite
