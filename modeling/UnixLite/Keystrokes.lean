import UnixLite.Reading

namespace UnixLite

open Store LineEditor

/-- A row of a US keyboard: the scan code of its first key, whether Caps Lock
acts on it, and what its keys type without and with Shift. -/
structure KeyRow where
  first : UInt8
  caps : Bool
  plain : List Char
  shifted : List Char

/-- The rows of the keyboard; Enter is at the end of the second one. Caps Lock
should act on letters only. It acts on whole rows here, that of the digits and
the key to their left apart, so the punctuation in them is shifted as well. -/
def keyRows : List KeyRow :=
  [⟨0x02, false, ['1', '2', '3', '4', '5', '6', '7', '8', '9', '0', '-', '='],
      ['!', '@', '#', '$', '%', '^', '&', '*', '(', ')', '_', '+']⟩,
   ⟨0x29, false, [Char.ofNat 0x60], ['~']⟩,
   ⟨0x10, true, ['q', 'w', 'e', 'r', 't', 'y', 'u', 'i', 'o', 'p', '[', ']', Char.ofNat 10],
      ['Q', 'W', 'E', 'R', 'T', 'Y', 'U', 'I', 'O', 'P', Char.ofNat 0x7B, Char.ofNat 0x7D, Char.ofNat 10]⟩,
   ⟨0x1E, true, ['a', 's', 'd', 'f', 'g', 'h', 'j', 'k', 'l', ';', Char.ofNat 0x27],
      ['A', 'S', 'D', 'F', 'G', 'H', 'J', 'K', 'L', ':', Char.ofNat 0x22]⟩,
   ⟨0x2B, true, [Char.ofNat 0x5C, 'z', 'x', 'c', 'v', 'b', 'n', 'm', ',', '.', '/'],
      ['|', 'Z', 'X', 'C', 'V', 'B', 'N', 'M', '<', '>', '?']⟩,
   ⟨0x39, true, [' '], [' ']⟩]

def KeyRow.codes (row : KeyRow) : List UInt8 := (List.range row.plain.length).map fun i => row.first + UInt8.ofNat i

/-- The keys that type a character, Enter apart. -/
def printableKeys : List UInt8 := (keyRows.flatMap KeyRow.codes).filter (· != 0x1C)

/-- A keystroke with Ctrl and Alt up. Shift stays down between its two. -/
inductive Keystroke
  | key (code : UInt8) (printable : code ∈ printableKeys)
  | tab
  | backspace
  | shift (left down : Bool)

/-- The scan codes of a keystroke: a make code and its break code. -/
def Keystroke.codes : Keystroke → List UInt8
  | .key code _ => [code, code + 0x80]
  | .tab => [0x0F, 0x8F]
  | .backspace => [0x0E, 0x8E]
  | .shift left down => [(if left then 0x2A else 0x36) + (if down then 0 else 0x80)]

/-- The make and break codes of Enter. -/
def enterCodes : List UInt8 := [0x1C, 0x9C]

/-- The character that a key types, 0 for one that types none. -/
def typedChar (caps shift : Bool) (code : UInt8) : UInt8 :=
  match keyRows.find? fun row => (code - row.first).toNat < row.plain.length with
  | none => 0
  | some row =>
    ((if (row.caps && caps) != shift then row.shifted else row.plain).getD (code - row.first).toNat ' ').toUInt8

/-- A line of at most 127 characters, and the Shift keys that are down. -/
structure Typist where
  lShift : Bool
  rShift : Bool
  line : List UInt8

/-- What a keystroke does to the line. -/
def Typist.press (caps : Bool) (s : Typist) : Keystroke → Typist
  | .key code _ =>
    if s.line.length < 127 then
      { s with line := s.line ++ [typedChar caps (s.lShift || s.rShift) code] }
    else s
  | .tab => { s with line := s.line ++ List.replicate (min 4 (127 - s.line.length)) 32 }
  | .backspace => { s with line := s.line.dropLast }
  | .shift left down => if left then { s with lShift := down } else { s with rShift := down }

theorem flagKeys_printable : ∀ code ∈ printableKeys,
    (flagKeys.find? fun e => e.1 == code) = none ∧ (flagKeys.find? fun e => e.1 == code + 0x80) = none := by
  simp only [List.find?_eq_none]
  decide +kernel

/-- A printable key types a character, and its break code does not. -/
theorem typedChar_printable : ∀ code ∈ printableKeys, ∀ caps shift,
    typedChar caps shift code ≠ 0 ∧ typedChar caps shift code ≠ 10 ∧
      typedChar caps shift (code + 0x80) = 0 := by
  decide +kernel

/-- The tables of `get_key` are those of the keyboard. -/
theorem typedChar_tables : ∀ caps shift code, typedChar caps shift code =
    ((keyChar numberKeys shift code).orElse fun _ => keyChar letterKeys (caps != shift) code).getD 0 := by
  have all : ∀ caps shift, ∀ code < 256, typedChar caps shift (UInt8.ofNat code) =
      ((keyChar numberKeys shift (UInt8.ofNat code)).orElse fun _ =>
        keyChar letterKeys (caps != shift) (UInt8.ofNat code)).getD 0 := by
    decide +kernel
  intro caps shift code
  have here := all caps shift code.toNat code.toNat_lt
  rwa [UInt8.ofNat_toNat] at here

theorem getKey_unflagged {f : KeyFlags} {code : UInt8}
    (plain : (flagKeys.find? fun e => e.1 == code) = none) :
    getKey f code = (f, typedChar f.caps (f.lShift || f.rShift) code) := by
  rw [typedChar_tables]
  unfold getKey
  extract_lets shift
  rw [plain]
  dsimp only
  cases number : keyChar numberKeys shift code with
  | some c => rfl
  | none => rfl

namespace Kernel

theorem writeKey_flags {k k' : Kernel} {c : UInt8} (written : k.writeKey c = some k') :
    k'.flags = k.flags := by
  obtain ⟨r, _, rfl⟩ := Option.map_eq_some_iff.mp written
  rfl

theorem tabLoop_flags (n : Nat) (k : Kernel) : (tabLoop n k).flags = k.flags := by
  induction n generalizing k with
  | zero => rfl
  | succ n ih =>
    unfold tabLoop
    split
    · rfl
    · rename_i k1 written
      exact (ih (k1.putKey 32)).trans (show k1.flags = k.flags from writeKey_flags written)

theorem terminalSwitch_flags (k : Kernel) (function : Nat) :
    (k.terminalSwitch function).1.flags = k.flags := by
  unfold terminalSwitch mapVideo
  extract_lets shown
  split
  · rfl
  · dsimp only
    split
    · split <;> rfl
    · rfl

/-- The flags after a key are those that `get_key` leaves. -/
theorem keyboardHandler_flags (k : Kernel) (keypress : UInt8) :
    (k.keyboardHandler keypress).flags = (getKey k.flags keypress).1 := by
  unfold keyboardHandler
  extract_lets ascii k1
  have start : k1.flags = (getKey k.flags keypress).1 := rfl
  rw [← start]
  split
  · unfold ctrlHelper
    split
    · rfl
    · split
      · rfl
      · cases written : k1.writeKey ascii with
        | none => rfl
        | some k2 => exact show k2.flags = k1.flags from writeKey_flags written
  split
  · split
    · rfl
    · rename_i k2 written
      have kept := writeKey_flags written
      split <;> exact kept
  split
  · split
    · rfl
    · rename_i k2 deleted
      obtain ⟨r, _, rfl⟩ := Option.map_eq_some_iff.mp deleted
      rfl
  split
  · exact tabLoop_flags 4 k1
  split
  · unfold altHelper
    split
    · rfl
    · exact terminalSwitch_flags k1 _
  · rfl

/-- With Alt up a key keeps the terminal shown and edits its line. -/
theorem keyboardHandler_noAlt {k : Kernel} {keypress : UInt8}
    (noAlt : (getKey k.flags keypress).1.alt = false) :
    Typed (keyEdits k.flags keypress) k (k.keyboardHandler keypress) := by
  rcases k.keyboardHandler_typed keypress with typed | ⟨_, alt, _⟩
  · exact typed
  · rw [noAlt] at alt
    cases alt

end Kernel

/-- Terminal `t` is active and shown, with this line and these key flags. -/
structure Editing (t : Fin 3) (f : KeyFlags) (line : List UInt8) (k : Kernel) : Prop where
  ts : k.ts = t
  ta : k.ta = t
  flags : k.flags = f
  line : k.Shows line

/-- What a key is good for with Ctrl up. -/
def decodedEdits (f : KeyFlags) (c : UInt8) : List (Edit UInt8) :=
  if c ≠ 0 then [.type c]
  else if f.backspace then [.erase]
  else if f.tab then List.replicate 4 (.type 32)
  else []

/-- The key flags between two keystrokes. -/
def Typist.flags (caps : Bool) (function : Nat) (s : Typist) : KeyFlags :=
  ⟨false, caps, s.lShift, s.rShift, false, false, false, function⟩

theorem getKey_tab (f : KeyFlags) :
    getKey f 0x0F = ({ f with tab := true }, 0) ∧ getKey f 0x8F = ({ f with tab := false }, 0) :=
  ⟨rfl, rfl⟩

theorem getKey_backspace (f : KeyFlags) : getKey f 0x0E = ({ f with backspace := true }, 0) ∧
    getKey f 0x8E = ({ f with backspace := false }, 0) :=
  ⟨rfl, rfl⟩

theorem getKey_shift (f : KeyFlags) (left down : Bool) :
    getKey f ((if left then 0x2A else 0x36) + (if down then 0 else 0x80)) =
      (if left then { f with lShift := down } else { f with rShift := down }, 0) := by
  cases left <;> cases down <;> rfl

/-- A character that is not a newline needs one of the first 127 places. -/
theorem applyAll_type {c : UInt8} (notEnter : c ≠ 10) (line : List UInt8) :
    applyAll 128 10 [.type c] line = if line.length < 127 then line ++ [c] else line := by
  have room : line.length + 1 < 128 ∨ (line.length + 1 = 128 ∧ c = 10) ↔ line.length < 127 := by
    simp only [notEnter, and_false, or_false]
    omega
  simp only [applyAll, List.foldl_cons, List.foldl_nil, Edit.apply, room]

theorem applyAll_blanks (n : Nat) (line : List UInt8) :
    applyAll 128 10 (List.replicate n (.type 32)) line =
      line ++ List.replicate (min n (127 - line.length)) 32 := by
  induction n generalizing line with
  | zero => simp [applyAll]
  | succ n ih =>
    have first : applyAll 128 10 (List.replicate (n + 1) (.type 32)) line =
        applyAll 128 10 (List.replicate n (.type 32)) (applyAll 128 10 [.type 32] line) := rfl
    rw [first, applyAll_type (by decide)]
    by_cases room : line.length < 127
    · have count : min (n + 1) (127 - line.length) = min n (127 - (line.length + 1)) + 1 := by omega
      rw [if_pos room, ih, List.length_append, List.length_singleton, count, List.append_assoc,
        List.replicate_succ]
      rfl
    · have full : 127 - line.length = 0 := by omega
      rw [if_neg room, ih, full, Nat.min_zero, Nat.min_zero]

section Press

variable {t : Fin 3} {line : List UInt8} {f : KeyFlags} {k : Kernel}

/-- One scan code. -/
theorem Editing.key (editing : Editing t f line k) {code c : UInt8} {after : KeyFlags}
    (decoded : getKey f code = (after, c)) (noAlt : after.alt = false) (noCtrl : after.ctrl = false) :
    Editing t after (applyAll 128 10 (decodedEdits after c) line) (k.keyboardHandler code) := by
  have flags := editing.flags
  subst flags
  have edits : keyEdits k.flags code = decodedEdits after c := by
    unfold keyEdits
    rw [decoded]
    simp only [noCtrl]
    rfl
  have noAlt : (getKey k.flags code).1.alt = false := by rw [decoded]; exact noAlt
  have typed := Kernel.keyboardHandler_noAlt noAlt
  have flagged := k.keyboardHandler_flags code
  rw [decoded] at flagged
  rw [edits] at typed
  exact ⟨typed.ts.trans editing.ts, (k.keyboardHandler_ttyOnly code).ta.trans editing.ta, flagged,
    typed.shown line editing.line⟩

/-- A code that neither types nor leaves an editing key down. -/
theorem Editing.idle (editing : Editing t f line k) {code : UInt8} {after : KeyFlags}
    (decoded : getKey f code = (after, 0)) (noAlt : after.alt = false) (noCtrl : after.ctrl = false)
    (noBackspace : after.backspace = false) (noTab : after.tab = false) :
    Editing t after line (k.keyboardHandler code) := by
  have next := editing.key decoded noAlt noCtrl
  have none : decodedEdits after 0 = [] := by simp [decodedEdits, noBackspace, noTab]
  rw [none] at next
  exact next

variable {caps : Bool} {function : Nat} {s : Typist}

/-- The make and the break code of a keystroke do to the buffer what the
keystroke does to the line. -/
theorem Editing.press (editing : Editing t (s.flags caps function) s.line k) (stroke : Keystroke) :
    Editing t ((s.press caps stroke).flags caps function) (s.press caps stroke).line
      (stroke.codes.foldl Kernel.keyboardHandler k) := by
  cases stroke with
  | key code printable =>
    obtain ⟨make, release⟩ := flagKeys_printable code printable
    obtain ⟨visible, notEnter, silent⟩ :=
      typedChar_printable code printable caps (s.lShift || s.rShift)
    have released : getKey (s.flags caps function) (code + 0x80) = (s.flags caps function, 0) := by
      rw [getKey_unflagged release]
      exact congrArg _ silent
    have up := (editing.key (getKey_unflagged make) rfl rfl).idle released rfl rfl rfl rfl
    have typed : decodedEdits (s.flags caps function) (typedChar caps (s.lShift || s.rShift) code) =
        [.type (typedChar caps (s.lShift || s.rShift) code)] := by
      simp [decodedEdits, visible]
    change Editing t _ (applyAll 128 10 (decodedEdits (s.flags caps function)
      (typedChar caps (s.lShift || s.rShift) code)) s.line) _ at up
    rw [typed, applyAll_type notEnter] at up
    simp only [Typist.press]
    split
    · rename_i room
      rwa [if_pos room] at up
    · rename_i full
      rwa [if_neg full] at up
  | tab =>
    have up := (editing.key (getKey_tab _).1 rfl rfl).idle (getKey_tab _).2 rfl rfl rfl rfl
    change Editing t _ (applyAll 128 10 (List.replicate 4 (.type 32)) s.line) _ at up
    rw [applyAll_blanks] at up
    exact up
  | backspace =>
    exact (editing.key (getKey_backspace _).1 rfl rfl).idle (getKey_backspace _).2 rfl rfl rfl rfl
  | shift left down =>
    have next := editing.idle (getKey_shift _ left down) (by cases left <;> rfl) (by cases left <;> rfl)
      (by cases left <;> rfl) (by cases left <;> rfl)
    simp only [Typist.press]
    cases left with
    | true => exact next
    | false => exact next

end Press

/-- The line has its last place free, and no newline. -/
structure Typist.Unfinished (s : Typist) : Prop where
  short : s.line.length ≤ 127
  noEnter : 10 ∉ s.line

theorem Typist.Unfinished.press {s : Typist} (unfinished : s.Unfinished) (caps : Bool) (stroke : Keystroke) :
    (s.press caps stroke).Unfinished := by
  obtain ⟨short, noEnter⟩ := unfinished
  cases stroke with
  | key code printable =>
    have notEnter := (typedChar_printable code printable caps (s.lShift || s.rShift)).2.1
    simp only [Typist.press]
    split
    · rename_i room
      refine ⟨by simp only [List.length_append, List.length_singleton]; omega, ?_⟩
      simp only [List.mem_append, List.mem_singleton, not_or]
      exact ⟨noEnter, Ne.symm notEnter⟩
    · exact ⟨short, noEnter⟩
  | tab =>
    refine ⟨?_, ?_⟩
    · simp only [Typist.press, List.length_append, List.length_replicate]
      omega
    · simp only [Typist.press, List.mem_append, List.mem_replicate, not_or]
      exact ⟨noEnter, fun blank => absurd blank.2 (by decide)⟩
  | backspace =>
    refine ⟨?_, fun member => noEnter (List.dropLast_subset _ member)⟩
    simp only [Typist.press, List.length_dropLast]
    omega
  | shift left down =>
    simp only [Typist.press]
    split <;> exact ⟨short, noEnter⟩

/-- A run of keystrokes. -/
theorem Editing.strokes {t : Fin 3} {caps : Bool} {function : Nat} {s : Typist} {k : Kernel}
    (editing : Editing t (s.flags caps function) s.line k) (unfinished : s.Unfinished)
    (strokes : List Keystroke) :
    Editing t ((strokes.foldl (Typist.press caps) s).flags caps function)
        (strokes.foldl (Typist.press caps) s).line
        ((strokes.flatMap Keystroke.codes).foldl Kernel.keyboardHandler k) ∧
      (strokes.foldl (Typist.press caps) s).Unfinished := by
  induction strokes generalizing s k with
  | nil => exact ⟨editing, unfinished⟩
  | cons stroke rest ih =>
    rw [List.flatMap_cons, List.foldl_append]
    exact ih (editing.press stroke) (unfinished.press caps stroke)

/-- Enter has a place even in a line of 127 characters. -/
theorem Editing.enter {t : Fin 3} {f : KeyFlags} {line : List UInt8} {k : Kernel}
    (editing : Editing t f line k) (noAlt : f.alt = false) (noCtrl : f.ctrl = false)
    (noBackspace : f.backspace = false) (noTab : f.tab = false) (short : line.length ≤ 127) :
    Editing t f (line ++ [10]) (enterCodes.foldl Kernel.keyboardHandler k) := by
  have make : getKey f 0x1C = (f, 10) := by
    rw [getKey_unflagged rfl]
    cases f.caps <;> cases f.lShift <;> cases f.rShift <;> rfl
  have release : getKey f 0x9C = (f, 0) := by
    rw [getKey_unflagged rfl]
    cases f.caps <;> cases f.lShift <;> cases f.rShift <;> rfl
  have up := (editing.key make noAlt noCtrl).idle release noAlt noCtrl noBackspace noTab
  have room : line.length + 1 < 128 ∨ (line.length + 1 = 128 ∧ (10 : UInt8) = 10) := by
    rcases Nat.lt_or_eq_of_le short with more | last
    · exact Or.inl (by omega)
    · exact Or.inr ⟨by omega, rfl⟩
  have typed : applyAll 128 10 (decodedEdits f 10) line = line ++ [10] := by
    change Edit.apply 128 10 (.type 10) line = line ++ [10]
    rw [Edit.apply, if_pos room]
  rw [typed] at up
  exact up

/-- The copy of a finished line is the line. -/
theorem copyLine_line {buf : Nat → UInt8} {index : Nat} {line : List UInt8}
    (held : Represents 0 (fun i : Fin 128 => buf i) index (line ++ [10])) (noEnter : 10 ∉ line) {n i : Nat}
    (before : i ≤ line.length) (enough : line.length ≤ i + n) :
    copyLine buf n i = (line ++ [10]).drop i := by
  have fits := held.fits
  rw [List.length_append, List.length_singleton] at fits
  have inside : i < (line ++ [10]).length := by
    rw [List.length_append, List.length_singleton]
    omega
  have stored : buf i = (line ++ [10])[i] := held.cell inside (by omega)
  by_cases atEnd : i = line.length
  · have last : buf i = 10 := by
      rw [stored]
      simp [atEnd]
    have rest : (line ++ [10]).drop i = [10] := by
      rw [atEnd]
      simp
    rw [rest]
    cases n with
    | zero => rw [copyLine, last]
    | succ n => rw [copyLine, if_neg (by simp [last]), last]
  · obtain ⟨m, rfl⟩ : ∃ m, n = m + 1 := ⟨n - 1, by omega⟩
    have inLine : i < line.length := by omega
    have char : buf i ≠ 10 := by
      rw [stored, List.getElem_append_left inLine]
      exact fun enter => noEnter (enter ▸ List.getElem_mem inLine)
    rw [copyLine, if_pos char, List.drop_eq_getElem_cons inside, stored,
      copyLine_line held noEnter (by omega) (by omega)]

theorem Editing.doneTyping {t : Fin 3} {f : KeyFlags} {line : List UInt8} {k : Kernel}
    (editing : Editing t f line k) : k.doneTyping = true ↔ 10 ∈ line := by
  have scans := scanLine_iff editing.line (show 0 + 128 = 128 from rfl)
  have shown : k.ts = k.ta := editing.ts.trans editing.ta.symm
  rw [List.drop_zero] at scans
  simp [Kernel.doneTyping, shown, scans]

/-- A read of a finished line. -/
theorem Editing.read {t : Fin 3} {f : KeyFlags} {line : List UInt8} {k : Kernel}
    (editing : Editing t f (line ++ [10]) k) (noEnter : 10 ∉ line) {n : Nat} (enough : line.length ≤ n) :
    (k.copyAndClear n).2 = (((line ++ [10]).length : Int), line ++ [10]) ∧
      Editing t f [] (k.copyAndClear n).1 := by
  have copied : copyLine k.keyboardBuf n 0 = line ++ [10] := by
    rw [copyLine_line editing.line noEnter (Nat.zero_le _) (by omega), List.drop_zero]
  constructor
  · simp only [Kernel.copyAndClear, copied]
  · exact ⟨editing.ts, editing.ta, editing.flags, k.clearKeyboardBuf_typed.shown _ editing.line⟩

/-- A line typed on the terminal shown and active is what `terminal_read`
returns, newline included, and it leaves an empty line behind. Before Enter
it waits. -/
theorem typed_line_read {k : Kernel} {t : Fin 3} {caps : Bool} {function : Nat} {lShift rShift : Bool}
    (start : Editing t (Typist.flags caps function ⟨lShift, rShift, []⟩) [] k)
    (strokes : List Keystroke) (buf : Nat) (nbytes : Word) (mapped : buf ≠ 0)
    (enough : 128 ≤ nbytes.toInt) :
    let typist := strokes.foldl (Typist.press caps) ⟨lShift, rShift, []⟩
    let typedLine := typist.line ++ [10]
    let codes := strokes.flatMap Keystroke.codes
    (codes.foldl Kernel.keyboardHandler k).terminalRead buf nbytes = .blocks ∧
      ∃ k', ((codes ++ enterCodes).foldl Kernel.keyboardHandler k).terminalRead buf nbytes =
          .done (k', typedLine.length, typedLine) ∧
        Editing t (typist.flags caps function) [] k' := by
  intro typist typedLine codes
  have first : (⟨lShift, rShift, []⟩ : Typist).Unfinished := ⟨Nat.zero_le _, List.not_mem_nil⟩
  obtain ⟨typed, short, noEnter⟩ := start.strokes first strokes
  have valid : ¬ (buf = 0 ∨ nbytes.toInt < 0) := by omega
  constructor
  · have waits : ¬ (codes.foldl Kernel.keyboardHandler k).doneTyping = true :=
      fun done => noEnter (typed.doneTyping.mp done)
    rw [Kernel.terminalRead, if_neg valid, if_neg waits]
  · have entered := typed.enter rfl rfl rfl rfl short
    rw [← List.foldl_append] at entered
    have done := entered.doneTyping.mpr (by simp)
    obtain ⟨result, after⟩ := entered.read noEnter (n := nbytes.toInt.toNat) (by omega)
    refine ⟨_, ?_, after⟩
    rw [Kernel.terminalRead, if_neg valid, if_pos done]
    exact congrArg Outcome.done (Prod.ext rfl result)

/-- Shift and l, s, Tab, Backspace on the sample. -/
theorem typed_line_read_sample : ∃ k',
    ([0x2A, 0x26, 0xA6, 0xAA, 0x1F, 0x9F, 0x0F, 0x8F, 0x0E, 0x8E, 0x1C, 0x9C].foldl
      Kernel.keyboardHandler sampleEntry).terminalRead 1 128 =
        .done (k', 6, [76, 115, 32, 32, 32, 10]) := by
  have start : Editing 0 (Typist.flags false 0 ⟨false, false, []⟩) [] sampleEntry :=
    ⟨rfl, rfl, rfl, Represents.empty fun _ => rfl⟩
  obtain ⟨_, k', done, _⟩ := typed_line_read start
    [.shift true true, .key 0x26 (by decide), .shift true false, .key 0x1F (by decide), .tab, .backspace]
    1 128 (by decide) (by decide)
  exact ⟨k', done⟩

end UnixLite
