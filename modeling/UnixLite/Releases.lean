import UnixLite.Keystrokes

namespace UnixLite

open Transition

/-- The codes of the keys that type a character, Enter among them. -/
def typingKeys : List UInt8 := numberKeys.map (·.1) ++ letterKeys.map (·.1)

theorem typingKeys_unflagged : ∀ code ∈ typingKeys, (flagKeys.find? fun e => e.1 == code) = none := by
  simp only [List.find?_eq_none]
  decide +kernel

/-- A typing key always types; a newline is typed by Enter, an L by its key. -/
theorem typedChar_typing : ∀ code ∈ typingKeys, ∀ caps shift, typedChar caps shift code ≠ 0 ∧
    (typedChar caps shift code = 10 ↔ code = 0x1C) ∧
      (typedChar caps shift code = 'l'.toUInt8 ∨ typedChar caps shift code = 'L'.toUInt8 ↔ code = 0x26) := by
  decide +kernel

/-- Whether a key is down once `code` has been handled, by its flag before. -/
def isDown (flag : Bool) (make break_ code : UInt8) : Bool := code == make || (flag && code != break_)

/-- A flag that one make code sets and one break code clears. -/
theorem getKey_isDown (flag : KeyFlags → Bool) {make break_ : UInt8}
    (table : ∀ e ∈ flagKeys, ∀ f, flag (e.2 f) = isDown (flag f) make break_ e.1)
    (keys : make ∈ flagKeys.map (·.1) ∧ break_ ∈ flagKeys.map (·.1)) (f : KeyFlags) (code : UInt8) :
    flag (getKey f code).1 = isDown (flag f) make break_ code := by
  cases found : flagKeys.find? fun e => e.1 == code with
  | some e =>
    have same : e.1 = code := by simpa using List.find?_some found
    have stored := table e (List.mem_of_find?_eq_some found) f
    rw [same] at stored
    unfold getKey
    rw [found]
    exact stored
  | none =>
    rw [getKey_unflagged found]
    have other {c : UInt8} (key : c ∈ flagKeys.map (·.1)) : code ≠ c := by
      obtain ⟨e, member, rfl⟩ := List.mem_map.mp key
      have differs := List.find?_eq_none.mp found e member
      rintro rfl
      simp at differs
    have noMake : (code == make) = false := beq_false_of_ne (other keys.1)
    have noBreak : (code != break_) = true := bne_iff_ne.mpr (other keys.2)
    rw [isDown, noMake, noBreak, Bool.false_or, Bool.and_true]

section Flags

variable (f : KeyFlags) (code : UInt8)

theorem getKey_backspaceDown : (getKey f code).1.backspace = isDown f.backspace 0x0E 0x8E code := by
  refine getKey_isDown (·.backspace) ?_ (by decide) f code
  simp [flagKeys, isDown]

theorem getKey_tabDown : (getKey f code).1.tab = isDown f.tab 0x0F 0x8F code := by
  refine getKey_isDown (·.tab) ?_ (by decide) f code
  simp [flagKeys, isDown]

theorem getKey_ctrlDown : (getKey f code).1.ctrl = isDown f.ctrl 0x1D 0x9D code := by
  refine getKey_isDown (·.ctrl) ?_ (by decide) f code
  simp [flagKeys, isDown]

theorem getKey_altDown : (getKey f code).1.alt = isDown f.alt 0x38 0xB8 code := by
  refine getKey_isDown (·.alt) ?_ (by decide) f code
  simp [flagKeys, isDown]

/-- The function key that is down after a break code. -/
theorem getKey_function (release : 0x80 ≤ code) : (getKey f code).1.function =
    if code = 0xBB ∨ code = 0xBC ∨ code = 0xBD then 0 else f.function := by
  cases found : flagKeys.find? fun e => e.1 == code with
  | some e =>
    have same : e.1 = code := by simpa using List.find?_some found
    have table : ∀ e ∈ flagKeys, 0x80 ≤ e.1 → (e.2 f).function =
        if e.1 = 0xBB ∨ e.1 = 0xBC ∨ e.1 = 0xBD then 0 else f.function := by
      simp [flagKeys]
    have stored := table e (List.mem_of_find?_eq_some found)
    rw [same] at stored
    unfold getKey
    rw [found]
    exact stored release
  | none =>
    rw [getKey_unflagged found, if_neg]
    rintro (rfl | rfl | rfl) <;> exact absurd found (by decide)

theorem keyChar_none {keys : List (UInt8 × Char × Char)} {upper : Bool} :
    keyChar keys upper code = none ↔ code ∉ keys.map (·.1) := by
  rw [keyChar, Option.map_eq_none_iff, List.find?_eq_none]
  simp only [List.mem_map, not_exists, not_and, beq_iff_eq]

/-- A key types a character exactly when it is one of the typing keys. -/
theorem getKey_silent : (getKey f code).2 = 0 ↔ code ∉ typingKeys := by
  constructor
  · intro silent typing
    rw [getKey_unflagged (typingKeys_unflagged code typing)] at silent
    exact (typedChar_typing code typing _ _).1 silent
  · intro other
    rw [typingKeys, List.mem_append, not_or] at other
    cases found : flagKeys.find? fun e => e.1 == code with
    | some e =>
      unfold getKey
      rw [found]
    | none =>
      rw [getKey_unflagged found, typedChar_tables, (keyChar_none code).mpr other.1, (keyChar_none code).mpr other.2]
      rfl

end Flags

theorem release_silent {code : UInt8} (release : 0x80 ≤ code) : code ∉ typingKeys := by
  intro typing
  have makes : ∀ c ∈ typingKeys, c < 0x80 := by decide +kernel
  exact absurd release (UInt8.not_le.mpr (makes code typing))

namespace Kernel

def backspaceDown (k : Kernel) (code : UInt8) : Bool := isDown k.flags.backspace 0x0E 0x8E code

def tabDown (k : Kernel) (code : UInt8) : Bool := isDown k.flags.tab 0x0F 0x8F code

def ctrlDown (k : Kernel) (code : UInt8) : Bool := isDown k.flags.ctrl 0x1D 0x9D code

def altDown (k : Kernel) (code : UInt8) : Bool := isDown k.flags.alt 0x38 0xB8 code

/-- The line, the shown terminal, its cursor and the screen are as they were. -/
structure Undisturbed (k k' : Kernel) : Prop where
  keyboardBuf : k'.keyboardBuf = k.keyboardBuf
  keyIdx : k'.keyIdx = k.keyIdx
  ts : k'.ts = k.ts
  cursor : ∀ t, (k'.console t).x = (k.console t).x ∧ (k'.console t).y = (k.console t).y
  screen : ∀ i, i < 4096 → k'.mem (video + i) = k.mem (video + i)

/-- Nothing that is held acts on the release of a key: Ctrl hides the rest,
Backspace finds no character, Tab no room, Alt no other terminal. -/
def ReleasesQuietly (k : Kernel) (code : UInt8) : Prop :=
  k.ctrlDown code = true ∨ (k.backspaceDown code = true ∧ k.keyIdx = 0) ∨
    (k.backspaceDown code = false ∧ k.tabDown code = true ∧ 127 ≤ k.keyIdx) ∨
    (k.backspaceDown code = false ∧ k.tabDown code = false ∧
      (k.altDown code = true → code ≠ 0xBB ∧ code ≠ 0xBC ∧ code ≠ 0xBD → 1 ≤ k.flags.function →
        k.flags.function ≤ 3 → k.flags.function = k.ts.val + 1))

/-- `delete_char` takes a character, in the branch of the handler for Backspace. -/
def erases (k : Kernel) (code : UInt8) : Bool :=
  !(getKey k.flags code).1.ctrl && (getKey k.flags code).2 == 0 && (getKey k.flags code).1.backspace &&
    k.deleteKey.isSome

theorem writeKey_blank (k : Kernel) : k.writeKey 32 = none ↔ 127 ≤ k.keyIdx := by
  rw [writeKey, Option.map_eq_none_iff, writeChar_eq_none]
  have blank : (32 : UInt8) ≠ 10 := by decide
  simp only [blank, and_false, or_false]
  omega

theorem writeKey_keyIdx {k k' : Kernel} {c : UInt8} (written : k.writeKey c = some k') :
    k'.keyIdx = k.keyIdx + 1 := by
  obtain ⟨r, stored, rfl⟩ := Option.map_eq_some_iff.mp written
  obtain ⟨_, rfl⟩ := writeChar_some stored
  rfl

theorem deleteKey_isSome (k : Kernel) : k.deleteKey.isSome = true ↔ 0 < k.keyIdx := by
  rw [deleteKey, Option.isSome_map, Option.isSome_iff_ne_none, ne_eq, deleteChar_eq_none]
  omega

theorem deleteKey_keyIdx {k k' : Kernel} (deleted : k.deleteKey = some k') : k'.keyIdx + 1 = k.keyIdx := by
  obtain ⟨r, stored, rfl⟩ := Option.map_eq_some_iff.mp deleted
  obtain ⟨positive, rfl⟩ := deleteChar_some stored
  exact Nat.sub_add_cancel positive

theorem tabLoop_keyIdx (n : Nat) (k : Kernel) : k.keyIdx ≤ (tabLoop n k).keyIdx := by
  induction n generalizing k with
  | zero => exact le_rfl
  | succ n ih =>
    unfold tabLoop
    split
    · exact le_rfl
    · rename_i k1 written
      have typed := writeKey_keyIdx written
      have rest : k1.keyIdx ≤ ((k1.putKey 32).tabLoop n).keyIdx := ih (k1.putKey 32)
      omega

theorem mapVideo_ts (k : Kernel) : k.mapVideo.ts = k.ts := by
  unfold mapVideo
  split <;> rfl

/-- The terminal that a switch asks for is shown after it, whether it was
before or not. -/
theorem terminalSwitch_shown (k : Kernel) (function : Nat) : (k.terminalSwitch function).1.ts =
    if function = 1 then 0 else if function = 2 then 1 else if function = 3 then 2 else k.ts := by
  unfold terminalSwitch
  extract_lets shown k1
  have switched : k1.ts = shown := rfl
  change _ = shown
  split
  · assumption
  · dsimp only
    split
    · rw [mapVideo_ts, switched]
    · exact switched

theorem terminalSwitch_ts {k : Kernel} {function : Nat} (lower : 1 ≤ function) (upper : function ≤ 3) :
    (k.terminalSwitch function).1.ts.val + 1 = function := by
  rw [terminalSwitch_shown]
  obtain rfl | rfl | rfl : function = 1 ∨ function = 2 ∨ function = 3 := by omega
  · rfl
  · rfl
  · rfl

/-- A switch that keeps the terminal shown does nothing. -/
theorem terminalSwitch_still {k : Kernel} {function : Nat}
    (stays : (k.terminalSwitch function).1.ts = k.ts) : k.terminalSwitch function = (k, -1) := by
  rw [terminalSwitch_shown] at stays
  exact if_pos stays.symm

theorem Undisturbed.refl (k : Kernel) : Undisturbed k k := ⟨rfl, rfl, rfl, fun _ => ⟨rfl, rfl⟩, fun _ _ => rfl⟩

/-- Backspace, as the handler does it. -/
def rubOut (k : Kernel) : Kernel :=
  match k.deleteKey with
  | none => k
  | some k => k.remc.checkCursor

theorem rubOut_undisturbed (k : Kernel) : Undisturbed k k.rubOut ↔ k.keyIdx = 0 := by
  have erased := k.deleteKey_isSome
  unfold rubOut
  cases deleted : k.deleteKey with
  | none =>
    rw [deleted] at erased
    simp only [Option.isSome_none, Bool.false_eq_true, false_iff] at erased
    exact ⟨fun _ => by omega, fun _ => Undisturbed.refl k⟩
  | some k1 =>
    have shorter := deleteKey_keyIdx deleted
    constructor
    · intro same
      have kept : k1.keyIdx = k.keyIdx := same.keyIdx
      omega
    · intro empty
      omega

theorem tabLoop_undisturbed (k : Kernel) : Undisturbed k (tabLoop 4 k) ↔ 127 ≤ k.keyIdx := by
  rw [← writeKey_blank]
  unfold tabLoop
  cases written : k.writeKey 32 with
  | none => exact ⟨fun _ => rfl, fun _ => Undisturbed.refl k⟩
  | some k1 =>
    have longer := writeKey_keyIdx written
    have rest : k1.keyIdx ≤ (tabLoop 3 (k1.putKey 32)).keyIdx := tabLoop_keyIdx 3 (k1.putKey 32)
    constructor
    · intro same
      have kept : (tabLoop 3 (k1.putKey 32)).keyIdx = k.keyIdx := same.keyIdx
      omega
    · intro none
      cases none

theorem altHelper_undisturbed (k : Kernel) : Undisturbed k k.altHelper.1 ↔
    (1 ≤ k.flags.function → k.flags.function ≤ 3 → k.flags.function = k.ts.val + 1) := by
  unfold altHelper
  split
  · exact ⟨fun _ _ _ => by omega, fun _ => Undisturbed.refl k⟩
  · have lower : 1 ≤ k.flags.function := by omega
    have upper : k.flags.function ≤ 3 := by omega
    have switched := terminalSwitch_ts (k := k) lower upper
    constructor
    · intro same _ _
      rw [← switched, same.ts]
    · intro own
      have shown := own lower upper
      rw [terminalSwitch_still (Fin.ext (by omega))]
      exact Undisturbed.refl k

/-- The state with the flags as `get_key` leaves them. -/
def decoded (k : Kernel) (code : UInt8) : Kernel := { k with flags := (getKey k.flags code).1 }

/-- A key that types nothing does what the keys that are down ask for. -/
theorem keyboardHandler_held {k : Kernel} {code : UInt8} (silent : code ∉ typingKeys) :
    k.keyboardHandler code =
      if k.ctrlDown code then k.decoded code
      else if k.backspaceDown code then (k.decoded code).rubOut
      else if k.tabDown code then tabLoop 4 (k.decoded code)
      else if k.altDown code then (k.decoded code).altHelper.1
      else k.decoded code := by
  have ascii := (getKey_silent k.flags code).mpr silent
  rw [ctrlDown, backspaceDown, tabDown, altDown, ← getKey_ctrlDown, ← getKey_backspaceDown,
    ← getKey_tabDown, ← getKey_altDown]
  unfold keyboardHandler
  rw [ascii]
  rfl

/-- The release of a key disturbs nothing exactly when nothing held acts on it. -/
theorem keyboardHandler_release {k : Kernel} {code : UInt8} (release : 0x80 ≤ code) :
    Undisturbed k (k.keyboardHandler code) ↔ k.ReleasesQuietly code := by
  have same (k' : Kernel) : Undisturbed k k' ↔ Undisturbed (k.decoded code) k' :=
    ⟨fun h => ⟨h.keyboardBuf, h.keyIdx, h.ts, h.cursor, h.screen⟩,
      fun h => ⟨h.keyboardBuf, h.keyIdx, h.ts, h.cursor, h.screen⟩⟩
  rw [keyboardHandler_held (release_silent release), same, ReleasesQuietly]
  cases ctrl : k.ctrlDown code with
  | true => simp [Undisturbed.refl]
  | false =>
    cases backspace : k.backspaceDown code with
    | true =>
      have rubbed : Undisturbed (k.decoded code) (k.decoded code).rubOut ↔ k.keyIdx = 0 :=
        (k.decoded code).rubOut_undisturbed
      simpa using rubbed
    | false =>
      cases tab : k.tabDown code with
      | true =>
        have tabbed : Undisturbed (k.decoded code) (tabLoop 4 (k.decoded code)) ↔ 127 ≤ k.keyIdx :=
          (k.decoded code).tabLoop_undisturbed
        simpa using tabbed
      | false =>
        cases alt : k.altDown code with
        | false => simp [Undisturbed.refl]
        | true =>
          have shown := (k.decoded code).altHelper_undisturbed
          have function := getKey_function k.flags code release
          simp only [Bool.false_eq_true, if_false, if_true, false_or, false_and, true_and, true_implies]
          rw [shown]
          change ((getKey k.flags code).1.function ≥ 1 → (getKey k.flags code).1.function ≤ 3 →
            (getKey k.flags code).1.function = k.ts.val + 1) ↔ _
          rw [function]
          by_cases break_ : code = 0xBB ∨ code = 0xBC ∨ code = 0xBD
          · rw [if_pos break_]
            simp
            tauto
          · rw [if_neg break_]
            simp only [not_or] at break_
            simp [break_]

/-- Nothing but the press of Backspace erases: with the key held, another one
finds Ctrl down, types a character, or finds no character to erase. -/
def ErasesOnPress (k : Kernel) (code : UInt8) : Prop :=
  code = 0x0E ∨ k.ctrlDown code = true ∨ code ∈ typingKeys ∨ k.backspaceDown code = false ∨ k.keyIdx = 0

theorem erases_iff (k : Kernel) (code : UInt8) : k.erases code = true ↔
    k.ctrlDown code = false ∧ code ∉ typingKeys ∧ k.backspaceDown code = true ∧ 0 < k.keyIdx := by
  have deleted := k.deleteKey_isSome
  rw [erases, getKey_ctrlDown, getKey_backspaceDown, ← getKey_silent k.flags, ← deleted]
  simp [ctrlDown, backspaceDown, and_assoc]

/-- Where `delete_char` takes a character the line gets shorter by one. -/
theorem erases_keyIdx {k : Kernel} {code : UInt8} (erased : k.erases code = true) :
    (k.keyboardHandler code).keyIdx + 1 = k.keyIdx := by
  obtain ⟨ctrl, silent, backspace, some⟩ := (k.erases_iff code).mp erased
  rw [keyboardHandler_held silent, ctrl, backspace]
  have deleted : (k.decoded code).deleteKey.isSome = true := (deleteKey_isSome _).mpr some
  obtain ⟨k1, taken⟩ := Option.isSome_iff_exists.mp deleted
  have shorter : k1.keyIdx + 1 = (k.decoded code).keyIdx := deleteKey_keyIdx taken
  simp only [Bool.false_eq_true, if_false, if_true, rubOut, taken]
  exact shorter

end Kernel

/-- The scan code of a step that handles one. -/
def Act.scanCode : Act → Option UInt8
  | .key code => some code
  | _ => none

theorem Act.scanCode_eq_some {act : Act} {code : UInt8} : act.scanCode = some code ↔ act = .key code := by
  cases act <;> simp [scanCode]

/-- A step that removes a character by Backspace. -/
def erasing (e : Happening) : Bool := e.act.1.scanCode.any e.pre.erases

/-- A press of Backspace, with Ctrl up and a character to remove. -/
def backspacePress (e : Happening) : Bool :=
  e.act.1.scanCode == some 0x0E && !e.pre.flags.ctrl && e.pre.keyIdx != 0

theorem backspacePress_erasing {e : Happening} (press : backspacePress e = true) : erasing e = true := by
  simp only [backspacePress, Bool.and_eq_true, beq_iff_eq, Bool.not_eq_true', bne_iff_ne] at press
  obtain ⟨⟨code, ctrl⟩, some⟩ := press
  rw [erasing, code, Option.any_some, Kernel.erases_iff]
  refine ⟨?_, by decide, rfl, Nat.pos_of_ne_zero some⟩
  rw [Kernel.ctrlDown, ctrl]
  rfl

theorem erasing_onPress (e : Happening) : (erasing e = true → backspacePress e = true) ↔
    ∀ code, e.act.1 = .key code → e.pre.ErasesOnPress code := by
  constructor
  · intro counted code key
    by_contra stray
    simp only [Kernel.ErasesOnPress, not_or] at stray
    obtain ⟨notBackspace, ctrl, silent, backspace, some⟩ := stray
    have erased : erasing e = true := by
      rw [erasing, key, Act.scanCode, Option.any_some, Kernel.erases_iff]
      exact ⟨by simpa using ctrl, silent, by simpa using backspace, Nat.pos_of_ne_zero some⟩
    have press := counted erased
    simp only [backspacePress, key, Act.scanCode, Bool.and_eq_true, beq_iff_eq, Option.some.injEq] at press
    exact notBackspace press.1.1
  · intro allowed erased
    obtain ⟨code, scanned, erases⟩ := (Option.any_eq_true _ _).mp erased
    obtain ⟨ctrl, silent, backspace, some⟩ := (e.pre.erases_iff code).mp erases
    have isBackspace : code = 0x0E := by
      rcases allowed code (Act.scanCode_eq_some.mp scanned) with same | ctrlHeld | typing | released | none
      · exact same
      · exact absurd ctrlHeld (by simp [ctrl])
      · exact absurd typing silent
      · exact absurd released (by simp [backspace])
      · omega
    subst isBackspace
    have ctrlUp : e.pre.flags.ctrl = false := by simpa [Kernel.ctrlDown, isDown] using ctrl
    simp [backspacePress, scanned, ctrlUp]
    omega

/-- In a run of the system the releases of keys disturb nothing, and Backspace
removes one character for each press, exactly when nothing held acts on
another key. -/
theorem key_releases {fs : FsImage} {first k : Kernel} {history : List Happening}
    (run : Runs fs first history k) :
    ((∀ e ∈ history, ∀ code, e.act.1 = .key code → 0x80 ≤ code → Kernel.Undisturbed e.pre e.post) ∧
        history.countP erasing = history.countP backspacePress) ↔
      ∀ e ∈ history, ∀ code, e.act.1 = .key code →
        (0x80 ≤ code → e.pre.ReleasesQuietly code) ∧ e.pre.ErasesOnPress code := by
  rw [countP_eq_iff fun _ _ => backspacePress_erasing]
  have releases (e : Happening) (member : e ∈ history) (code : UInt8) (key : e.act.1 = .key code)
      (release : 0x80 ≤ code) : Kernel.Undisturbed e.pre e.post ↔ e.pre.ReleasesQuietly code := by
    obtain ⟨_, _, move, _⟩ := run.event_reached member
    have handled : e.post = e.pre.keyboardHandler code := by
      simp only [Step, key, perform, Option.some.injEq, Prod.mk.injEq] at move
      exact move.1.symm
    rw [handled]
    exact Kernel.keyboardHandler_release release
  constructor
  · rintro ⟨quiet, once⟩ e member code key
    exact ⟨fun release => (releases e member code key release).mp (quiet e member code key release),
      (erasing_onPress e).mp (once e member) code key⟩
  · intro allowed
    refine ⟨fun e member code key release => ?_, fun e member => (erasing_onPress e).mpr fun code key => ?_⟩
    · exact (releases e member code key release).mpr ((allowed e member code key).1 release)
    · exact (allowed e member code key).2

theorem keyRun {fs : FsImage} {first k : Kernel} {history : List Happening} (run : Runs fs first history k)
    (code : UInt8) : Runs fs first (⟨k, (.key code, .value 0 []), k.keyboardHandler code⟩ :: history)
      (k.keyboardHandler code) :=
  run.next rfl

/-- A press of A and its release on the sample. -/
theorem key_releases_sample : Kernel.Undisturbed (sampleEntry.keyboardHandler 0x1E)
    ((sampleEntry.keyboardHandler 0x1E).keyboardHandler 0x9E) := by
  have run := keyRun (keyRun (Run.start : Runs sampleImage sampleEntry [] sampleEntry) 0x1E) 0x9E
  refine ((key_releases run).mpr ?_).1 _ (List.mem_cons_self ..) 0x9E rfl (by decide)
  intro e member code key
  simp only [List.mem_cons, List.not_mem_nil, or_false] at member
  rcases member with rfl | rfl
  · cases key
    refine ⟨fun _ => Or.inr (Or.inr (Or.inr ⟨rfl, rfl, fun held => absurd held (by decide)⟩)), ?_⟩
    exact Or.inr (Or.inr (Or.inr (Or.inl rfl)))
  · cases key
    exact ⟨fun release => absurd release (by decide), Or.inr (Or.inr (Or.inl (by decide)))⟩

/-- A is released while Backspace is held: a second character goes. -/
theorem key_releases_erase : ¬ ∀ (fs : FsImage) (first k : Kernel) (history : List Happening),
    Runs fs first history k →
      (∀ e ∈ history, ∀ code, e.act.1 = .key code → 0x80 ≤ code → Kernel.Undisturbed e.pre e.post) ∧
        history.countP erasing = history.countP backspacePress := by
  intro always
  have run := keyRun (keyRun (keyRun (keyRun (Run.start : Runs sampleImage sampleEntry [] sampleEntry)
    0x1E) 0x1E) 0x0E) 0x9E
  have quiet := (always _ _ _ _ run).1 _ (List.mem_cons_self ..) 0x9E rfl (by decide)
  exact absurd quiet.keyIdx (by decide)

end UnixLite
