import UnixLite.Terminals
import UnixLite.Library.LineEditor

namespace UnixLite

open Store LineEditor

/-- The edits a key makes on the shown line, given the flags it finds. -/
def keyEdits (f : KeyFlags) (keypress : UInt8) : List (Edit UInt8) :=
  let after := (getKey f keypress).1
  let ascii := (getKey f keypress).2
  if after.ctrl then
    if ascii = 'l'.toUInt8 ∨ ascii = 'L'.toUInt8 then [.clear]
    else if ascii = 0 then [] else [.type ascii]
  else if ascii ≠ 0 then [.type ascii]
  else if after.backspace then [.erase]
  else if after.tab then List.replicate 4 (.type 32)
  else []

namespace Kernel

/-- The line buffer of terminal `t`, wherever it is kept, holds `line`. -/
def Holds (k : Kernel) (t : Fin 3) (line : List UInt8) : Prop :=
  Represents 0 (k.logical t).line (k.logical t).index line

/-- The line buffers of two states agree, whatever is shown in each. -/
def KeepsLines (k k' : Kernel) : Prop :=
  ∀ t, (k'.logical t).line = (k.logical t).line ∧ (k'.logical t).index = (k.logical t).index

theorem KeepsLines.trans {a b c : Kernel} (first : KeepsLines a b) (second : KeepsLines b c) :
    KeepsLines a c :=
  fun t => ⟨(second t).1.trans (first t).1, (second t).2.trans (first t).2⟩

theorem KeepsLines.holds {k k' : Kernel} (keeps : KeepsLines k k') (t : Fin 3) (line : List UInt8) :
    k'.Holds t line ↔ k.Holds t line := by
  obtain ⟨cells, index⟩ := keeps t
  rw [Holds, Holds, cells, index]

theorem keepsLines_of_logical {k k' : Kernel} (same : ∀ t, k'.logical t = k.logical t) :
    KeepsLines k k' :=
  fun t => ⟨by rw [same], by rw [same]⟩

theorem keepsLines_of_sameLines {k k' : Kernel} (lines : SameLines k k') : KeepsLines k k' := by
  intro t
  simp only [logical, lines.ts, lines.keyboardBuf, lines.keyIdx, lines.terminalBuf, lines.bufIdx,
    and_self]

/-- The line of the shown terminal. -/
def Shows (k : Kernel) (line : List UInt8) : Prop :=
  Represents 0 (fun i : Fin 128 => k.keyboardBuf i) k.keyIdx line

theorem holds_shown {k : Kernel} {t : Fin 3} (shown : k.ts = t) (line : List UInt8) :
    k.Holds t line ↔ k.Shows line := by
  simp only [Holds, Shows, logical, if_pos shown]

/-- The edits change the shown line and nothing of the lines stored. -/
structure Typed (edits : List (Edit UInt8)) (k k' : Kernel) : Prop where
  ts : k'.ts = k.ts
  stored : ∀ t, (k'.terminals t).terminalBuf = (k.terminals t).terminalBuf ∧
    (k'.terminals t).bufIdx = (k.terminals t).bufIdx
  shown : ∀ line, k.Shows line → k'.Shows (applyAll 128 10 edits line)

theorem Typed.trans {a b c : Kernel} {edits more : List (Edit UInt8)} (first : Typed edits a b)
    (second : Typed more b c) : Typed (edits ++ more) a c where
  ts := second.ts.trans first.ts
  stored t := ⟨(second.stored t).1.trans (first.stored t).1, (second.stored t).2.trans (first.stored t).2⟩
  shown line held := by
    have after := second.shown _ (first.shown line held)
    simpa only [applyAll, List.foldl_append] using after

theorem typed_of_sameLines {k k' : Kernel} (lines : SameLines k k') : Typed [] k k' where
  ts := lines.ts
  stored t := ⟨lines.terminalBuf t, lines.bufIdx t⟩
  shown line held := by
    simpa only [applyAll, List.foldl_nil, Shows, lines.keyboardBuf, lines.keyIdx] using held

/-- The echo of an edit leaves the lines as the edit left them. -/
theorem Typed.echo {a b c : Kernel} {edits : List (Edit UInt8)} (first : Typed edits a b)
    (lines : SameLines b c) : Typed edits a c := by
  simpa only [List.append_nil] using first.trans (typed_of_sameLines lines)

theorem writeKey_none {k : Kernel} {c : UInt8} (full : k.writeKey c = none) : Typed [.type c] k k where
  ts := rfl
  stored _ := ⟨rfl, rfl⟩
  shown line held := by
    have length := held.index
    have noRoom : ¬ (line.length + 1 < 128 ∨ (line.length + 1 = 128 ∧ c = 10)) := by
      rw [writeKey, Option.map_eq_none_iff, writeChar_eq_none] at full
      exact fun room => full (room.imp (fun small => by omega) fun last => ⟨by omega, last.2⟩)
    simpa only [applyAll, List.foldl_cons, List.foldl_nil, Edit.apply, if_neg noRoom] using held

theorem writeKey_some {k k' : Kernel} {c : UInt8} (visible : c ≠ 0) (written : k.writeKey c = some k') :
    Typed [.type c] k k' := by
  obtain ⟨r, stored, rfl⟩ := Option.map_eq_some_iff.mp written
  refine ⟨rfl, fun _ => ⟨rfl, rfl⟩, fun line held => ?_⟩
  have length := held.index
  obtain ⟨free, rfl⟩ := writeChar_some stored
  have room : line.length + 1 < 128 ∨ (line.length + 1 = 128 ∧ c = 10) :=
    free.imp (fun small => by omega) fun last => ⟨by omega, last.2⟩
  simp only [applyAll, List.foldl_cons, List.foldl_nil, Edit.apply, if_pos room]
  refine held.type visible (by omega) (fun i => ?_)
  by_cases here : i.val = k.keyIdx
  · simp [here]
  · simp [here]

theorem deleteKey_none {k : Kernel} (empty : k.deleteKey = none) : Typed [.erase] k k where
  ts := rfl
  stored _ := ⟨rfl, rfl⟩
  shown line held := by
    have length := held.index
    rw [deleteKey, Option.map_eq_none_iff, deleteChar_eq_none] at empty
    have blank : line = [] := List.length_eq_zero_iff.mp (by omega)
    subst blank
    exact held

theorem deleteKey_some {k k' : Kernel} (deleted : k.deleteKey = some k') : Typed [.erase] k k' := by
  obtain ⟨r, stored, rfl⟩ := Option.map_eq_some_iff.mp deleted
  refine ⟨rfl, fun _ => ⟨rfl, rfl⟩, fun line held => ?_⟩
  obtain ⟨_, rfl⟩ := deleteChar_some stored
  refine held.erase (fun i => ?_)
  by_cases here : i.val = k.keyIdx - 1
  · simp [here]
  · simp [here]

theorem clearKeyboardBuf_typed (k : Kernel) : Typed [.clear] k k.clearKeyboardBuf where
  ts := rfl
  stored _ := ⟨rfl, rfl⟩
  shown line _ := by
    refine Represents.empty (fun i => ?_)
    have inside := i.isLt
    simp only [clearKeyboardBuf, fillLoop_apply, if_pos inside]

theorem tabLoop_typed (n : Nat) (k : Kernel) : Typed (List.replicate n (.type 32)) k (tabLoop n k) := by
  induction n generalizing k with
  | zero => exact typed_of_sameLines (SameLines.refl k)
  | succ n ih =>
    rw [List.replicate_succ, ← List.singleton_append]
    unfold tabLoop
    cases written : k.writeKey 32 with
    | none =>
      have still : k.tabLoop n = k := by
        cases n with
        | zero => rfl
        | succ n => simp only [tabLoop, written]
      have rest := ih k
      rw [still] at rest
      exact (writeKey_none written).trans rest
    | some k1 =>
      have echoed : Typed [.type 32] k (k1.putKey 32) :=
        (writeKey_some (by decide) written).echo (k1.setConsole_sameLines _ _)
      exact echoed.trans (ih (k1.putKey 32))

theorem ctrlHelper_typed (k : Kernel) (c : UInt8) :
    Typed (if c = 'l'.toUInt8 ∨ c = 'L'.toUInt8 then [.clear] else if c = 0 then [] else [.type c]) k
      (k.ctrlHelper c) := by
  unfold ctrlHelper
  split
  · have cleared := (typed_of_sameLines (k.setConsole_sameLines _ _)).trans
      k.clearScreen.clearKeyboardBuf_typed
    exact cleared
  · split
    · exact typed_of_sameLines (SameLines.refl k)
    · rename_i visible
      cases written : k.writeKey c with
      | none => exact (writeKey_none written).echo (k.setConsole_sameLines _ _)
      | some k1 => exact (writeKey_some visible written).echo (k1.setConsole_sameLines _ _)

/-- A key edits the shown line, or it asks for another terminal. -/
theorem keyboardHandler_typed (k : Kernel) (keypress : UInt8) :
    Typed (keyEdits k.flags keypress) k (k.keyboardHandler keypress) ∨
      (keyEdits k.flags keypress = [] ∧ (getKey k.flags keypress).1.alt = true ∧
        ∃ function, k.keyboardHandler keypress =
          ({ k with flags := (getKey k.flags keypress).1 }.terminalSwitch function).1) := by
  unfold keyboardHandler keyEdits
  extract_lets after ascii k1
  have start : SameLines k k1 := by constructor <;> intros <;> rfl
  have flagged : Typed [] k k1 := typed_of_sameLines start
  have flags : k1.flags = after := rfl
  rw [flags]
  split
  · exact Or.inl (flagged.trans (k1.ctrlHelper_typed ascii))
  split
  · rename_i visible
    refine Or.inl ?_
    cases written : k1.writeKey ascii with
    | none => exact flagged.trans (writeKey_none written)
    | some k2 =>
      have typed := flagged.trans (writeKey_some visible written)
      dsimp only
      split
      · exact (typed.echo (k2.setConsole_sameLines _ _)).echo (setConsole_sameLines _ _ _)
      · exact typed.echo (k2.setConsole_sameLines _ _)
  split
  · refine Or.inl ?_
    cases deleted : k1.deleteKey with
    | none => exact flagged.trans (deleteKey_none deleted)
    | some k2 =>
      have erased := flagged.trans (deleteKey_some deleted)
      exact (erased.echo (k2.setConsole_sameLines _ _)).echo (setConsole_sameLines _ _ _)
  split
  · exact Or.inl (flagged.trans (tabLoop_typed 4 k1))
  split
  · rename_i alt
    unfold altHelper
    split
    · exact Or.inl flagged
    · exact Or.inr ⟨rfl, alt, _, rfl⟩
  · exact Or.inl flagged

theorem Typed.holds {k k' : Kernel} {edits : List (Edit UInt8)} (typed : Typed edits k k')
    {t : Fin 3} {line : List UInt8} (held : k.Holds t line) :
    k'.Holds t (if t = k.ts then applyAll 128 10 edits line else line) := by
  by_cases shown : t = k.ts
  · rw [if_pos shown, holds_shown (typed.ts.trans shown.symm)]
    exact typed.shown line ((holds_shown shown.symm line).mp held)
  · have hidden : k.ts ≠ t := Ne.symm shown
    obtain ⟨cells, index⟩ := typed.stored t
    rw [if_neg shown]
    simpa only [Holds, logical, typed.ts, if_neg hidden, cells, index] using held

/-- What a key does to the lines: it edits the one shown. -/
theorem keyboardHandler_holds {k : Kernel} (keypress : UInt8) {t : Fin 3} {line : List UInt8}
    (held : k.Holds t line) : (k.keyboardHandler keypress).Holds t
      (if t = k.ts then applyAll 128 10 (keyEdits k.flags keypress) line else line) := by
  rcases k.keyboardHandler_typed keypress with typed | ⟨noEdit, _, function, switch⟩
  · exact typed.holds held
  · have same : (if t = k.ts then applyAll 128 10 (keyEdits k.flags keypress) line else line) = line := by
      rw [noEdit]
      split <;> rfl
    have keeps := keepsLines_of_logical
      ({ k with flags := (getKey k.flags keypress).1 }.terminalSwitch_logical function)
    rw [same, switch, keeps.holds]
    exact held

end Kernel

end UnixLite
