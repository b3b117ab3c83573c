import UnixLite.Console

namespace UnixLite

open Store

/-- The keys that only set or clear a flag, with make and break codes. -/
def flagKeys : List (UInt8 × (KeyFlags → KeyFlags)) :=
  [(0x0E, fun f => { f with backspace := true }), (0x8E, fun f => { f with backspace := false }),
   (0x0F, fun f => { f with tab := true }), (0x8F, fun f => { f with tab := false }),
   (0x3A, fun f => { f with caps := !f.caps }),
   (0x2A, fun f => { f with lShift := true }), (0xAA, fun f => { f with lShift := false }),
   (0x36, fun f => { f with rShift := true }), (0xB6, fun f => { f with rShift := false }),
   (0x1D, fun f => { f with ctrl := true }), (0x9D, fun f => { f with ctrl := false }),
   (0x38, fun f => { f with alt := true }), (0xB8, fun f => { f with alt := false }),
   (0x3B, fun f => { f with function := 1 }), (0x3C, fun f => { f with function := 2 }),
   (0x3D, fun f => { f with function := 3 }), (0xBB, fun f => { f with function := 0 }),
   (0xBC, fun f => { f with function := 0 }), (0xBD, fun f => { f with function := 0 })]

/-- The keys of the number row: scan code, plain and shifted character. -/
def numberKeys : List (UInt8 × Char × Char) :=
  [(0x29, Char.ofNat 0x60, '~'), (0x02, '1', '!'), (0x03, '2', '@'), (0x04, '3', '#'),
   (0x05, '4', '$'), (0x06, '5', '%'), (0x07, '6', '^'), (0x08, '7', '&'), (0x09, '8', '*'),
   (0x0A, '9', '('), (0x0B, '0', ')'), (0x0C, '-', '_'), (0x0D, '=', '+')]

/-- The other keys that type a character. Caps Lock acts on all of them,
on the punctuation as well. -/
def letterKeys : List (UInt8 × Char × Char) :=
  [(0x10, 'q', 'Q'), (0x11, 'w', 'W'), (0x12, 'e', 'E'), (0x13, 'r', 'R'), (0x14, 't', 'T'),
   (0x15, 'y', 'Y'), (0x16, 'u', 'U'), (0x17, 'i', 'I'), (0x18, 'o', 'O'), (0x19, 'p', 'P'),
   (0x1A, '[', Char.ofNat 0x7B), (0x1B, ']', Char.ofNat 0x7D), (0x2B, Char.ofNat 0x5C, '|'),
   (0x1E, 'a', 'A'), (0x1F, 's', 'S'), (0x20, 'd', 'D'), (0x21, 'f', 'F'), (0x22, 'g', 'G'),
   (0x23, 'h', 'H'), (0x24, 'j', 'J'), (0x25, 'k', 'K'), (0x26, 'l', 'L'), (0x27, ';', ':'),
   (0x28, Char.ofNat 0x27, Char.ofNat 0x22), (0x1C, Char.ofNat 10, Char.ofNat 10),
   (0x2C, 'z', 'Z'), (0x2D, 'x', 'X'), (0x2E, 'c', 'C'), (0x2F, 'v', 'V'), (0x30, 'b', 'B'),
   (0x31, 'n', 'N'), (0x32, 'm', 'M'), (0x33, ',', '<'), (0x34, '.', '>'), (0x35, '/', '?'),
   (0x39, ' ', ' ')]

def keyChar (keys : List (UInt8 × Char × Char)) (upper : Bool) (keypress : UInt8) : Option UInt8 :=
  (keys.find? fun e => e.1 == keypress).map fun e => (if upper then e.2.2 else e.2.1).toUInt8

/-- `get_key`. Its four tables, selected by `(caps << 1) + shift`, are the
number row shifted or not and the other keys in upper or lower case. -/
def getKey (f : KeyFlags) (keypress : UInt8) : KeyFlags × UInt8 :=
  let shift := f.lShift || f.rShift
  match flagKeys.find? fun e => e.1 == keypress with
  | some e => (e.2 f, 0)
  | none =>
    match keyChar numberKeys shift keypress with
    | some c => (f, c)
    | none => (f, (keyChar letterKeys (f.caps != shift) keypress).getD 0)

/-- `write_char`: the new buffer and index, `none` for -1. The last of the
128 slots is kept for a newline. -/
def writeChar (buf : Nat → UInt8) (idx : Nat) (c : UInt8) : Option ((Nat → UInt8) × Nat) :=
  if idx = 127 ∧ c ≠ 10 then none
  else if idx ≥ 128 then none
  else some (Function.update buf idx c, idx + 1)

def deleteChar (buf : Nat → UInt8) (idx : Nat) : Option ((Nat → UInt8) × Nat) :=
  if idx ≤ 0 then none else some (Function.update buf (idx - 1) 0, idx - 1)

section Line

variable {buf : Nat → UInt8} {idx : Nat} {c : UInt8} {r : (Nat → UInt8) × Nat}

theorem writeChar_eq_none : writeChar buf idx c = none ↔ ¬ (idx < 127 ∨ (idx = 127 ∧ c = 10)) := by
  unfold writeChar
  by_cases last : idx = 127 ∧ c ≠ 10
  · rw [if_pos last]
    exact iff_of_true rfl fun room => room.elim (by omega) fun enter => last.2 enter.2
  · rw [if_neg last]
    by_cases full : idx ≥ 128
    · rw [if_pos full]
      exact iff_of_true rfl (by omega)
    · rw [if_neg full]
      refine iff_of_false (by simp) (not_not.mpr ?_)
      by_cases atEnd : idx = 127
      · exact Or.inr ⟨atEnd, not_not.mp fun other => last ⟨atEnd, other⟩⟩
      · exact Or.inl (by omega)

theorem writeChar_some (stored : writeChar buf idx c = some r) :
    (idx < 127 ∨ (idx = 127 ∧ c = 10)) ∧ r = (Function.update buf idx c, idx + 1) := by
  have room : idx < 127 ∨ (idx = 127 ∧ c = 10) := by
    by_contra none
    rw [writeChar_eq_none.mpr none] at stored
    cases stored
  refine ⟨room, ?_⟩
  unfold writeChar at stored
  split at stored
  · cases stored
  split at stored
  · cases stored
  · exact (Option.some.inj stored).symm

theorem deleteChar_eq_none : deleteChar buf idx = none ↔ idx = 0 := by
  unfold deleteChar
  split
  · exact iff_of_true rfl (by omega)
  · exact iff_of_false (by simp) (by omega)

theorem deleteChar_some (stored : deleteChar buf idx = some r) :
    0 < idx ∧ r = (Function.update buf (idx - 1) 0, idx - 1) := by
  unfold deleteChar at stored
  split at stored
  · cases stored
  · exact ⟨by omega, (Option.some.inj stored).symm⟩

end Line

namespace Kernel

/-- `write_char(keyboard_buf, &key_idx, c)` -/
def writeKey (k : Kernel) (c : UInt8) : Option Kernel :=
  (writeChar k.keyboardBuf k.keyIdx c).map fun r => { k with keyboardBuf := r.1, keyIdx := r.2 }

/-- `delete_char(keyboard_buf, &key_idx)` -/
def deleteKey (k : Kernel) : Option Kernel :=
  (deleteChar k.keyboardBuf k.keyIdx).map fun r => { k with keyboardBuf := r.1, keyIdx := r.2 }

/-- `clear_keyboard_buf(keyboard_buf, &key_idx)` -/
def clearKeyboardBuf (k : Kernel) : Kernel :=
  { k with keyboardBuf := fillLoop 128 0 k.keyboardBuf, keyIdx := 0 }

/-- `set_vidmem_page` and the user's video page follow the active terminal:
to the screen if it is shown, else to its backing page. -/
def mapVideo (k : Kernel) : Kernel :=
  if k.ts = k.ta then
    { k.setVidmemPage 0 with
      ptUser := Function.update k.ptUser 0xB8 { k.ptUser 0xB8 with addr := 0xB8 } }
  else
    { k.setVidmemPage (k.ta.val + 1) with
      ptUser := Function.update k.ptUser 0xB8
        { k.ptUser 0xB8 with addr := BitVec.ofNat 20 (0xB8 + k.ta.val + 1) } }

/-- The shown terminal's line goes to its struct, the line of `t` comes in. -/
def swapLines (k : Kernel) (t : Fin 3) : Kernel :=
  let k := k.setTerm k.ts fun u =>
    { u with terminalBuf := copyLoop 128 u.terminalBuf k.keyboardBuf, bufIdx := k.keyIdx }
  { k with
    keyboardBuf := copyLoop 128 k.keyboardBuf (k.terminals t).terminalBuf
    keyIdx := (k.terminals t).bufIdx }

/-- The two page copies of `terminal_switch`. -/
def swapScreens (k : Kernel) (t : Fin 3) : Kernel :=
  { k with mem := blockCopy (blockCopy k.mem (termVid k.ts) video 4096) video (termVid t) 4096 }

/-- Terminal `t` is shown in place of the one that was. -/
def showTerminal (k : Kernel) (t : Fin 3) : Kernel := { (k.swapLines t).swapScreens t with ts := t }

/-- `terminal_switch`. A number other than F1 to F3 leaves `ts` as it is. -/
def terminalSwitch (k : Kernel) (function : Nat) : Kernel × Int :=
  let shown : Fin 3 := if function = 1 then 0 else if function = 2 then 1
    else if function = 3 then 2 else k.ts
  if k.ts = shown then (k, -1)
  else
    let k := k.showTerminal shown
    (if k.termInitDone then k.mapVideo else k, 0)

def ctrlHelper (k : Kernel) (c : UInt8) : Kernel :=
  if c = 'l'.toUInt8 ∨ c = 'L'.toUInt8 then k.clearScreen.clearKeyboardBuf
  else if c = 0 then k
  else ((k.writeKey c).getD k).putKey c

def altHelper (k : Kernel) : Kernel × Int :=
  if k.flags.function < 1 ∨ k.flags.function > 3 then (k, -1) else k.terminalSwitch k.flags.function

/-- The Tab loop of `keyboard_handler`, with `n` of its four blanks left. -/
def tabLoop : Nat → Kernel → Kernel
  | 0, k => k
  | n + 1, k =>
    match k.writeKey 32 with
    | none => k
    | some k => tabLoop n (k.putKey 32)

/-- `keyboard_handler`, given the scan code it reads from the data port. It
acts on the flags as the key has left them, whatever key was decoded. -/
def keyboardHandler (k : Kernel) (keypress : UInt8) : Kernel :=
  let ascii := (getKey k.flags keypress).2
  let k := { k with flags := (getKey k.flags keypress).1 }
  if k.flags.ctrl then k.ctrlHelper ascii
  else if ascii ≠ 0 then
    match k.writeKey ascii with
    | none => k
    | some k => (if ascii = 10 then k.checkCursor else k).putKey ascii
  else if k.flags.backspace then
    match k.deleteKey with
    | none => k
    | some k => k.remc.checkCursor
  else if k.flags.tab then tabLoop 4 k
  else if k.flags.alt then k.altHelper.1
  else k

end Kernel

end UnixLite
