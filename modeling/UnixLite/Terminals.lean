import UnixLite.Steps

namespace UnixLite

open Store

/-- What a user sees of one terminal: screen, line being typed, cursor. -/
structure Logical where
  screen : Fin 4096 → UInt8
  line : Fin 128 → UInt8
  index : Nat
  cursorX : Nat
  cursorY : Nat

theorem termVid_apart {t u : Fin 3} (other : t ≠ u) :
    termVid t + 4096 ≤ termVid u ∨ termVid u + 4096 ≤ termVid t := by
  have values : t.val ≠ u.val := fun eq => other (Fin.ext eq)
  unfold termVid
  omega

theorem video_below (t : Fin 3) : video + 4096 ≤ termVid t := by
  unfold video termVid
  omega

namespace Kernel

/-- The page that holds the screen of terminal `t`. -/
def page (k : Kernel) (t : Fin 3) : Nat := if k.ts = t then video else termVid t

/-- The shown terminal is kept in the globals, the others in their structs. -/
def logical (k : Kernel) (t : Fin 3) : Logical where
  screen i := k.mem (k.page t + i)
  line i := if k.ts = t then k.keyboardBuf i else (k.terminals t).terminalBuf i
  index := if k.ts = t then k.keyIdx else (k.terminals t).bufIdx
  cursorX := (k.terminals t).cursorX
  cursorY := (k.terminals t).cursorY

theorem page_shown {k : Kernel} {t : Fin 3} (shown : k.ts = t) : k.page t = video := if_pos shown

theorem page_hidden {k : Kernel} {t : Fin 3} (hidden : k.ts ≠ t) : k.page t = termVid t :=
  if_neg hidden

/-- The pages of two terminals do not overlap. -/
theorem page_apart (k : Kernel) {t u : Fin 3} (other : t ≠ u) :
    k.page t + 4096 ≤ k.page u ∨ k.page u + 4096 ≤ k.page t := by
  have belowT := video_below t
  have belowU := video_below u
  by_cases shownT : k.ts = t
  · have hidden : k.ts ≠ u := fun eq => other (shownT.symm.trans eq)
    rw [page_shown shownT, page_hidden hidden]
    exact Or.inl belowU
  · by_cases shownU : k.ts = u
    · rw [page_hidden shownT, page_shown shownU]
      exact Or.inr belowT
    · rw [page_hidden shownT, page_hidden shownU]
      exact termVid_apart other

theorem logical_eq {k k' : Kernel} {t : Fin 3} (ts : k'.ts = k.ts)
    (mem : ∀ i, i < 4096 → k'.mem (k.page t + i) = k.mem (k.page t + i))
    (line : ∀ i, i < 128 → k.ts = t → k'.keyboardBuf i = k.keyboardBuf i)
    (index : k.ts = t → k'.keyIdx = k.keyIdx)
    (stored : ∀ i, i < 128 → k.ts ≠ t → (k'.terminals t).terminalBuf i = (k.terminals t).terminalBuf i)
    (storedIndex : k.ts ≠ t → (k'.terminals t).bufIdx = (k.terminals t).bufIdx)
    (cursorX : (k'.terminals t).cursorX = (k.terminals t).cursorX)
    (cursorY : (k'.terminals t).cursorY = (k.terminals t).cursorY) :
    k'.logical t = k.logical t := by
  have page : k'.page t = k.page t := by simp only [Kernel.page, ts]
  unfold logical
  congr 1
  · funext i
    rw [page]
    exact mem i i.isLt
  · funext i
    rw [ts]
    split
    · rename_i shown
      exact line i i.isLt shown
    · rename_i hidden
      exact stored i i.isLt hidden
  · rw [ts]
    split
    · rename_i shown
      exact index shown
    · rename_i hidden
      exact storedIndex hidden

theorem logical_same {k k' : Kernel} (lines : SameLines k k') (video : SameVideo k k') (t : Fin 3) :
    k'.logical t = k.logical t :=
  logical_eq lines.ts (fun _ _ => by rw [video.mem]) (fun _ _ _ => by rw [lines.keyboardBuf])
    (fun _ => lines.keyIdx) (fun _ _ _ => by rw [lines.terminalBuf]) (fun _ => lines.bufIdx t)
    (video.cursorX t) (video.cursorY t)

theorem mapVideo_logical (k : Kernel) (t : Fin 3) : k.mapVideo.logical t = k.logical t := by
  unfold mapVideo
  split <;> rfl

/-- The two page copies of a switch, seen from the page of each terminal. -/
theorem swapScreens_mem (k : Kernel) {shown t : Fin 3} (other : k.ts ≠ shown) {i : Nat}
    (inPage : i < 4096) :
    (k.swapScreens shown).mem ((if shown = t then video else termVid t) + i) =
      k.mem (k.page t + i) := by
  have below := video_below t
  have apart := termVid_apart other
  have belowOld := video_below k.ts
  unfold swapScreens
  dsimp only
  by_cases toShown : shown = t
  · subst toShown
    rw [if_pos rfl, page_hidden other, blockCopy_inside inPage, blockCopy_outside (by omega)]
  · rw [if_neg toShown, blockCopy_outside (by omega)]
    by_cases fromShown : k.ts = t
    · rw [page_shown fromShown, fromShown, blockCopy_inside inPage]
    · have apartOld := termVid_apart fromShown
      rw [page_hidden fromShown, blockCopy_outside (by omega)]

/-- What a switch to another terminal leaves in the buffers. -/
theorem swapLines_parts (k : Kernel) {shown : Fin 3} (other : k.ts ≠ shown) :
    (k.swapLines shown).keyboardBuf = copyLoop 128 k.keyboardBuf (k.terminals shown).terminalBuf ∧
    (k.swapLines shown).keyIdx = (k.terminals shown).bufIdx ∧
    ((k.swapLines shown).terminals k.ts).terminalBuf =
      copyLoop 128 (k.terminals k.ts).terminalBuf k.keyboardBuf ∧
    ((k.swapLines shown).terminals k.ts).bufIdx = k.keyIdx ∧
    (∀ t, t ≠ k.ts → (k.swapLines shown).terminals t = k.terminals t) ∧
    ∀ t, ((k.swapLines shown).terminals t).cursorX = (k.terminals t).cursorX ∧
      ((k.swapLines shown).terminals t).cursorY = (k.terminals t).cursorY := by
  have old : shown ≠ k.ts := Ne.symm other
  refine ⟨?_, ?_, ?_, ?_, ?_, ?_⟩
  · simp [swapLines, setTerm, old]
  · simp [swapLines, setTerm, old]
  · simp [swapLines, setTerm]
  · simp [swapLines, setTerm]
  · intro t waits
    simp [swapLines, setTerm, waits]
  · intro t
    by_cases same : t = k.ts <;> simp [swapLines, setTerm, same]

/-- A switch moves screens and lines about, but every terminal keeps its own. -/
theorem showTerminal_logical (k : Kernel) {shown : Fin 3} (other : k.ts ≠ shown) (t : Fin 3) :
    (k.showTerminal shown).logical t = k.logical t := by
  obtain ⟨keyboardBuf, keyIdx, terminalBuf, bufIdx, others, cursors⟩ := k.swapLines_parts other
  obtain ⟨cursorX, cursorY⟩ := cursors t
  have mem (i : Fin 4096) := (k.swapLines shown).swapScreens_mem other (t := t) i.isLt
  unfold logical showTerminal
  congr 1
  · funext i
    exact mem i
  · funext i
    have inBuf := i.isLt
    by_cases toShown : shown = t
    · subst toShown
      simp only [if_pos, if_neg other]
      change (k.swapLines shown).keyboardBuf i = _
      rw [keyboardBuf, copyLoop_apply, if_pos inBuf]
    · simp only [if_neg toShown]
      change ((k.swapLines shown).terminals t).terminalBuf i = _
      by_cases fromShown : k.ts = t
      · subst fromShown
        rw [terminalBuf, copyLoop_apply, if_pos inBuf, if_pos rfl]
      · rw [others t (Ne.symm fromShown), if_neg fromShown]
  · by_cases toShown : shown = t
    · subst toShown
      simp only [if_pos, if_neg other]
      exact keyIdx
    · simp only [if_neg toShown]
      change ((k.swapLines shown).terminals t).bufIdx = _
      by_cases fromShown : k.ts = t
      · subst fromShown
        rw [bufIdx, if_pos rfl]
      · rw [others t (Ne.symm fromShown), if_neg fromShown]

theorem terminalSwitch_logical (k : Kernel) (function : Nat) (t : Fin 3) :
    (k.terminalSwitch function).1.logical t = k.logical t := by
  unfold terminalSwitch
  extract_lets shown
  split
  · rfl
  · rename_i other
    have swapped := k.showTerminal_logical other t
    dsimp only
    split
    · rw [mapVideo_logical]
      exact swapped
    · exact swapped

theorem finishInit_logical (k : Kernel) (t : Fin 3) : k.finishInit.logical t = k.logical t := by
  unfold finishInit
  split
  · exact k.terminalSwitch_logical 1 t
  · rfl

theorem nextTerminal_logical (k : Kernel) (t : Fin 3) : k.nextTerminal.logical t = k.logical t :=
  mapVideo_logical _ t

/-- A tick that switches to the next terminal changes no terminal. -/
theorem tick_logical (k : Kernel) (regs : Regs) (t : Fin 3) :
    (k.saveContext regs).finishInit.nextTerminal.logical t = k.logical t := by
  rw [nextTerminal_logical, finishInit_logical]
  rfl

end Kernel

end UnixLite
