import UnixLite.AddressSpaces
import UnixLite.Echo
import UnixLite.Exceptions

namespace UnixLite

open Store Scroll Transition

/-- The message of `handle_exception` without its line breaks. -/
def exceptionLine (id : Fin 20) (errCode : Word) : List UInt8 :=
  ((exceptionText id errCode).filter (· ≠ '\n')).map Char.toUInt8

/-- The part of the message before the error code. -/
def exceptionTitle (id : Fin 20) : List Char :=
  "EXCEPTION DETECTED      Exception: ".toList ++ (exceptionMessages.get id).toList

theorem exceptionText_coded (id : Fin 20) {errCode : Word} (coded : errCode ≠ -1) :
    exceptionText id errCode =
      exceptionTitle id ++ (" - Error Code: 0x".toList ++ itoaHex errCode ++ "\n".toList) := by
  unfold exceptionText exceptionTitle
  rw [if_neg coded]

theorem exceptionText_plain (id : Fin 20) : exceptionText id (-1) = exceptionTitle id ++ "\n\n".toList := by
  unfold exceptionText exceptionTitle
  rw [if_pos rfl]

/-- A character that is drawn, in its lower byte too. -/
def Glyph (c : Char) : Prop := c ≠ '\n' ∧ ¬ (c.toUInt8 = 10 ∨ c.toUInt8 = 13)

instance decidableGlyph (c : Char) : Decidable (Glyph c) := inferInstanceAs (Decidable (_ ∧ _))

theorem glyph_of_all {str : List Char} (all : (str.all fun c => decide (Glyph c)) = true) : ∀ c ∈ str, Glyph c :=
  fun c member => of_decide_eq_true (List.all_eq_true.mp all c member)

theorem exceptionTitle_drawn (id : Fin 20) :
    (exceptionTitle id).length ≤ 64 ∧ ∀ c ∈ exceptionTitle id, Glyph c := by
  have all : ∀ id : Fin 20, (exceptionTitle id).length ≤ 64 ∧
      ((exceptionTitle id).all fun c => decide (Glyph c)) = true := by
    decide +kernel
  exact ⟨(all id).1, glyph_of_all (all id).2⟩

theorem digitChar_glyph {n : Nat} (small : n < 16) : Glyph (Nat.digitChar n).toUpper := by
  have all : ∀ n : Fin 16, Glyph (Nat.digitChar n).toUpper := by decide +kernel
  exact all ⟨n, small⟩

theorem itoaHex_glyph (value : Word) : (itoaHex value).length ≤ 8 ∧ ∀ c ∈ itoaHex value, Glyph c := by
  have digits (n : Nat) : ∀ c ∈ Nat.toDigits 16 n, Glyph c.toUpper := by
    induction n using Nat.strongRecOn with
    | ind n ih =>
      intro c member
      rw [Nat.toDigits_eq_if (by decide)] at member
      split at member
      · rename_i small
        rw [List.mem_singleton.mp member]
        exact digitChar_glyph small
      · rename_i large
        rcases List.mem_append.mp member with front | last
        · exact ih (n / 16) (by omega) c front
        · rw [List.mem_singleton.mp last]
          exact digitChar_glyph (Nat.mod_lt n (by decide))
  constructor
  · rw [itoaHex, List.length_map]
    exact (Nat.length_toDigits_le_iff (by decide) (by decide)).mpr value.isLt
  · intro c member
    obtain ⟨digit, listed, rfl⟩ := List.mem_map.mp member
    exact digits _ digit listed

/-- Characters that are drawn, and line breaks behind them. -/
theorem glyph_strokes {line : List Char} (drawn : ∀ c ∈ line, Glyph c) (breaks : Nat) :
    (line ++ List.replicate breaks '\n').filter (· ≠ '\n') = line ∧
      (line ++ List.replicate breaks '\n').map (fun c => stroke c.toUInt8) =
        ((line.map Char.toUInt8).map fun c => (c, 7)).map some ++ List.replicate breaks none := by
  constructor
  · rw [List.filter_append, List.filter_replicate, if_neg (by simp), List.append_nil]
    exact List.filter_eq_self.mpr fun c member => decide_eq_true (drawn c member).1
  · rw [List.map_append, List.map_replicate, List.map_map, List.map_map]
    congr 1
    exact List.map_congr_left fun c member => if_neg (drawn c member).2

theorem exceptionText_breaks (id : Fin 20) (errCode : Word) : ∃ line breaks, breaks ≤ 2 ∧
    line.length ≤ 100 ∧ (∀ c ∈ line, Glyph c) ∧
      exceptionText id errCode = line ++ List.replicate breaks '\n' := by
  obtain ⟨short, drawn⟩ := exceptionTitle_drawn id
  have ends : "\n\n".toList = List.replicate 2 '\n' ∧ "\n".toList = List.replicate 1 '\n' := by
    decide +kernel
  by_cases plain : errCode = -1
  · subst plain
    exact ⟨exceptionTitle id, 2, le_rfl, by omega, drawn,
      (exceptionText_plain id).trans (congrArg (exceptionTitle id ++ ·) ends.1)⟩
  · obtain ⟨digits, hex⟩ := itoaHex_glyph errCode
    have label : " - Error Code: 0x".toList.length = 17 ∧ ∀ c ∈ " - Error Code: 0x".toList, Glyph c :=
      ⟨by decide +kernel, glyph_of_all (by decide +kernel)⟩
    refine ⟨exceptionTitle id ++ (" - Error Code: 0x".toList ++ itoaHex errCode), 1, by decide, ?_, ?_, ?_⟩
    · rw [List.length_append, List.length_append, label.1]
      omega
    · intro c member
      rcases List.mem_append.mp member with title | rest
      · exact drawn c title
      · rcases List.mem_append.mp rest with code | digit
        · exact label.2 c code
        · exact hex c digit
    · rw [exceptionText_coded id plain, List.append_assoc (exceptionTitle id)]
      exact congrArg (fun last => exceptionTitle id ++ (" - Error Code: 0x".toList ++ itoaHex errCode ++ last))
        ends.2

/-- The message is a line of less than two rows, and at most two line breaks. -/
theorem exceptionText_line (id : Fin 20) (errCode : Word) : ∃ breaks, breaks ≤ 2 ∧
    (exceptionLine id errCode).length ≤ 100 ∧
      (exceptionText id errCode).map (fun c => stroke c.toUInt8) =
        ((exceptionLine id errCode).map fun c => (c, 7)).map some ++ List.replicate breaks none := by
  obtain ⟨line, breaks, few, short, drawn, whole⟩ := exceptionText_breaks id errCode
  obtain ⟨kept, strokes⟩ := glyph_strokes drawn breaks
  rw [exceptionLine, whole, kept]
  exact ⟨breaks, few, by rw [List.length_map]; exact short, strokes⟩

namespace Kernel

theorem drawCell_still {m : Nat → UInt8} {vid n : Nat} (blank : (m (vid + 2 * n), m (vid + 2 * n + 1)) = blankCell) :
    drawCell vid 0 n 32 m = m := by
  have place : cell vid 0 n = vid + 2 * n := by
    unfold cell
    omega
  have character : Function.update m (vid + 2 * n) 32 = m :=
    Function.update_eq_self_iff.mpr (congrArg Prod.fst blank).symm
  have attributes : Function.update m (vid + 2 * n + 1) 7 = m :=
    Function.update_eq_self_iff.mpr (congrArg Prod.snd blank).symm
  rw [drawCell, place, character, attributes]

theorem clear_still {m : Nat → UInt8} (blank : ∀ n, n < 2000 → (m (video + 2 * n), m (video + 2 * n + 1)) = blankCell) :
    clear m = m := by
  have still (idxs : List Nat) (inside : ∀ n ∈ idxs, n < 2000) :
      idxs.foldl (fun m i => drawCell video 0 i 32 m) m = m := by
    induction idxs with
    | nil => rfl
    | cons n rest ih =>
      rw [List.foldl_cons, drawCell_still (blank n (inside n (List.mem_cons_self ..)))]
      exact ih fun m later => inside m (List.mem_cons_of_mem n later)
  unfold clear
  exact still (List.range 2000) fun n member => List.mem_range.mp member

/-- Clearing a screen that is blank, with the cursor home, changes nothing. -/
theorem clearScreen_still {k : Kernel} (blank : k.screen k.ts = Window.wipe blankCell) :
    k.clearScreen.logical k.ts = k.logical k.ts := by
  have cells (n : Nat) (inside : n < 2000) : k.shownCell n = blankCell := by
    have shown := k.shownCell_reads k.ts inside
    rw [← page_shown (rfl : k.ts = k.ts)] at shown
    obtain ⟨j, i, _, held⟩ : (k.screen k.ts).Reads n (k.shownCell n) := shown
    rw [blank] at held
    exact held.symm
  have drawn (s : Console) : (k.setConsole k.ts s).mem = s.mem := rfl
  have mem : k.clearScreen.mem = k.mem := by
    rw [clearScreen, drawn]
    simp only [Console.clearScreen, console]
    exact clear_still cells
  have lines := k.setConsole_sameLines k.ts (k.console k.ts).clearScreen
  have home : (k.clearScreen.console k.ts).x = 0 ∧ (k.clearScreen.console k.ts).y = 0 := by
    rw [clearScreen, console_setConsole]
    exact ⟨rfl, rfl⟩
  exact logical_eq rfl (fun i _ => by rw [mem]) (fun i _ _ => by rw [clearScreen, lines.keyboardBuf])
    (fun _ => lines.keyIdx) (fun _ _ hidden => absurd rfl hidden) (fun hidden => absurd rfl hidden)
    (home.1.trans (congrArg Window.x blank).symm) (home.2.trans (congrArg Window.y blank).symm)

/-- The output of characters is that of their codes. -/
theorem putc_foldl_codes (k : Kernel) (chars : List Char) : chars.foldl (fun k c => k.putc c.toUInt8) k =
    (chars.map Char.toNat).foldl (fun k idx => k.putc idx.toUInt8) k := by
  rw [List.foldl_map]
  rfl

/-- The output of `handle_exception` changes the active terminal alone. -/
theorem message_touches {k : Kernel} (cursors : k.CursorsOnScreen) (mapped : k.videoMem = k.page k.ta)
    (chars : List Char) : Touches k.ta k (chars.foldl (fun k c => k.putc c.toUInt8) k) := by
  rw [putc_foldl_codes]
  exact putLoop_touches cursors mapped _ Nat.toUInt8

/-- What halting the running process leaves on the terminals. -/
structure HandsOver (k k' : Kernel) : Prop where
  others : ∀ t, t ≠ k.ta → k'.logical t = k.logical t
  screen : ∀ t, k'.screen t = k.screen t

theorem haltBody_handsOver (k : Kernel) : HandsOver k k.haltBody where
  others t other := by
    have halt := k.haltBody_halted
    have hidden (shown : k.ts = t) : k.ts ≠ k.ta := fun same => other (shown.symm.trans same)
    refine logical_eq halt.video.ts (fun i _ => by rw [halt.video.mem]) (fun i _ shown => ?_) (fun shown => ?_)
      (fun i _ _ => by rw [halt.otherBuf t other]) (fun _ => halt.bufIdx t) (halt.video.cursorX t)
      (halt.video.cursorY t)
    · rw [halt.keyboardBuf, if_neg (hidden shown)]
    · rw [halt.keyIdx, if_neg (hidden shown)]
  screen t := by
    have video := k.haltBody_halted.video
    rw [screen, window, sameVideo_console video, page, video.ts]
    rfl

/-- A program is loaded above the video pages. -/
theorem Started.logical {fs : FsImage} {k k' : Kernel} {command : List UInt8} {regs : Regs} {pid : Int}
    (run : Started fs k command regs pid k') (t : Fin 3) : k'.logical t = k.logical t := by
  obtain ⟨dentry, _, mem⟩ := run.program
  obtain ⟨lower, upper, _, _⟩ := freePid_some run.slot
  have start := frameStart_eq lower upper
  have shown : k.page t + 4096 ≤ 0x800000 := by
    unfold page video termVid
    split <;> omega
  refine logical_eq run.lines.ts (fun i inPage => ?_) (fun _ _ _ => by rw [run.lines.keyboardBuf])
    (fun _ => run.lines.keyIdx) (fun _ _ _ => by rw [run.lines.terminalBuf]) (fun _ => run.lines.bufIdx t)
    (run.cursor t).1 (run.cursor t).2
  rw [mem]
  refine storeList_before ?_
  change _ < frameStart pid + _
  omega

theorem halt_handsOver {fs : FsImage} {k k' : Kernel} {status : Word} {regs : Regs} {r : Reply}
    (halt : Step fs k (.halt status regs, r) k') : HandsOver k k' := by
  rcases step_halt halt with ⟨_, rfl, _⟩ | ⟨_, restarted⟩
  · exact k.haltBody_handsOver
  · have same : ∀ t, k'.logical t = k.logical t := by
      rcases sysExecute_outcome restarted with ⟨_, _, rfl, _⟩ | ⟨_, _, _, started⟩
      · exact fun _ => rfl
      · exact started.logical
    exact ⟨fun t _ => same t, fun t => screen_of_logical (same t)⟩

/-- The message of an exception stands on the screen of the active terminal. -/
theorem message_holds {k : Kernel} (cursors : k.CursorsOnScreen) (mapped : k.videoMem = k.page k.ta)
    (id : Fin 20) (errCode : Word) : ∃ start, Window.Holds start ((exceptionLine id errCode).map fun c => (c, 7))
      (((exceptionText id errCode).foldl (fun k c => k.putc c.toUInt8) k).screen k.ta) := by
  obtain ⟨breaks, few, short, strokes⟩ := exceptionText_line id errCode
  have output : (exceptionText id errCode).foldl (fun k c => k.putc c.toUInt8) k =
      ((exceptionText id errCode).map Char.toUInt8).foldl (putAt k.videoMem k.ta) k := by
    rw [← putc_foldl, List.foldl_map]
  have touches := message_touches cursors mapped (exceptionText id errCode)
  have page : ((exceptionText id errCode).foldl (fun k c => k.putc c.toUInt8) k).page k.ta = k.videoMem := by
    rw [mapped, Kernel.page, Kernel.page, touches.ts]
  rw [screen, page, output, putAt_window (cursors k.ta), List.map_map]
  have written := @Window.OnScreen.holds_written _ _ _ blankCell (k.window k.videoMem k.ta) (cursors k.ta)
    ((exceptionLine id errCode).map fun c => (c, 7)) breaks (by rw [List.length_map]; omega)
  rw [← strokes] at written
  exact written

theorem message_display {k : Kernel} (ok : Display k) (chars : List Char) :
    Display (chars.foldl (fun k c => k.putc c.toUInt8) k) := by
  rw [putc_foldl_codes]
  exact ok.putLoop _ Nat.toUInt8

theorem Display.moves {fs : FsImage} {k k' : Kernel} {o : Occurrence} (ok : Display k)
    (move : Moves fs k o k') : Display k' := by
  cases move with
  | act step => exact ok.step step
  | @exception id errCode regs r k' run =>
    have cleared := ok.touches (clearScreen_touches ok.cursors)
    have halt : Step fs _ (.halt 256 regs, r) k' := run
    exact (message_display cleared (exceptionText id errCode)).step halt

end Kernel

/-- What handling an exception of the running process may change, and what
it shows. -/
structure FaultContained (message : List UInt8) (k k' : Kernel) : Prop where
  others : ∀ t, t ≠ k.ta → k'.logical t = k.logical t
  shown : ∃ start, Window.Holds start (message.map fun c => (c, 7)) (k'.screen k.ta)

/-- `clear_screen` clears the shown screen, whichever terminal runs. -/
theorem faultContained_iff {fs : FsImage} {k k' : Kernel} (ok : k.Display) (booted : k.termInitDone = true)
    {id : Fin 20} {errCode : Word} {regs : Regs} {r : Reply}
    (handled : (k.handleException fs id errCode regs).outcome = some (k', r)) :
    FaultContained (exceptionLine id errCode) k k' ↔
      k.ts = k.ta ∨ k.screen k.ts = Window.wipe blankCell := by
  have cleared := Kernel.clearScreen_touches ok.cursors
  have mapped : k.clearScreen.videoMem = k.clearScreen.page k.ta := (ok.mapped booted).1
  have output := Kernel.message_touches cleared.cursors mapped (exceptionText id errCode)
  have halt : Step fs _ (.halt 256 regs, r) k' := handled
  have handed := Kernel.halt_handsOver halt
  have later (t : Fin 3) (other : t ≠ k.ta) : k'.logical t = k.clearScreen.logical t := by
    have active : t ≠ ((exceptionText id errCode).foldl (fun k c => k.putc c.toUInt8) k.clearScreen).ta := by
      rw [output.ta]
      exact other
    exact (handed.others t active).trans (output.others t other)
  have home : k.clearScreen.screen k.ts = Window.wipe blankCell := by
    have shown : k.clearScreen.page k.ts = video := Kernel.page_shown rfl
    rw [Kernel.screen, shown, Kernel.window, Kernel.clearScreen, Kernel.console_setConsole,
      Console.window_clearScreen]
  constructor
  · intro contained
    by_cases same : k.ts = k.ta
    · exact Or.inl same
    · have kept := (later k.ts same).symm.trans (contained.others k.ts same)
      exact Or.inr ((Kernel.screen_of_logical kept).symm.trans home)
  · intro condition
    refine ⟨fun t other => ?_, ?_⟩
    · rw [later t other]
      by_cases hidden : t = k.ts
      · subst hidden
        exact k.clearScreen_still (condition.resolve_left other)
      · exact cleared.others t hidden
    · rw [handed.screen]
      exact Kernel.message_holds cleared.cursors mapped id errCode

/-- In every state reached once the boot is over, handling an exception of the
running process keeps to its terminal exactly when that terminal is shown, or
the shown screen is blank with the cursor in its corner. -/
theorem exception_contained {fs : FsImage} {pcbs : Int → Pcb} {ram : Nat → UInt8}
    {ptFrame ptUserFrame : BitVec 20} {history : List (Event Kernel Occurrence)} {k : Kernel}
    (run : Run (Moves fs) (entryState pcbs ram ptFrame ptUserFrame) history k)
    (booted : k.termInitDone = true) {id : Fin 20} {errCode : Word} {regs : Regs} {k' : Kernel} {r : Reply}
    (handled : (k.handleException fs id errCode regs).outcome = some (k', r)) :
    FaultContained (exceptionLine id errCode) k k' ↔
      k.ts = k.ta ∨ k.screen k.ts = Window.wipe blankCell :=
  faultContained_iff (run.invariant Kernel.Display (Kernel.entry_display pcbs ram ptFrame ptUserFrame)
    fun _ _ _ ok move => ok.moves move) booted handled

theorem Runs.moves {fs : FsImage} {first k : Kernel} {history : List Happening} (run : Runs fs first history k) :
    ∃ history, Run (Moves fs) first history k :=
  run.invariant (fun k => ∃ history, Run (Moves fs) first history k) ⟨[], .start⟩
    fun _ _ _ before move => before.elim fun _ run => ⟨_, run.next (.act move)⟩

/-- An exception of a process with a parent is handled to the end. -/
theorem handleException_resumes (fs : FsImage) {k : Kernel} (child : k.curPcb.parentPid ≠ -1) (id : Fin 20)
    (errCode : Word) (regs : Regs) : ∃ k' r, (k.handleException fs id errCode regs).outcome = some (k', r) := by
  have output := (k.setConsole_ttyOnly k.ts (k.console k.ts).clearScreen).trans
    (Kernel.putAll_ttyOnly (exceptionText id errCode) k.clearScreen)
  have parent : ((exceptionText id errCode).foldl (fun k c => k.putc c.toUInt8) k.clearScreen).curPcb.parentPid ≠ -1 := by
    rw [Kernel.curPcb, output.pcb, output.curPid]
    exact child
  rw [Kernel.handleException, Kernel.haltHelper, if_neg parent]
  exact ⟨_, _, rfl⟩

/-- The shell of the second terminal executes a program, and a key is typed
on the first. -/
def faultActs : List Act :=
  setUpActs ++ [.tick ⟨0, 0⟩ ⟨0, 0⟩, .tick ⟨0, 0⟩ ⟨0, 0⟩, .execute shell ⟨0, 0⟩, .key 0x1E]

/-- A program of the terminal that is shown faults. -/
theorem exception_contained_sample : ∃ history k k' r, Run (Moves sampleImage) sampleEntry history k ∧
    (k.handleException sampleImage 0 (-1) ⟨0, 0⟩).outcome = some (k', r) ∧
      FaultContained (exceptionLine 0 (-1)) k k' := by
  have computed : (performAll sampleImage (setUpActs ++ [.tick ⟨0, 0⟩ ⟨0, 0⟩, .execute shell ⟨0, 0⟩])
      ([], sampleEntry)).map (fun r => (r.2.termInitDone, r.2.ts, r.2.ta, r.2.curPcb.parentPid)) =
        some (true, 0, 0, 0) := by
    decide +kernel
  obtain ⟨⟨past, k⟩, done, values⟩ := Option.map_eq_some_iff.mp computed
  simp only [Prod.mk.injEq] at values
  obtain ⟨booted, shown, active, parent⟩ := values
  obtain ⟨history, run⟩ := (performAll_run .start done).moves
  obtain ⟨k', r, handled⟩ := handleException_resumes sampleImage (by rw [parent]; decide) 0 (-1) ⟨0, 0⟩
  exact ⟨history, k, k', r, run, handled,
    (exception_contained run booted handled).mpr (Or.inl (shown.trans active.symm))⟩

/-- A program of the second terminal faults while the first one is shown,
with a character typed on it. -/
theorem exception_clears_shown : ¬ ∀ (fs : FsImage) (pcbs : Int → Pcb) (ram : Nat → UInt8)
    (ptFrame ptUserFrame : BitVec 20) (history : List (Event Kernel Occurrence)) (k : Kernel),
    Run (Moves fs) (entryState pcbs ram ptFrame ptUserFrame) history k → k.termInitDone = true →
      k.curPcb.parentPid ≠ -1 → ∀ (id : Fin 20) (errCode : Word) (regs : Regs) (k' : Kernel) (r : Reply),
        (k.handleException fs id errCode regs).outcome = some (k', r) →
          FaultContained (exceptionLine id errCode) k k' := by
  intro always
  have computed : (performAll sampleImage faultActs ([], sampleEntry)).map (fun r =>
      (r.2.termInitDone, r.2.ts, r.2.ta, r.2.curPcb.parentPid, (r.2.screen r.2.ts).x)) =
        some (true, 0, 1, 1, 1) := by
    decide +kernel
  obtain ⟨⟨past, k⟩, done, values⟩ := Option.map_eq_some_iff.mp computed
  simp only [Prod.mk.injEq] at values
  obtain ⟨booted, shown, active, parent, cursor⟩ := values
  obtain ⟨history, run⟩ := (performAll_run .start done).moves
  have child : k.curPcb.parentPid ≠ -1 := by
    rw [parent]
    decide
  obtain ⟨k', r, handled⟩ := handleException_resumes sampleImage child 0 (-1) ⟨0, 0⟩
  have contained := always _ _ _ _ _ _ _ run booted child _ _ _ _ _ handled
  have ok := run.invariant Kernel.Display (Kernel.entry_display _ _ _ _) fun _ _ _ ok move => ok.moves move
  rcases (faultContained_iff ok booted handled).mp contained with same | blank
  · rw [shown, active] at same
    cases same
  · rw [congrArg Window.x blank] at cursor
    cases cursor

end UnixLite
