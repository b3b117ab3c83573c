import UnixLite.Lines
import UnixLite.Boot

namespace UnixLite

open Store Transition LineEditor

namespace Kernel

/-- Every terminal's line buffer is filled up to its index and no further. -/
def LinesOk (k : Kernel) : Prop := ∀ t, WellFormed 0 (k.logical t).line (k.logical t).index

theorem linesOk_iff (k : Kernel) : k.LinesOk ↔ ∀ t, ∃ line, k.Holds t line :=
  forall_congr' fun _ => represents_iff.symm

theorem KeepsLines.linesOk {k k' : Kernel} (keeps : KeepsLines k k') : k'.LinesOk ↔ k.LinesOk := by
  simp only [linesOk_iff, keeps.holds]

/-- A halt clears the line of the active terminal; the index goes with it
only where the terminal is shown. -/
theorem Halted.lines {k k' : Kernel} (halt : k.Halted k') :
    (∀ t, t ≠ k.ta → (k'.logical t).line = (k.logical t).line ∧
      (k'.logical t).index = (k.logical t).index) ∧
    (∀ i, (k'.logical k.ta).line i = 0) ∧
    (k'.logical k.ta).index = if k.ts = k.ta then 0 else (k.terminals k.ta).bufIdx := by
  have ts := halt.video.ts
  refine ⟨?_, ?_, ?_⟩
  · intro t other
    by_cases shown : k.ts = t
    · have notActive : k.ts ≠ k.ta := fun eq => other (shown.symm.trans eq)
      simp only [logical, ts, if_pos shown, halt.keyboardBuf, halt.keyIdx, if_neg notActive, and_self]
    · simp only [logical, ts, if_neg shown, halt.otherBuf t other, halt.bufIdx t, and_self]
  · intro i
    have inside := i.isLt
    by_cases shown : k.ts = k.ta
    · simp only [logical, ts, if_pos shown, halt.keyboardBuf, fillLoop_apply, if_pos inside]
    · simp only [logical, ts, if_neg shown, halt.terminalBuf, fillLoop_apply, if_pos inside]
  · by_cases shown : k.ts = k.ta
    · simp only [logical, ts, if_pos shown, halt.keyIdx]
    · simp only [logical, ts, if_neg shown, halt.bufIdx]

/-- A cleared buffer is well formed exactly when its index is zero. -/
theorem cleared_wellFormed {buf : Fin 128 → UInt8} {index : Nat} (cleared : ∀ i, buf i = 0) :
    WellFormed 0 buf index ↔ index = 0 := by
  constructor
  · intro good
    by_contra nonzero
    have first := good.filled ⟨0, by omega⟩ (Nat.pos_of_ne_zero nonzero)
    exact first (cleared _)
  · rintro rfl
    exact ⟨Nat.zero_le _, fun _ inside => absurd inside (Nat.not_lt_zero _), fun i _ => cleared i⟩

theorem Halted.linesOk {k k' : Kernel} (ok : k.LinesOk) (halt : k.Halted k') :
    k'.LinesOk ↔ k.ts = k.ta ∨ (k.terminals k.ta).bufIdx = 0 := by
  obtain ⟨others, cleared, index⟩ := halt.lines
  have own : WellFormed 0 (k'.logical k.ta).line (k'.logical k.ta).index ↔ _ :=
    cleared_wellFormed cleared
  have zero : (k'.logical k.ta).index = 0 ↔ k.ts = k.ta ∨ (k.terminals k.ta).bufIdx = 0 := by
    rw [index]
    by_cases shown : k.ts = k.ta
    · simp [shown]
    · simp [shown]
  rw [← zero, ← own]
  constructor
  · exact fun all => all k.ta
  · intro active t
    by_cases here : t = k.ta
    · rw [here]
      exact active
    · obtain ⟨line, idx⟩ := others t here
      rw [line, idx]
      exact ok t

/-- A completed read of the terminal leaves the shown line empty. -/
theorem clearKeyboardBuf_linesOk {k : Kernel} (ok : k.LinesOk) : k.clearKeyboardBuf.LinesOk := by
  rw [linesOk_iff] at ok ⊢
  intro t
  obtain ⟨line, held⟩ := ok t
  exact ⟨_, k.clearKeyboardBuf_typed.holds held⟩

theorem sysExecute_keepsLines {fs : FsImage} {k k' : Kernel} {command : List UInt8} {regs : Regs}
    {r : Reply} (run : (k.sysExecute fs command regs).outcome = some (k', r)) : KeepsLines k k' := by
  rcases sysExecute_outcome run with ⟨prev, v, rfl, _⟩ | ⟨eip, pid, _, started⟩
  · exact fun _ => ⟨rfl, rfl⟩
  · exact keepsLines_of_sameLines started.lines

theorem launchTerminal_keepsLines (k : Kernel) (t : Fin 3) : KeepsLines k (k.launchTerminal t) := by
  have shown := keepsLines_of_logical (k.terminalSwitch_logical (t.val + 1))
  refine shown.trans fun u => ?_
  by_cases same : u = t <;> simp [launchTerminal, logical, setTerm, same]

theorem pitHandler_keepsLines {fs : FsImage} {k k' : Kernel} {regs execRegs : Regs} {r : Reply}
    (run : (k.pitHandler fs regs execRegs).outcome = some (k', r)) : KeepsLines k k' := by
  have saved : KeepsLines k (k.saveContext regs) := fun _ => ⟨rfl, rfl⟩
  rcases step_tick run with ⟨_, _, shape, _⟩ | ⟨_, launched⟩
  · rw [shape]
    exact keepsLines_of_logical (k.tick_logical regs)
  · exact (saved.trans (launchTerminal_keepsLines _ _)).trans (sysExecute_keepsLines launched)

end Kernel

/-- The halt of a process that has a parent finds its terminal shown, or
nothing typed in the line kept for it. -/
def HaltsClean (k : Kernel) (l : Act × Reply) : Prop :=
  ∀ status regs, l.1 = .halt status regs → k.curPcb.parentPid ≠ -1 →
    k.ts = k.ta ∨ (k.terminals k.ta).bufIdx = 0

instance HaltsClean.decidable (k : Kernel) (l : Act × Reply) : Decidable (HaltsClean k l) :=
  match l with
  | (.halt _ _, _) => decidable_of_iff (k.curPcb.parentPid ≠ -1 → k.ts = k.ta ∨ (k.terminals k.ta).bufIdx = 0)
      ⟨fun clean _ _ _ => clean, fun clean => clean _ _ rfl⟩
  | (.execute _ _, _) | (.tick _ _, _) | (.key _, _) | (.switchTo _, _) | (.read _ _ _, _) | (.write _ _ _ _, _)
  | (.openFile _, _) | (.close _, _) | (.putc _, _) | (.vidStore _ _, _) => isTrue (by rintro _ _ ⟨⟩)

/-- One step keeps the line buffers well formed exactly when it halts clean. -/
theorem step_linesOk {fs : FsImage} {k k' : Kernel} {l : Act × Reply} (ok : k.LinesOk)
    (move : Step fs k l k') : k'.LinesOk ↔ HaltsClean k l := by
  obtain ⟨act, r⟩ := l
  have clean (notHalt : ∀ status regs, act ≠ .halt status regs) (after : k'.LinesOk) :
      k'.LinesOk ↔ HaltsClean k (act, r) :=
    ⟨fun _ status regs same => absurd same (notHalt status regs), fun _ => after⟩
  cases act with
  | execute command regs =>
    exact clean (by simp) ((Kernel.sysExecute_keepsLines move).linesOk.mpr ok)
  | tick regs execRegs =>
    exact clean (by simp) ((Kernel.pitHandler_keepsLines move).linesOk.mpr ok)
  | halt status regs =>
    rcases step_halt move with ⟨child, rfl, _⟩ | ⟨orphan, restarted⟩
    · rw [k.haltBody_halted.linesOk ok]
      exact ⟨fun good _ _ _ _ => good, fun good => good status regs rfl child⟩
    · have freed : Kernel.KeepsLines k k.freeBase := fun _ => ⟨rfl, rfl⟩
      have keeps := freed.trans (Kernel.sysExecute_keepsLines restarted)
      exact ⟨fun _ _ _ _ child => absurd orphan child, fun _ => keeps.linesOk.mpr ok⟩
  | key keypress =>
    cases move
    refine clean (by simp) ((Kernel.linesOk_iff _).mpr fun t => ?_)
    obtain ⟨line, held⟩ := (k.linesOk_iff.mp ok) t
    exact ⟨_, Kernel.keyboardHandler_holds keypress held⟩
  | switchTo function =>
    cases move
    have keeps := Kernel.keepsLines_of_logical (k.terminalSwitch_logical function)
    exact clean (by simp) (keeps.linesOk.mpr ok)
  | read fd buf nbytes =>
    refine clean (by simp) ?_
    obtain ⟨v, out, call, rfl⟩ := step_read move
    rcases Kernel.sysRead_done call with ⟨rfl, _⟩ | ⟨_, _, _, k2, driver, rfl⟩
    · exact ok
    · have entry := Kernel.keepsLines_of_sameLines (setFd_quiet k2 k.curPid fd.toNat fun e =>
        { e with filePos := e.filePos + BitVec.ofInt 32 v }).lines
      refine entry.linesOk.mpr ?_
      rcases OpTable.read_done driver with quiet | ⟨_, _, rfl⟩
      · exact (Kernel.keepsLines_of_sameLines quiet.lines).linesOk.mpr ok
      · exact Kernel.clearKeyboardBuf_linesOk ok
  | write fd buf src nbytes =>
    refine clean (by simp) ?_
    obtain ⟨v, call, rfl⟩ := step_write move
    exact (Kernel.keepsLines_of_sameLines (Kernel.sysWrite_frame call).2).linesOk.mpr ok
  | openFile filename =>
    cases move
    exact clean (by simp) ((Kernel.keepsLines_of_sameLines (k.sysOpen_quiet fs filename).lines).linesOk.mpr ok)
  | close fd =>
    cases move
    exact clean (by simp) ((Kernel.keepsLines_of_sameLines (k.sysClose_quiet fd).lines).linesOk.mpr ok)
  | putc c =>
    cases move
    exact clean (by simp) ((Kernel.keepsLines_of_sameLines (k.putc_sameLines c)).linesOk.mpr ok)
  | vidStore off b =>
    cases move
    have keeps : Kernel.KeepsLines k (k.vidStore off b) := fun _ => ⟨rfl, rfl⟩
    exact clean (by simp) (keeps.linesOk.mpr ok)

/-- All line buffers are zeroed. -/
def ZeroedLines (k : Kernel) : Prop := ∀ t, (∀ i, (k.logical t).line i = 0) ∧ (k.logical t).index = 0

instance (k : Kernel) : Decidable (ZeroedLines k) :=
  inferInstanceAs (Decidable (∀ t, (∀ i, (k.logical t).line i = 0) ∧ (k.logical t).index = 0))

theorem ZeroedLines.linesOk {k : Kernel} (zeroed : ZeroedLines k) : k.LinesOk :=
  fun t => (Kernel.cleared_wellFormed (zeroed t).1).mpr (zeroed t).2

/-- From zeroed buffers on, the line buffers are well formed throughout a run
exactly when every halt in it is clean. -/
theorem line_buffers {fs : FsImage} {first k : Kernel} (zeroed : ZeroedLines first)
    {history : List Happening} (run : Runs fs first history k) :
    (∀ e ∈ history, e.post.LinesOk) ↔ ∀ e ∈ history, HaltsClean e.pre e.act :=
  run.invariant_iff_events Kernel.LinesOk HaltsClean zeroed.linesOk
    (fun _ _ _ ok move => step_linesOk ok move)

theorem sampleEntry_zeroed : ZeroedLines sampleEntry := by
  intro t
  constructor
  · intro i
    simp only [Kernel.logical]
    split <;> rfl
  · simp only [Kernel.logical]
    split <;> rfl

/-- On the third terminal a letter is typed and taken back, a program gets one,
another one goes to the first terminal meanwhile, and the program halts with its
terminal shown; then a line is typed to its end and read. -/
def sharedActs : List Act :=
  setUpActs ++ [.key 0x1E, .key 0x0E, .execute shell ⟨0, 0⟩, .key 0x1E, .switchTo 1, .key 0x30, .switchTo 3,
    .halt 0 ⟨0, 0⟩, .key 0x1E, .key 0x1C, .read 0 1 128]

theorem line_buffers_sample : ∃ history k, Runs sampleImage sampleEntry history k ∧ history.length = 14 ∧
    (k.logical 0).index = 1 ∧ ∀ e ∈ history, e.post.LinesOk := by
  have computed : (performAll sampleImage sharedActs ([], sampleEntry)).map (fun r =>
      (r.1.length, (r.2.logical 0).index, decide (∀ e ∈ r.1, HaltsClean e.pre e.act))) = some (14, 1, true) := by
    decide +kernel
  obtain ⟨r, done, values⟩ := Option.map_eq_some_iff.mp computed
  simp only [Prod.mk.injEq, decide_eq_true_eq] at values
  obtain ⟨length, index, clean⟩ := values
  have run : Runs sampleImage sampleEntry r.1 r.2 := performAll_run .start done
  exact ⟨r.1, r.2, run, length, index, (line_buffers sampleEntry_zeroed run).mpr clean⟩

/-- After the set-up a program is started on the third terminal, one letter
typed there, the first terminal shown, and the program halts. -/
def partingActs : List Act :=
  setUpActs ++ [.execute shell ⟨0, 0⟩, .key 0x1E, .switchTo 1, .halt 0 ⟨0, 0⟩]

theorem line_buffers_stale_index : ¬ ∀ (fs : FsImage) (first k : Kernel) (history : List Happening),
    ZeroedLines first → Runs fs first history k → k.LinesOk := by
  intro always
  have computed : (performAll sampleImage partingActs ([], sampleEntry)).map
      (fun s => ((s.2.logical 2).index, (s.2.logical 2).line 0)) = some (1, 0) := by
    decide +kernel
  obtain ⟨s, done, values⟩ := Option.map_eq_some_iff.mp computed
  obtain ⟨index, cell⟩ := Prod.mk.inj values
  have run : Runs sampleImage sampleEntry s.1 s.2 := performAll_run .start done
  have good := always _ _ _ _ sampleEntry_zeroed run 2
  exact good.filled 0 (by rw [index]; decide) cell

end UnixLite
