import UnixLite.System

namespace UnixLite

open Store

namespace Kernel

theorem putc_ttyOnly (k : Kernel) (c : UInt8) : TtyOnly k (k.putc c) :=
  k.setConsole_ttyOnly _ _

theorem putc_sameLines (k : Kernel) (c : UInt8) : SameLines k (k.putc c) :=
  k.setConsole_sameLines _ _

theorem mapVideo_ttyOnly (k : Kernel) : TtyOnly k k.mapVideo := by
  unfold mapVideo
  split <;> constructor <;> intros <;> rfl

theorem clearKeyboardBuf_ttyOnly (k : Kernel) : TtyOnly k k.clearKeyboardBuf := by
  constructor <;> intros <;> rfl

theorem clearKeyboardBuf_sameVideo (k : Kernel) : SameVideo k k.clearKeyboardBuf := by
  constructor <;> intros <;> rfl

theorem writeKey_ttyOnly {k k' : Kernel} {c : UInt8} (written : k.writeKey c = some k') :
    TtyOnly k k' := by
  obtain ⟨r, _, rfl⟩ := Option.map_eq_some_iff.mp written
  constructor <;> intros <;> rfl

theorem writeKey_sameVideo {k k' : Kernel} {c : UInt8} (written : k.writeKey c = some k') :
    SameVideo k k' := by
  obtain ⟨r, _, rfl⟩ := Option.map_eq_some_iff.mp written
  constructor <;> intros <;> rfl

theorem deleteKey_ttyOnly {k k' : Kernel} (deleted : k.deleteKey = some k') :
    TtyOnly k k' := by
  obtain ⟨r, _, rfl⟩ := Option.map_eq_some_iff.mp deleted
  constructor <;> intros <;> rfl

theorem deleteKey_sameVideo {k k' : Kernel} (deleted : k.deleteKey = some k') :
    SameVideo k k' := by
  obtain ⟨r, _, rfl⟩ := Option.map_eq_some_iff.mp deleted
  constructor <;> intros <;> rfl

theorem swapLines_ttyOnly (k : Kernel) (t : Fin 3) : TtyOnly k (k.swapLines t) := by
  constructor <;> intros <;> try rfl
  rename_i u
  by_cases same : u = k.ts <;> simp [swapLines, setTerm, same]

theorem terminalSwitch_ttyOnly (k : Kernel) (function : Nat) :
    TtyOnly k (k.terminalSwitch function).1 := by
  unfold terminalSwitch
  extract_lets shown
  split
  · exact TtyOnly.refl k
  · have swapped : TtyOnly k (k.showTerminal shown) := by
      refine (k.swapLines_ttyOnly shown).trans ?_
      constructor <;> intros <;> rfl
    dsimp only
    split
    · exact swapped.trans (mapVideo_ttyOnly _)
    · exact swapped

theorem tabLoop_ttyOnly (n : Nat) (k : Kernel) : TtyOnly k (tabLoop n k) := by
  induction n generalizing k with
  | zero => exact TtyOnly.refl k
  | succ n ih =>
    unfold tabLoop
    split
    · exact TtyOnly.refl k
    · rename_i k' written
      exact ((writeKey_ttyOnly written).trans (k'.setConsole_ttyOnly _ _)).trans (ih _)

theorem ctrlHelper_ttyOnly (k : Kernel) (c : UInt8) : TtyOnly k (k.ctrlHelper c) := by
  unfold ctrlHelper
  split
  · exact (k.setConsole_ttyOnly _ _).trans (clearKeyboardBuf_ttyOnly _)
  · split
    · exact TtyOnly.refl k
    · refine TtyOnly.trans ?_ (setConsole_ttyOnly _ _ _)
      cases written : k.writeKey c with
      | none => exact TtyOnly.refl k
      | some k' => exact writeKey_ttyOnly written

/-- No key reaches the processes. -/
theorem keyboardHandler_ttyOnly (k : Kernel) (keypress : UInt8) :
    TtyOnly k (k.keyboardHandler keypress) := by
  unfold keyboardHandler
  extract_lets ascii k1
  have start : TtyOnly k k1 := by constructor <;> intros <;> rfl
  refine start.trans ?_
  split
  · exact ctrlHelper_ttyOnly k1 ascii
  split
  · split
    · exact TtyOnly.refl k1
    · rename_i k2 written
      refine (writeKey_ttyOnly written).trans ?_
      split
      · exact (k2.setConsole_ttyOnly _ _).trans (setConsole_ttyOnly _ _ _)
      · exact k2.setConsole_ttyOnly _ _
  split
  · split
    · exact TtyOnly.refl k1
    · rename_i k2 deleted
      exact ((deleteKey_ttyOnly deleted).trans (k2.setConsole_ttyOnly _ _)).trans
        (setConsole_ttyOnly _ _ _)
  split
  · exact tabLoop_ttyOnly 4 k1
  split
  · unfold altHelper
    split
    · exact TtyOnly.refl k1
    · exact k1.terminalSwitch_ttyOnly _
  · exact TtyOnly.refl k1

theorem rtcOpen_quiet (k : Kernel) : Quiet k k.rtcOpen := by
  constructor <;> constructor <;> intros <;> rfl

theorem rtcWrite_quiet (k : Kernel) (src : Nat → UInt8) : Quiet k (k.rtcWrite src).1 := by
  unfold rtcWrite
  extract_lets freq
  split
  · exact Quiet.refl k
  · constructor <;> constructor <;> intros <;> rfl

theorem rtcRead_quiet (k : Kernel) : Quiet k k.rtcRead.1 := by
  constructor <;> constructor <;> intros <;> rfl

theorem dirRead_quiet (fs : FsImage) (k : Kernel) : Quiet k (k.dirRead fs).1 := by
  unfold dirRead
  split
  · exact Quiet.refl k
  · constructor <;> constructor <;> intros <;> rfl

/-- Console output of any length reaches only the screen and the cursor. -/
theorem putLoop_frame (idxs : List Nat) (src : Nat → UInt8) (k : Kernel) :
    TtyOnly k (idxs.foldl (fun k idx => k.putc (src idx)) k) ∧
      SameLines k (idxs.foldl (fun k idx => k.putc (src idx)) k) := by
  induction idxs generalizing k with
  | nil => exact ⟨TtyOnly.refl k, SameLines.refl k⟩
  | cons idx rest ih =>
    have after := ih (k.putc (src idx))
    exact ⟨(k.putc_ttyOnly _).trans after.1, (k.putc_sameLines _).trans after.2⟩

theorem terminalWrite_frame (k : Kernel) (buf : Nat) (src : Nat → UInt8) (nbytes : Word) :
    TtyOnly k (k.terminalWrite buf src nbytes).1 ∧
      SameLines k (k.terminalWrite buf src nbytes).1 := by
  unfold terminalWrite
  split
  · exact ⟨TtyOnly.refl k, SameLines.refl k⟩
  · exact putLoop_frame _ src k

end Kernel

/-- A driver's read that returns: all but the terminal's leave everything but
their own variables alone, and the terminal's clears the shown line at most. -/
theorem OpTable.read_done {op : OpTable} {fs : FsImage} {k k' : Kernel} {fd : Fd}
    {buf : Nat} {nbytes : Word} {v : Int} {out : List UInt8}
    (run : op.read fs k fd buf nbytes = .done (k', v, out)) :
    Quiet k k' ∨ (op = .stdinOpt ∧ k.doneTyping = true ∧ k' = k.clearKeyboardBuf) := by
  cases op with
  | stdinOpt =>
    simp only [OpTable.read, Kernel.terminalRead] at run
    split at run
    · cases run
      exact Or.inl (Quiet.refl k)
    · split at run
      · rename_i done
        cases run
        exact Or.inr ⟨rfl, done, rfl⟩
      · simp at run
  | fileOpt =>
    simp only [OpTable.read, Outcome.done.injEq, Prod.mk.injEq] at run
    exact Or.inl (run.1 ▸ Quiet.refl k)
  | dirOpt =>
    have frame := k.dirRead_quiet fs
    simp only [OpTable.read, Outcome.done.injEq] at run
    exact Or.inl (by simpa only [run] using frame)
  | rtcOpt =>
    cases run
    exact Or.inl k.rtcRead_quiet
  | stdoutOpt | nullOpt =>
    cases run
    exact Or.inl (Quiet.refl k)
  | nullPtr => cases run

/-- A driver's write that returns: only the terminal's puts anything on a screen. -/
theorem OpTable.write_done {op : OpTable} {k k' : Kernel} {buf : Nat} {src : Nat → UInt8}
    {nbytes : Word} {v : Int} (run : op.write k buf src nbytes = .done (k', v)) :
    Quiet k k' ∨ (op = .stdoutOpt ∧ k' = (k.terminalWrite buf src nbytes).1) := by
  cases op with
  | stdoutOpt =>
    simp only [OpTable.write, Outcome.done.injEq] at run
    exact Or.inr ⟨rfl, by rw [run]⟩
  | rtcOpt =>
    have frame := k.rtcWrite_quiet src
    simp only [OpTable.write, Outcome.done.injEq] at run
    exact Or.inl (by simpa only [run] using frame)
  | nullPtr => cases run
  | stdinOpt | fileOpt | dirOpt | nullOpt =>
    cases run
    exact Or.inl (Quiet.refl k)

theorem OpTable.close_quiet (op : OpTable) (k : Kernel) : Quiet k (op.close k) := by
  cases op <;> constructor <;> constructor <;> intros <;> rfl

namespace Kernel

/-- A read that returns either is refused, and then nothing happens, or goes
through an open entry of the table, whose position moves by the result. -/
theorem sysRead_done {fs : FsImage} {k k' : Kernel} {fd : Int} {buf : Nat} {nbytes : Word}
    {v : Int} {out : List UInt8} (run : k.sysRead fs fd buf nbytes = .done (k', v, out)) :
    (k' = k ∧ v = -1 ∧ out = [] ∧
      (fd < 0 ∨ 8 ≤ fd ∨ (k.curPcb.fileDescriptorTable fd.toNat).flags = 0)) ∨
    (0 ≤ fd ∧ fd < 8 ∧ (k.curPcb.fileDescriptorTable fd.toNat).flags ≠ 0 ∧
      ∃ k1, (k.curPcb.fileDescriptorTable fd.toNat).fileOpTablePtr.read fs k
          (k.curPcb.fileDescriptorTable fd.toNat) buf nbytes = .done (k1, v, out) ∧
        k' = k1.setFd k.curPid fd.toNat fun e =>
          { e with filePos := e.filePos + BitVec.ofInt 32 v }) := by
  unfold sysRead at run
  split at run
  · cases run
    exact Or.inl ⟨rfl, rfl, rfl, by omega⟩
  split at run
  · split at run <;> cases run
    exact Or.inl ⟨rfl, rfl, rfl, by omega⟩
  dsimp only at run
  split at run
  · rename_i unused
    cases run
    exact Or.inl ⟨rfl, rfl, rfl, Or.inr (Or.inr unused)⟩
  · rename_i used
    split at run <;> cases run
    rename_i driver
    exact Or.inr ⟨by omega, by omega, used, _, driver, rfl⟩

theorem sysWrite_done {k k' : Kernel} {fd : Int} {buf : Nat} {src : Nat → UInt8} {nbytes : Word}
    {v : Int} (run : k.sysWrite fd buf src nbytes = .done (k', v)) :
    (k' = k ∧ v = -1) ∨
    (0 ≤ fd ∧ fd < 8 ∧ (k.curPcb.fileDescriptorTable fd.toNat).flags ≠ 0 ∧
      (k.curPcb.fileDescriptorTable fd.toNat).fileOpTablePtr.write k buf src nbytes =
        .done (k', v)) := by
  unfold sysWrite at run
  split at run
  · cases run
    exact Or.inl ⟨rfl, rfl⟩
  split at run
  · split at run <;> cases run
    exact Or.inl ⟨rfl, rfl⟩
  dsimp only at run
  split at run
  · cases run
    exact Or.inl ⟨rfl, rfl⟩
  · rename_i used
    exact Or.inr ⟨by omega, by omega, used, run⟩

theorem sysRead_frame {fs : FsImage} {k k' : Kernel} {fd : Int} {buf : Nat} {nbytes : Word}
    {v : Int} {out : List UInt8} (run : k.sysRead fs fd buf nbytes = .done (k', v, out)) :
    SameProcesses k k' ∧ SameVideo k k' := by
  rcases sysRead_done run with ⟨rfl, _⟩ | ⟨_, _, _, k1, driver, rfl⟩
  · exact ⟨SameProcesses.refl _, SameVideo.refl _⟩
  · have entry := setFd_quiet k1 k.curPid fd.toNat fun e =>
      { e with filePos := e.filePos + BitVec.ofInt 32 v }
    rcases OpTable.read_done driver with quiet | ⟨_, _, rfl⟩
    · have whole := quiet.trans entry
      exact ⟨whole.processes, whole.video⟩
    · exact ⟨k.clearKeyboardBuf_ttyOnly.processes.trans entry.processes,
        k.clearKeyboardBuf_sameVideo.trans entry.video⟩

/-- A write that returns has put characters on the screen or touches no terminal. -/
theorem sysWrite_puts {k k' : Kernel} {fd : Int} {buf : Nat} {src : Nat → UInt8} {nbytes : Word}
    {v : Int} (run : k.sysWrite fd buf src nbytes = .done (k', v)) :
    Quiet k k' ∨ ∃ idxs : List Nat, k' = idxs.foldl (fun k idx => k.putc (src idx)) k := by
  rcases sysWrite_done run with ⟨rfl, _⟩ | ⟨_, _, _, driver⟩
  · exact Or.inl (Quiet.refl _)
  · rcases OpTable.write_done driver with quiet | ⟨_, rfl⟩
    · exact Or.inl quiet
    · unfold terminalWrite
      split
      · exact Or.inl (Quiet.refl k)
      · exact Or.inr ⟨_, rfl⟩

theorem sysWrite_frame {k k' : Kernel} {fd : Int} {buf : Nat} {src : Nat → UInt8} {nbytes : Word}
    {v : Int} (run : k.sysWrite fd buf src nbytes = .done (k', v)) :
    SameProcesses k k' ∧ SameLines k k' := by
  rcases sysWrite_puts run with quiet | ⟨idxs, rfl⟩
  · exact ⟨quiet.processes, quiet.lines⟩
  · have frame := putLoop_frame idxs src k
    exact ⟨frame.1.processes, frame.2⟩

theorem sysOpen_quiet (fs : FsImage) (k : Kernel) (filename : List UInt8) :
    Quiet k (k.sysOpen fs filename).1 := by
  unfold sysOpen
  split
  · exact Quiet.refl k
  rename_i fileDentry _
  extract_lets fd
  split
  · exact Quiet.refl k
  split
  · exact Quiet.refl k
  · rename_i op _
    have opened := setFd_quiet k k.curPid fd fun _ => ⟨op, fileDentry.inodeNum, 0, 1⟩
    dsimp only
    split
    · exact opened.trans (rtcOpen_quiet _)
    · exact opened

theorem sysClose_quiet (k : Kernel) (fd : Int) : Quiet k (k.sysClose fd).1 := by
  unfold sysClose
  split
  · exact Quiet.refl k
  extract_lets curFd
  split
  · exact Quiet.refl k
  · have hook := curFd.fileOpTablePtr.close_quiet k
    exact hook.trans (setFd_quiet (curFd.fileOpTablePtr.close k) k.curPid fd.toNat fun _ => closedFd)

end Kernel

end UnixLite
