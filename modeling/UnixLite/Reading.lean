import UnixLite.LineRuns

namespace UnixLite

open Store Transition LineEditor

/-- Where the process of a terminal is in `terminal_read`: not in it, at a
point of the scan loop with interrupts on, or behind the loop and before the
`cli` of the copy. -/
inductive Reader
  | outside
  | scanning (nbytes : Nat)
  | leaving (nbytes : Nat)

/-- The kernel and the reader of each terminal. -/
structure Reading where
  kernel : Kernel
  reader : Fin 3 → Reader

/-- The interrupts, and the steps of `terminal_read` between which they come. -/
inductive ReadAct
  | key (keypress : UInt8)
  | switchTo (function : Nat)
  | tick (regs execRegs : Regs)
  | call (buf : Nat) (nbytes : Word)
  | scan
  | copy

namespace Reading

/-- The reader of the running process moves on. -/
def setReader (s : Reading) (r : Reader) : Reading :=
  { s with reader := Function.update s.reader s.kernel.ta r }

/-- One step; a critical section is one step, an interrupt is one. -/
def perform (fs : FsImage) (s : Reading) : ReadAct → Option Reading
  | .key keypress => some { s with kernel := s.kernel.keyboardHandler keypress }
  | .switchTo function => some { s with kernel := (s.kernel.terminalSwitch function).1 }
  | .tick regs execRegs =>
    (s.kernel.pitHandler fs regs execRegs).outcome.map fun r => { s with kernel := r.1 }
  | .call buf nbytes =>
    match s.reader s.kernel.ta with
    | .outside =>
      if buf = 0 ∨ nbytes.toInt < 0 then some s else some (s.setReader (.scanning nbytes.toInt.toNat))
    | .scanning _ | .leaving _ => none
  | .scan =>
    match s.reader s.kernel.ta with
    | .scanning n => some (if s.kernel.doneTyping then s.setReader (.leaving n) else s)
    | .outside | .leaving _ => none
  | .copy =>
    match s.reader s.kernel.ta with
    | .leaving n => some { s.setReader .outside with kernel := (s.kernel.copyAndClear n).1 }
    | .outside | .scanning _ => none

/-- The bytes that the copy of the running process returns. -/
def copied (s : Reading) : List UInt8 :=
  match s.reader s.kernel.ta with
  | .leaving n => (s.kernel.copyAndClear n).2.2
  | .outside | .scanning _ => []

def Step (fs : FsImage) (s : Reading) (act : ReadAct) (s' : Reading) : Prop :=
  s.perform fs act = some s'

/-- The acts performed one after the other, with the steps recorded. -/
def performAll (fs : FsImage) (acts : List ReadAct) (first : Reading) :
    Option (List (Event Reading ReadAct) × Reading) :=
  replay (fun s act => (s.perform fs act).map fun s' => (act, s')) acts ([], first)

theorem performAll_run {fs : FsImage} {acts : List ReadAct} {first : Reading}
    {result : List (Event Reading ReadAct) × Reading} (done : performAll fs acts first = some result) :
    Run (Step fs) first result.1 result.2 := by
  refine replay_run (fun s act l s' taken => ?_) .start done
  obtain ⟨after, moved, same⟩ := Option.map_eq_some_iff.mp taken
  cases same
  exact moved

end Reading

/-- A step of a run of readers. -/
abbrev ReadEvent := Event Reading ReadAct

/-- The line typed on terminal `t` since it was last read there: the keys that
came while it was shown. -/
def typedLine (t : Fin 3) : List ReadEvent → List UInt8
  | [] => []
  | ⟨s, .key keypress, _⟩ :: past =>
    if s.kernel.ts = t then applyAll 128 10 (keyEdits s.kernel.flags keypress) (typedLine t past)
    else typedLine t past
  | ⟨s, .copy, _⟩ :: past => if s.kernel.ta = t then [] else typedLine t past
  | _ :: past => typedLine t past

/-- What a completed read owes: its bytes begin the line typed on its own
terminal, the lines of the others are left, and it looks at no byte behind the
buffer. -/
structure ReadsOwnLine (past : List ReadEvent) (e : ReadEvent) : Prop where
  own : e.pre.copied <+: typedLine e.pre.kernel.ta past
  others : ∀ t, t ≠ e.pre.kernel.ta → (e.post.kernel.logical t).line = (e.pre.kernel.logical t).line ∧
    (e.post.kernel.logical t).index = (e.pre.kernel.logical t).index
  inside : e.pre.copied.length ≤ 128

/-- At the copy the terminal is still shown and its line still holds a newline
or more characters than were asked for. -/
def LineWaits (s : Reading) : Prop :=
  s.kernel.ts = s.kernel.ta ∧ (scanLine s.kernel.keyboardBuf 128 0 = true ∨
    ∃ n, s.reader s.kernel.ta = .leaving n ∧ n < s.kernel.keyIdx)

section Copy

variable {buf : Nat → UInt8} {index : Nat} {chars : List UInt8}

/-- The scan finds exactly the newlines of the line. -/
theorem scanLine_iff (held : Represents 0 (fun i : Fin 128 => buf i) index chars) {n i : Nat}
    (left : i + n = 128) : scanLine buf n i = true ↔ 10 ∈ chars.drop i := by
  have fits := held.fits
  induction n generalizing i with
  | zero =>
    have past : chars.drop i = [] := List.drop_eq_nil_of_le (by omega)
    simp [scanLine, past]
  | succ n ih =>
    have cell : buf i = (chars[i]?).getD 0 := held.cells ⟨i, by omega⟩
    by_cases inside : i < chars.length
    · have stored : buf i = chars[i] := by simp [cell, inside]
      have visible : chars[i] ≠ 0 := fun zero => held.text (zero ▸ List.getElem_mem inside)
      rw [List.drop_eq_getElem_cons inside, List.mem_cons, scanLine, stored, if_neg visible]
      by_cases enter : chars[i] = 10
      · simp [enter]
      · have rest := ih (show i + 1 + n = 128 by omega)
        simpa only [if_neg enter, Ne.symm enter, false_or] using rest
    · have past : chars.drop i = [] := List.drop_eq_nil_of_le (by omega)
      have blank : buf i = 0 := by simp [cell, List.getElem?_eq_none (Nat.le_of_not_lt inside)]
      simp [scanLine, blank, past]

/-- With a newline ahead, or more characters than asked for, the copy stays
inside the line. -/
theorem copyLine_prefix (held : Represents 0 (fun i : Fin 128 => buf i) index chars) {n i : Nat}
    (ahead : 10 ∈ chars.drop i ∨ i + n < chars.length) : copyLine buf n i <+: chars.drop i := by
  have fits := held.fits
  have inside : i < chars.length := by
    rcases ahead with enter | more
    · by_contra past
      rw [List.drop_eq_nil_of_le (by omega)] at enter
      exact List.not_mem_nil enter
    · omega
  have stored : buf i = chars[i] := held.cell inside (by omega)
  induction n generalizing i with
  | zero =>
    rw [List.drop_eq_getElem_cons inside, copyLine, stored, List.cons_prefix_cons]
    exact ⟨rfl, List.nil_prefix⟩
  | succ n ih =>
    rw [List.drop_eq_getElem_cons inside, copyLine, stored]
    by_cases enter : chars[i] = 10
    · rw [if_neg (by simpa using enter), List.cons_prefix_cons]
      exact ⟨rfl, List.nil_prefix⟩
    · rw [if_pos enter, List.cons_prefix_cons]
      have next : 10 ∈ chars.drop (i + 1) ∨ i + 1 + n < chars.length := by
        rcases ahead with found | more
        · rw [List.drop_eq_getElem_cons inside, List.mem_cons] at found
          exact Or.inl (found.resolve_left (Ne.symm enter))
        · exact Or.inr (by omega)
      have inNext : i + 1 < chars.length := by
        rcases next with found | more
        · by_contra past
          rw [List.drop_eq_nil_of_le (by omega)] at found
          exact List.not_mem_nil found
        · omega
      exact ⟨rfl, ih next inNext (held.cell inNext (by omega))⟩

/-- Without either it runs off the line, and reads a blank or past the buffer. -/
theorem copyLine_overrun (held : Represents 0 (fun i : Fin 128 => buf i) index chars) {n i : Nat}
    (noEnter : 10 ∉ chars.drop i) (before : i ≤ chars.length) (enough : chars.length ≤ i + n) :
    0 ∈ copyLine buf n i ∨ 128 < i + (copyLine buf n i).length := by
  have fits := held.fits
  by_cases inside : i < chars.length
  · obtain ⟨m, rfl⟩ : ∃ m, n = m + 1 := ⟨n - 1, by omega⟩
    have stored : buf i = chars[i] := held.cell inside (by omega)
    rw [List.drop_eq_getElem_cons inside, List.mem_cons, not_or] at noEnter
    have rest := copyLine_overrun held noEnter.2 (by omega) (show chars.length ≤ i + 1 + m by omega)
    rw [copyLine, stored, if_pos (Ne.symm noEnter.1), List.mem_cons, List.length_cons]
    rcases rest with blank | long
    · exact Or.inl (Or.inr blank)
    · exact Or.inr (by omega)
  · have atEnd : i = chars.length := by omega
    have nonempty : ∃ rest, copyLine buf n i = buf i :: rest := by
      cases n with
      | zero => exact ⟨[], rfl⟩
      | succ n =>
        unfold copyLine
        split
        · exact ⟨_, rfl⟩
        · exact ⟨[], rfl⟩
    obtain ⟨rest, shape⟩ := nonempty
    rw [shape]
    by_cases room : i < 128
    · have cell : buf i = (chars[i]?).getD 0 := held.cells ⟨i, room⟩
      have blank : buf i = 0 := by simp [cell, List.getElem?_eq_none (Nat.le_of_not_lt inside)]
      exact Or.inl (by simp [blank])
    · exact Or.inr (by simp only [List.length_cons]; omega)

end Copy

/-- The lines of all terminals are what was typed on them. -/
def LinesTyped (past : List ReadEvent) (s : Reading) : Prop :=
  ∀ t, s.kernel.Holds t (typedLine t past)

theorem Kernel.clearKeyboardBuf_hidden (k : Kernel) {t : Fin 3} (hidden : k.ts ≠ t) :
    (k.clearKeyboardBuf.logical t).line = (k.logical t).line ∧
      (k.clearKeyboardBuf.logical t).index = (k.logical t).index := by
  have sameTs : k.clearKeyboardBuf.ts = k.ts := rfl
  simp only [Kernel.logical, sameTs, if_neg hidden]
  exact ⟨rfl, rfl⟩

/-- The copy of a read whose terminal is not shown. The line that it clears is
the shown terminal's, so that was empty before, and the copy begins with a blank. -/
theorem copy_hidden {past : List ReadEvent} {s s' : Reading} {n : Nat} (typed : LinesTyped past s)
    (hidden : s.kernel.ts ≠ s.kernel.ta) (copied : s.copied = copyLine s.kernel.keyboardBuf n 0)
    (cleared : s'.kernel = s.kernel.clearKeyboardBuf) : ¬ ReadsOwnLine past ⟨s, .copy, s'⟩ := by
  rintro ⟨own, others, _⟩
  have same := (others s.kernel.ts hidden).1
  rw [cleared] at same
  have first : s.kernel.keyboardBuf 0 = 0 := by
    have before : (s.kernel.logical s.kernel.ts).line 0 = s.kernel.keyboardBuf 0 := by
      simp [Kernel.logical]
    have after : (s.kernel.clearKeyboardBuf.logical s.kernel.ts).line 0 = 0 := by
      simp [Kernel.logical, Kernel.clearKeyboardBuf, fillLoop_apply]
    exact before.symm.trans ((congrFun same 0).symm.trans after)
  have blank : 0 ∈ copyLine s.kernel.keyboardBuf n 0 := by
    cases n with
    | zero => simp [copyLine, first]
    | succ n => simp [copyLine, first]
  rw [copied] at own
  exact absurd (own.subset blank) (typed s.kernel.ta).text

/-- A copy from the terminal's own waiting line is a good one, and no other is. -/
theorem copy_good_iff {past : List ReadEvent} {s s' : Reading} {n : Nat} (typed : LinesTyped past s)
    (reader : s.reader s.kernel.ta = .leaving n)
    (after : s' = { s.setReader .outside with kernel := (s.kernel.copyAndClear n).1 }) :
    ReadsOwnLine past ⟨s, .copy, s'⟩ ↔ LineWaits s := by
  subst after
  have copied : s.copied = copyLine s.kernel.keyboardBuf n 0 := by
    simp only [Reading.copied, reader, Kernel.copyAndClear]
  by_cases shown : s.kernel.ts = s.kernel.ta
  · have line := (Kernel.holds_shown shown _).mp (typed s.kernel.ta)
    have index := line.index
    have scans := scanLine_iff line (show 0 + 128 = 128 from rfl)
    rw [List.drop_zero] at scans
    have others (t : Fin 3) (other : t ≠ s.kernel.ta) :=
      s.kernel.clearKeyboardBuf_hidden fun eq => other (eq.symm.trans shown)
    constructor
    · rintro ⟨own, _, inside⟩
      refine ⟨shown, ?_⟩
      by_contra gone
      rw [not_or, scans] at gone
      obtain ⟨noEnter, few⟩ := gone
      have enough : (typedLine s.kernel.ta past).length ≤ 0 + n := by
        by_contra more
        exact few ⟨n, reader, by omega⟩
      rw [copied] at own inside
      rcases copyLine_overrun line (by simpa using noEnter) (Nat.zero_le _) enough with blank | long
      · exact line.text (own.subset blank)
      · omega
    · rintro ⟨_, waits⟩
      have ahead : 10 ∈ (typedLine s.kernel.ta past).drop 0 ∨
          0 + n < (typedLine s.kernel.ta past).length := by
        rcases waits with found | ⟨m, same, more⟩
        · exact Or.inl (by simpa using scans.mp found)
        · rw [reader] at same
          cases same
          exact Or.inr (by omega)
      have own := copyLine_prefix line ahead
      rw [List.drop_zero] at own
      have fits := line.fits
      refine ⟨copied ▸ own, others, ?_⟩
      rw [copied]
      exact own.length_le.trans fits
  · exact iff_of_false (copy_hidden typed shown copied rfl) fun waits => shown waits.1

/-- Apart from the copies every step keeps the lines what was typed. -/
theorem LinesTyped.step {fs : FsImage} {past : List ReadEvent} {s s' : Reading} {act : ReadAct}
    (typed : LinesTyped past s) (move : s.Step fs act s') (allowed : act = .copy → LineWaits s) :
    LinesTyped (⟨s, act, s'⟩ :: past) s' := by
  unfold Reading.Step at move
  cases act with
  | key keypress =>
    cases move
    intro t
    have held := Kernel.keyboardHandler_holds keypress (typed t)
    simpa only [typedLine, eq_comm] using held
  | switchTo function =>
    cases move
    have keeps := Kernel.keepsLines_of_logical (s.kernel.terminalSwitch_logical function)
    exact fun t => (keeps.holds t _).mpr (typed t)
  | tick regs execRegs =>
    obtain ⟨⟨k, r⟩, run, rfl⟩ := Option.map_eq_some_iff.mp move
    exact fun t => ((Kernel.pitHandler_keepsLines run).holds t _).mpr (typed t)
  | call buf nbytes =>
    simp only [Reading.perform] at move
    split at move
    · split at move <;> cases move <;> exact typed
    · cases move
    · cases move
  | scan =>
    simp only [Reading.perform] at move
    split at move
    · cases move
      split <;> exact typed
    · cases move
    · cases move
  | copy =>
    obtain ⟨shown, _⟩ := allowed rfl
    simp only [Reading.perform] at move
    split at move
    · cases move
      intro t
      have held := s.kernel.clearKeyboardBuf_typed.holds (typed t)
      simp only [typedLine]
      by_cases here : s.kernel.ta = t
      · have isShown : t = s.kernel.ts := here.symm.trans shown.symm
        rw [if_pos isShown] at held
        rw [if_pos here]
        exact held
      · have notShown : t ≠ s.kernel.ts := fun eq => here (shown.symm.trans eq.symm)
        rw [if_neg notShown] at held
        rw [if_neg here]
        exact held
    · cases move
    · cases move

/-- From zeroed buffers on, every read that returns gives what was typed on its
own terminal exactly when at each copy the line the scan has found is still there. -/
theorem reads_own_line {fs : FsImage} {first s : Reading} (zeroed : ZeroedLines first.kernel)
    {history : List ReadEvent} (run : Run (Reading.Step fs) first history s) :
    (∀ past e, (e :: past) <:+ history → e.act = .copy → ReadsOwnLine past e) ↔
      ∀ e ∈ history, e.act = .copy → LineWaits e.pre := by
  refine run.good_iff_allowed LinesTyped (fun past e => e.act = .copy → ReadsOwnLine past e)
    (fun s act => act = .copy → LineWaits s) ?_ ?_
  · intro t
    obtain ⟨cells, index⟩ := zeroed t
    rw [Kernel.Holds, index]
    exact Represents.empty cells
  · intro past s act s' typed move
    refine ⟨?_, typed.step move⟩
    refine forall_congr' fun copies => ?_
    subst copies
    simp only [Reading.Step, Reading.perform] at move
    split at move
    · rename_i n reader
      exact copy_good_iff typed reader (Option.some.inj move).symm
    · cases move
    · cases move

/-- What the latest step of a run copied, and what was typed there. -/
def lastCopy : List ReadEvent → Option (List UInt8 × List UInt8)
  | ⟨s, .copy, _⟩ :: past => some (s.copied, typedLine s.kernel.ta past)
  | _ => none

theorem lastCopy_some {history : List ReadEvent} {out typed : List UInt8}
    (last : lastCopy history = some (out, typed)) : ∃ e past, history = e :: past ∧ e.act = .copy ∧
      e.pre.copied = out ∧ typedLine e.pre.kernel.ta past = typed := by
  unfold lastCopy at last
  split at last
  · rename_i s s' past
    cases last
    exact ⟨_, past, rfl, rfl, rfl, rfl⟩
  · cases last

/-- A copy finds its terminal shown and a newline in the line. -/
def findsNewline (e : ReadEvent) : Bool :=
  match e.act with
  | .copy => decide (e.pre.kernel.ts = e.pre.kernel.ta ∧ scanLine e.pre.kernel.keyboardBuf 128 0 = true)
  | _ => true

/-- Enter is typed on the first terminal and read there. -/
theorem reads_own_line_enter : ∃ e past, e.pre.copied = [10] ∧ ReadsOwnLine past e := by
  have computed : (Reading.performAll sampleImage [.call 1 4, .key 0x1C, .scan, .copy]
      ⟨sampleEntry, fun _ => .outside⟩).map (fun r => (lastCopy r.1, r.1.all findsNewline)) =
      some (some ([10], [10]), true) := by
    decide +kernel
  obtain ⟨r, done, values⟩ := Option.map_eq_some_iff.mp computed
  obtain ⟨last, all⟩ := Prod.mk.inj values
  obtain ⟨e, past, history, copies, copied, _⟩ := lastCopy_some last
  have waiting : ∀ e ∈ r.1, e.act = .copy → LineWaits e.pre := by
    intro e member copy
    have checked := List.all_eq_true.mp all e member
    rw [findsNewline, copy] at checked
    obtain ⟨shown, found⟩ := of_decide_eq_true checked
    exact ⟨shown, Or.inl found⟩
  have run := Reading.performAll_run done
  have good := (reads_own_line (by exact sampleEntry_zeroed) run).mpr waiting
  exact ⟨e, past, copied, good past e (history ▸ List.suffix_rfl) copies⟩

/-- A read on the first terminal finds its newline, the second terminal is
shown, and the copy follows. -/
def strayActs : List ReadAct := [.call 1 4, .key 0x1C, .scan, .switchTo 2, .copy]

theorem reads_other_line : ¬ ∀ (fs : FsImage) (first s : Reading) (history : List ReadEvent),
    ZeroedLines first.kernel → (∀ t, first.reader t = .outside) →
    Run (Reading.Step fs) first history s →
    ∀ past e, (e :: past) <:+ history → e.act = .copy → ReadsOwnLine past e := by
  intro always
  have computed : (performAll sampleImage (setUpActs ++ [.tick ⟨0, 0⟩ ⟨0, 0⟩]) ([], sampleEntry)).map
      (fun b => (decide (ZeroedLines b.2),
        (Reading.performAll sampleImage strayActs ⟨b.2, fun _ => .outside⟩).map fun r => lastCopy r.1)) =
      some (true, some (some ([0, 0, 0, 0, 0], [10]))) := by
    decide +kernel
  obtain ⟨b, _, values⟩ := Option.map_eq_some_iff.mp computed
  obtain ⟨zero, replayed⟩ := Prod.mk.inj values
  obtain ⟨r, done, last⟩ := Option.map_eq_some_iff.mp replayed
  obtain ⟨e, past, history, copies, copied, typed⟩ := lastCopy_some last
  have run := Reading.performAll_run done
  have good := always _ _ _ _ (of_decide_eq_true zero) (fun _ => rfl) run past e
    (history ▸ List.suffix_rfl) copies
  have own := good.own
  rw [copied, typed] at own
  revert own
  decide

end UnixLite
