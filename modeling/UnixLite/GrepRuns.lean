import UnixLite.GrepLines
import UnixLite.Ls

namespace UnixLite

open Transition Store Loops

/-- The arrays of ece391grep.c and its literals. -/
structure GrepAddresses extends Addresses where
  data : Nat
  data_ne : data ≠ 0

/-- Where `do_one_file` is in a call, with the variables that it still uses.
`printing` holds the strings of a line that are still to be written. -/
inductive Search
  | opening
  | openFailed
  | reading (fd : Int) (data : Nat → UInt8) (last : Nat)
  | readFailed
  | printing (fd : Int) (texts : List (Nat × (Nat → UInt8))) (data : Nat → UInt8) (last lineEnd : Nat) (cnt : Int)
  | closing (fd : Int)
  | closeFailed

namespace Search

def openFailedText : List UInt8 := ascii "file open failed\n"

def readFailedText : List UInt8 := ascii "file read failed\n"

def closeFailedText : List UInt8 := ascii "file close failed\n"

def ask (a : GrepAddresses) (fname : Nat → UInt8) : Search → Option SysCall
  | opening => some (.openFile (stringAt fname))
  | openFailed => some (fdputs 1 a.text (cString openFailedText))
  | reading fd _ last => some (.read fd (a.data + last) (BitVec.ofInt 32 (1024 - last)))
  | readFailed => some (fdputs 1 a.text (cString readFailedText))
  | printing _ texts _ _ _ _ => texts.head?.map fun t => fdputs 1 t.1 t.2
  | closing fd => some (.close fd)
  | closeFailed => some (fdputs 1 a.text (cString closeFailedText))

/-- What is written for a line that matches. -/
def pieces (a : GrepAddresses) (fname data : Nat → UInt8) (lineStart : Nat) : List (Nat × (Nat → UInt8)) :=
  [(a.buf, fname), (a.text, cString [58]), (a.data + lineStart, fun i => data (lineStart + i)), (a.text, cString [10])]

/-- The inner loop from the line at `line_start` on, up to the next call. Each
round is at least one byte ahead, so the rounds do not run out. -/
def scan (a : GrepAddresses) (s fname : Nat → UInt8) (fd : Int) : Nat → (Nat → UInt8) → Nat → Nat → Int → Search
  | 0, _, _, _, _ => closing fd
  | rounds + 1, data, last, lineStart, cnt =>
    let lineEnd := Grep.findEnd data last (last - lineStart) lineStart
    if data lineEnd ≠ 10 ∧ cnt ≠ 0 ∧ lineStart ≠ 0 then
      reading fd (ece391Strcpy (Function.update data lineEnd 0) 0 lineStart) (last - lineStart)
    else
      let data := Function.update data lineEnd 0
      if (List.range' lineStart (lineEnd - lineStart)).any (Grep.matchesAt s data) then
        printing fd (pieces a fname data lineStart) data last lineEnd cnt
      else if last ≤ lineEnd + 1 then
        if cnt = 0 then closing fd else reading fd data 0
      else scan a s fname fd rounds data last (lineEnd + 1) cnt

/-- Behind the line that ends at `line_end`. -/
def behind (a : GrepAddresses) (s fname : Nat → UInt8) (fd : Int) (data : Nat → UInt8) (last lineEnd : Nat)
    (cnt : Int) : Search :=
  if last ≤ lineEnd + 1 then
    if cnt = 0 then closing fd else reading fd data 0
  else scan a s fname fd (last - lineEnd) data last (lineEnd + 1) cnt

/-- On with the answer to a call, or back with a value. `junk` is what the
array holds at first. -/
def take (a : GrepAddresses) (s fname junk : Nat → UInt8) : Search → Answer → Search ⊕ Int
  | opening, r => if r.1 = -1 then .inl openFailed else .inl (reading r.1 junk 0)
  | openFailed, _ => .inr (-1)
  | reading fd data last, r =>
    if r.1 = -1 then .inl readFailed
    else .inl (scan a s fname fd (last + r.1.toNat + 1) (storeList data last r.2) (last + r.1.toNat) 0 r.1)
  | readFailed, _ => .inr (-1)
  | printing fd texts data last lineEnd cnt, _ =>
    match texts.tail with
    | [] => .inl (behind a s fname fd data last lineEnd cnt)
    | rest => .inl (printing fd rest data last lineEnd cnt)
  | closing _, r => if r.1 = -1 then .inl closeFailed else .inr 0
  | closeFailed, _ => .inr (-1)

end Search

/-- Where `main` of ece391grep.c is; `n` files have been searched. -/
inductive GrepMain
  | start (search buf : Nat → UInt8)
  | noArgument
  | opening (search buf : Nat → UInt8)
  | openFailed
  | reading (fd : Int) (n : Nat) (search buf : Nat → UInt8)
  | readFailed
  | searching (fd : Int) (n : Nat) (search buf : Nat → UInt8) (file : Search)
  | returned (v : Int)

namespace GrepMain

def noArgumentText : List UInt8 := ascii "could not read argument\n"

def ask (a : GrepAddresses) : GrepMain → Option SysCall
  | start _ _ => some (.getargs 1024)
  | noArgument => some (fdputs 1 a.text (cString noArgumentText))
  | opening _ _ => some (.openFile Ls.dot)
  | openFailed => some (fdputs 1 a.text (cString Ls.openFailedText))
  | reading fd _ _ _ => some (.read fd a.buf 32)
  | readFailed => some (fdputs 1 a.text (cString Ls.readFailedText))
  | searching _ _ _ buf file => file.ask a buf
  | returned _ => none

/-- A name that begins with a dot is passed over. `junk n` is what the array
of the file holds that is searched as number `n`. -/
def take (a : GrepAddresses) (junk : Nat → Nat → UInt8) : GrepMain → Answer → GrepMain
  | start search buf, r => if r.1 ≠ 0 then noArgument else opening (storeList search 0 r.2) buf
  | noArgument, _ => returned 3
  | opening search buf, r => if r.1 = -1 then openFailed else reading r.1 0 search buf
  | openFailed, _ => returned 2
  | reading fd n search buf, r =>
    if r.1 = 0 then returned 0
    else if r.1 = -1 then readFailed
    else if storeList buf 0 r.2 0 = 46 then reading fd n search (storeList buf 0 r.2)
    else searching fd n search (Function.update (storeList buf 0 r.2) r.1.toNat 0) .opening
  | readFailed, _ => returned 3
  | searching fd n search buf file, r =>
    match file.take a search buf (junk n) r with
    | .inl file => searching fd n search buf file
    | .inr v => if v ≠ 0 then returned 3 else reading fd (n + 1) search buf
  | returned v, _ => returned v

def result : GrepMain → Option Int
  | returned v => some v
  | _ => none

end GrepMain

namespace Grep

/-- What has been written when a round is over. -/
def written : (Grep × Option (Nat × Nat)) ⊕ Grep → List UInt8
  | .inl next => next.1.out
  | .inr g => g.out

theorem leave_written (cnt : Nat) (g : Grep) : written (leave cnt g) = g.out := by
  unfold leave
  split
  · rfl
  · rfl

/-- Nothing that has been written is taken back. -/
theorem body_written (s fname : Nat → UInt8) (state : Grep × Option (Nat × Nat)) :
    state.1.out <+: written (body s fname state) := by
  obtain ⟨g, phase⟩ := state
  have searched (lineStart lineEnd : Nat) (data : Nat → UInt8) :
      g.out <+: (search s fname lineStart lineEnd { g with data := data }).out := by
    unfold search
    split
    · simp only [List.append_assoc]
      exact List.prefix_append _ _
    · exact List.prefix_refl _
  cases phase with
  | none => exact List.prefix_refl _
  | some place =>
    obtain ⟨lineStart, cnt⟩ := place
    unfold body
    dsimp only
    split
    · rw [leave_written]
    · split
      · rw [leave_written]
        exact searched _ _ _
      · exact searched _ _ _

theorem out_prefix {s fname : Nat → UInt8} {state : Grep × Option (Nat × Nat)} {r : Grep}
    (ends : Ends (body s fname) state r) : state.1.out <+: r.out := by
  refine ends.keeps (fun next => state.1.out <+: next.1.out) (fun r => state.1.out <+: r.out) (List.prefix_refl _) ?_ ?_
  · intro next next' before goes
    have step := body_written s fname next
    rw [goes] at step
    exact before.trans step
  · intro next r before leaves
    have step := body_written s fname next
    rw [leaves] at step
    exact before.trans step

theorem comes_prefix {s fname : Nat → UInt8} {x : (Grep × Option (Nat × Nat)) ⊕ Grep} {r : Grep}
    (comes : Comes (body s fname) x r) : written x <+: r.out := by
  cases x with
  | inl state => exact out_prefix comes
  | inr g =>
    have same : g = r := comes
    rw [same]
    exact List.prefix_refl _

theorem findEnd_ge {data : Nat → UInt8} {last fuel lineEnd : Nat} : lineEnd ≤ findEnd data last fuel lineEnd := by
  induction fuel generalizing lineEnd with
  | zero => exact Nat.le_refl _
  | succ fuel ih =>
    unfold findEnd
    split
    · exact (Nat.le_succ lineEnd).trans ih
    · exact Nat.le_refl _

theorem findEnd_le {data : Nat → UInt8} {last fuel lineEnd : Nat} :
    findEnd data last fuel lineEnd ≤ max last lineEnd := by
  induction fuel generalizing lineEnd with
  | zero => exact Nat.le_max_right _ _
  | succ fuel ih =>
    unfold findEnd
    split
    · have rest := @ih (lineEnd + 1)
      omega
    · exact Nat.le_max_right _ _

end Grep

/-- What reads give of an entry. The clock has nothing to read. -/
def fileText (fs : FsImage) (d : Dentry) : List UInt8 := if d.fileType = 2 then fs.contents d.inodeNum else []

/-- A descriptor from which these bytes are still to come. -/
inductive Supplies (fs : FsImage) (d : Dentry) (e : Fd) (left : List UInt8) : Prop
  | file {pos} : d.fileType = 2 → OpenOn fs d e pos → left = (fs.contents d.inodeNum).drop pos → Supplies fs d e left
  | clock : d.fileType = 0 → e.fileOpTablePtr = .rtcOpt → e.flags ≠ 0 → left = [] → Supplies fs d e left

section Supply

variable {fs : FsImage} {p : Int} {k k' : Kernel} {a : Answer} {d : Dentry} {left : List UInt8}

theorem Supplies.inUse {e : Fd} (supplies : Supplies fs d e left) : e.flags ≠ 0 ∧ e.fileOpTablePtr ≠ .dirOpt := by
  cases supplies with
  | file _ opened =>
    refine ⟨opened.used, ?_⟩
    rw [opened.table]
    decide
  | clock _ table used =>
    refine ⟨used, ?_⟩
    rw [table]
    decide

/-- A read takes what is asked for, as far as there is that much. -/
theorem Supplies.read {fd buf : Nat} {n : Word} {name : Nat → UInt8} (supplies : Supplies fs d (k.entry p fd) left)
    (ok : FilesOk fs) (found : readDentryByName fs name = some d) (slot : fd < 8) (count : 0 ≤ n.toInt)
    (served : Serves fs p k (.read fd buf n) a k') :
    a.2 = left.take n.toNat ∧ a.1 = a.2.length ∧ (∀ i, i ≠ fd → k'.entry p i = k.entry p i) ∧
      Supplies fs d (k'.entry p fd) (left.drop n.toNat) ∧ k'.readIndex = k.readIndex := by
  cases supplies with
  | @file pos file opened rest =>
    obtain ⟨piece, value, kept, more, index⟩ := opened.read ok file found slot count served
    subst rest
    refine ⟨piece, value, kept, .file file more ?_, index⟩
    rw [List.drop_drop, piece, List.length_take, List.length_drop]
    rcases Nat.le_total n.toNat ((fs.contents d.inodeNum).length - pos) with inside | beyond
    · rw [Nat.min_eq_left inside]
    · rw [Nat.min_eq_right beyond, List.drop_eq_nil_of_le (by omega), List.drop_eq_nil_of_le (by omega)]
  | clock clock table used rest =>
    subst rest
    obtain ⟨rfl, move⟩ := served
    obtain ⟨v, out, call, reply⟩ := step_read move
    simp only [Reply.value.injEq] at reply
    obtain ⟨rfl, rfl⟩ := reply
    rw [k.sysRead_used fs buf n slot used, table] at call
    simp only [OpTable.read, Kernel.rtcRead, Outcome.done.injEq, Prod.mk.injEq] at call
    obtain ⟨post, value, bytes⟩ := call
    refine ⟨by rw [← bytes, List.take_nil], by rw [← value, ← bytes]; rfl, fun i other => ?_, ?_, by rw [← post]; rfl⟩
    · rw [← post, Kernel.setFd_entry, if_neg fun both => other both.2]
      rfl
    · rw [← post, Kernel.setFd_entry, if_pos ⟨rfl, rfl⟩]
      exact .clock clock table used List.drop_nil

theorem Supplies.canRead {fd : Nat} (supplies : Supplies fs d (k.entry k.curPid fd) left) (slot : fd < 8) (buf : Nat)
    (n : Word) : ∃ a k', Serves fs k.curPid k (.read fd buf n) a k' := by
  have reads {k' : Kernel} {r : Answer} (call : k.sysRead fs fd buf n = .done (k', r)) :
      ∃ a k', Serves fs k.curPid k (.read fd buf n) a k' := ⟨r, k', rfl, congrArg ReadReply.outcome call⟩
  cases supplies with
  | file _ opened => exact reads (Kernel.sysRead_file slot opened.table opened.used)
  | clock _ table used => exact reads (by rw [k.sysRead_used fs buf n slot used, table]; rfl)

end Supply

namespace Search

/-- Where the loop of `do_one_file` goes behind the line that ends at `line_end`. -/
def onward (g : Grep) (lineEnd cnt : Nat) : (Grep × Option (Nat × Nat)) ⊕ Grep :=
  if g.last ≤ lineEnd + 1 then Grep.leave cnt { g with last := 0 } else .inl (g, some (lineEnd + 1, cnt))

/-- The call of `do_one_file` goes the way of its loop, which comes out with
`final`. It has written `out`, and at most `m` calls may still come. -/
inductive Tracks (fs : FsImage) (d : Dentry) (s fname junk : Nat → UInt8) (final : Grep) (e : Fd) (out : List UInt8) :
    Nat → Search → Prop
  | opening : e.flags = 0 → out = [] → Ends (Grep.body s fname) (⟨junk, 0, fileText fs d, []⟩, none) final →
      Tracks fs d s fname junk final e out ((fileText fs d).length + 4 * final.out.length + 4) opening
  | reading {data last left m} : Supplies fs d e left → last ≤ 1024 →
      Ends (Grep.body s fname) (⟨data, last, left, out⟩, none) final →
      left.length + 4 * (final.out.length - out.length) + 3 ≤ m →
      Tracks fs d s fname junk final e out m (reading 3 data last)
  | printing {texts data last lineEnd cnt left m} : Supplies fs d e left → last ≤ 1024 →
      lineEnd ≤ 1024 → texts ≠ [] → (∀ t ∈ texts, t.1 ≠ 0 ∧ (stringAt t.2).length < 2 ^ 31) →
      Comes (Grep.body s fname)
        (onward ⟨data, last, left, out ++ texts.flatMap fun t => stringAt t.2⟩ lineEnd cnt) final →
      texts.length + left.length +
        4 * (final.out.length - (out ++ texts.flatMap fun t => stringAt t.2).length) + 3 ≤ m →
      Tracks fs d s fname junk final e out m (printing 3 texts data last lineEnd cnt)
  | closing {m} : e.flags ≠ 0 → e.fileOpTablePtr ≠ .dirOpt → final.out = out → 1 ≤ m →
      Tracks fs d s fname junk final e out m (closing 3)

variable {fs : FsImage} {d : Dentry} {s fname junk : Nat → UInt8} {final : Grep} {e : Fd} {out left : List UInt8}
  {data : Nat → UInt8} {last m : Nat}

/-- The strings of a line that matches are what the loop writes for it. -/
theorem pieces_text (a : GrepAddresses) (fname data : Nat → UInt8) (lineStart : Nat) :
    ((pieces a fname data lineStart).flatMap fun t => stringAt t.2) =
      ece391Fdputs fname ++ [58] ++ ece391Fdputs (fun i => data (lineStart + i)) ++ [10] := by
  have colon : stringAt (cString [58]) = [58] := stringAt_cString (by decide) (by decide)
  have newline : stringAt (cString [10]) = [10] := stringAt_cString (by decide) (by decide)
  simp [pieces, ece391Fdputs_eq, colon, newline]

theorem pieces_short (a : GrepAddresses) {lineStart lineEnd : Nat} (name : (stringAt fname).length < 2 ^ 31)
    (ends : data lineEnd = 0) (ordered : lineStart ≤ lineEnd) (small : lineEnd ≤ 1024) :
    ∀ t ∈ pieces a fname data lineStart, t.1 ≠ 0 ∧ (stringAt t.2).length < 2 ^ 31 := by
  have colon : stringAt (cString [58]) = [58] := stringAt_cString (by decide) (by decide)
  have newline : stringAt (cString [10]) = [10] := stringAt_cString (by decide) (by decide)
  have stop : data (lineStart + (lineEnd - lineStart)) = 0 := by
    rw [Nat.add_sub_cancel' ordered]
    exact ends
  have line : strlen (fun i => data (lineStart + i)) ≤ lineEnd - lineStart := strlen_le stop
  have place := a.data_ne
  intro t member
  simp only [pieces, List.mem_cons, List.not_mem_nil, or_false] at member
  rcases member with rfl | rfl | rfl | rfl
  · exact ⟨a.buf_ne, name⟩
  · exact ⟨a.text_ne, by rw [colon]; decide⟩
  · refine ⟨?_, ?_⟩
    · show a.data + lineStart ≠ 0
      omega
    · show (stringAt fun i => data (lineStart + i)).length < 2 ^ 31
      rw [stringAt_length]
      omega
  · exact ⟨a.text_ne, by rw [newline]; decide⟩

section Rounds

variable {g : Grep} {lineStart lineEnd cnt : Nat}

theorem body_moves (found : Grep.findEnd g.data g.last (g.last - lineStart) lineStart = lineEnd)
    (moves : g.data lineEnd ≠ 10 ∧ cnt ≠ 0 ∧ lineStart ≠ 0) : Grep.body s fname (g, some (lineStart, cnt)) =
      .inl ({ g with data := ece391Strcpy (Function.update g.data lineEnd 0) 0 lineStart
                     last := g.last - lineStart }, none) := by
  subst found
  exact (if_pos moves).trans (if_neg moves.2.1)

theorem body_searches (found : Grep.findEnd g.data g.last (g.last - lineStart) lineStart = lineEnd)
    (stays : ¬ (g.data lineEnd ≠ 10 ∧ cnt ≠ 0 ∧ lineStart ≠ 0)) : Grep.body s fname (g, some (lineStart, cnt)) =
      onward (Grep.search s fname lineStart lineEnd { g with data := Function.update g.data lineEnd 0 })
        lineEnd cnt := by
  subst found
  exact if_neg stays

end Rounds

/-- Behind a line the program goes on as its loop does. -/
theorem Tracks.onward {lineEnd cnt : Nat} {next : Search} (supplies : Supplies fs d e left)
    (comes : Comes (Grep.body s fname) (Search.onward ⟨data, last, left, out⟩ lineEnd cnt) final)
    (more : cnt ≠ 0 → left.length + 4 * (final.out.length - out.length) + 3 ≤ m) (positive : 1 ≤ m)
    (further : lineEnd + 1 < last →
      Ends (Grep.body s fname) (⟨data, last, left, out⟩, some (lineEnd + 1, cnt)) final →
      Tracks fs d s fname junk final e out m next) :
    Tracks fs d s fname junk final e out m
      (if last ≤ lineEnd + 1 then if (cnt : Int) = 0 then Search.closing 3 else Search.reading 3 data 0 else next) := by
  unfold Search.onward at comes
  by_cases spent : last ≤ lineEnd + 1
  · rw [if_pos spent] at comes ⊢
    by_cases ended : cnt = 0
    · subst ended
      rw [if_pos Int.natCast_zero]
      have same : final.out = out := congrArg Grep.out (Eq.symm comes)
      exact .closing supplies.inUse.1 supplies.inUse.2 same positive
    · have goesOn : ¬ (cnt : Int) = 0 := by omega
      rw [if_neg goesOn]
      rw [Grep.leave, if_neg ended] at comes
      exact .reading supplies (Nat.zero_le _) comes (more ended)
  · rw [if_neg spent] at comes ⊢
    exact further (by omega) comes

theorem onward_written (g : Grep) (lineEnd cnt : Nat) : Grep.written (Search.onward g lineEnd cnt) = g.out := by
  unfold Search.onward
  split
  · exact Grep.leave_written _ _
  · rfl

/-- The inner loop of the program is that of `do_one_file`, up to the next call. -/
theorem Tracks.scan (a : GrepAddresses) (name : (stringAt fname).length < 2 ^ 31) {rounds lineStart cnt : Nat}
    (supplies : Supplies fs d e left) (small : last ≤ 1024) (started : lineStart ≤ last)
    (enough : last - lineStart < rounds)
    (ends : Ends (Grep.body s fname) (⟨data, last, left, out⟩, some (lineStart, cnt)) final)
    (more : cnt ≠ 0 → left.length + 4 * (final.out.length - out.length) + 3 ≤ m)
    (bound : left.length + 4 * (final.out.length - out.length) ≤ m) (positive : 1 ≤ m) :
    Tracks fs d s fname junk final e out m (scan a s fname 3 rounds data last lineStart cnt) := by
  induction rounds generalizing data lineStart with
  | zero => omega
  | succ rounds ih =>
    have comes := ends.comes
    have ordered : lineStart ≤ Grep.findEnd data last (last - lineStart) lineStart := Grep.findEnd_ge
    have within : Grep.findEnd data last (last - lineStart) lineStart ≤ max last lineStart := Grep.findEnd_le
    unfold Search.scan
    dsimp only
    generalize found : Grep.findEnd data last (last - lineStart) lineStart = lineEnd at ordered within ⊢
    by_cases moves : data lineEnd ≠ 10 ∧ cnt ≠ 0 ∧ lineStart ≠ 0
    · have moves' : data lineEnd ≠ 10 ∧ (cnt : Int) ≠ 0 ∧ lineStart ≠ 0 := ⟨moves.1, by omega, moves.2.2⟩
      rw [body_moves found moves] at comes
      rw [if_pos moves']
      exact .reading supplies (by omega) comes (more moves.2.1)
    have stays : ¬ (data lineEnd ≠ 10 ∧ (cnt : Int) ≠ 0 ∧ lineStart ≠ 0) := by
      rintro ⟨char, some_, later⟩
      exact moves ⟨char, by omega, later⟩
    rw [body_searches found moves] at comes
    rw [if_neg stays]
    have stop : Function.update data lineEnd 0 lineEnd = 0 := Function.update_self ..
    dsimp only at comes
    generalize Function.update data lineEnd 0 = data' at comes stop ⊢
    by_cases hit : ((List.range' lineStart (lineEnd - lineStart)).any (Grep.matchesAt s data')) = true
    · rw [Grep.search, if_pos hit] at comes
      rw [if_pos hit]
      have text := pieces_text a fname data' lineStart
      have written : Comes (Grep.body s fname) (Search.onward ⟨data', last, left,
          out ++ (pieces a fname data' lineStart).flatMap fun t => stringAt t.2⟩ lineEnd cnt) final := by
        rw [text]
        simpa only [List.append_assoc] using comes
      refine .printing supplies small (by omega) (by simp [pieces])
        (pieces_short a name stop ordered (by omega)) written ?_
      have kept := (Grep.comes_prefix written).length_le
      rw [onward_written] at kept
      rw [text] at kept ⊢
      simp only [List.length_append, List.length_singleton] at kept ⊢
      have four : (pieces a fname data' lineStart).length = 4 := rfl
      omega
    · rw [Grep.search, if_neg hit] at comes
      rw [if_neg hit]
      exact Tracks.onward supplies comes more positive fun inside further =>
        ih (by omega) (by omega) further

/-- What one call of `do_one_file` comes to: it goes on, or it is back with 0
and all that its loop writes, its descriptor closed. -/
inductive Advances (fs : FsImage) (d : Dentry) (s fname junk : Nat → UInt8) (final : Grep) (e : Fd) (out : List UInt8)
    (m : Nat) : Search ⊕ Int → Prop
  | on {n next} : n < m → Tracks fs d s fname junk final e out n next →
      Advances fs d s fname junk final e out m (.inl next)
  | back : 1 ≤ m → e.flags = 0 → final.out = out → Advances fs d s fname junk final e out m (.inr 0)

section Calls

variable {p : Int} {args : List UInt8} {k k' : Kernel} {r : Answer} {file : Search} {q : SysCall}

theorem Tracks.opened (found : readDentryByName fs (cString (stringAt fname)) = some d)
    (known : d.fileType = 2 ∨ d.fileType = 0) (a : GrepAddresses) (used : (k.entry p 2).flags ≠ 0)
    (tracks : Tracks fs d s fname junk final (k.entry p 3) out m Search.opening)
    (served : Serves fs p k (.openFile (stringAt fname)) r k') :
    Advances fs d s fname junk final (k'.entry p 3) out m (take a s fname junk Search.opening r) ∧
      (∀ i, i ≠ 3 → k'.entry p i = k.entry p i) ∧ k'.readIndex = k.readIndex := by
  cases tracks with
  | opening free nothing ends =>
  have taken (i : Nat) (lower : 2 ≤ i) (below : i < 3) : (k.entry p i).flags ≠ 0 := by
    rw [show i = 2 by omega]
    exact used
  obtain ⟨index, opens⟩ := served.opens (by decide) (by decide) free taken
  rcases opens with ⟨missing, _⟩ | ⟨d', found', three, set⟩
  · rw [found] at missing
    cases missing
  cases Option.some.inj (found.symm.trans found')
  have typed : ∃ op, tableOfType d.fileType = some op ∧ ∀ i, k'.entry p i =
      if i = 3 then ⟨op, d.inodeNum, 0, 1⟩ else k.entry p i := by
    rcases set with ⟨untyped, _⟩ | set
    · rcases known with file | clock
      · rw [file] at untyped
        cases untyped
      · rw [clock] at untyped
        cases untyped
    · exact set
  obtain ⟨op, typed, entries⟩ := typed
  have entry : k'.entry p 3 = ⟨op, d.inodeNum, 0, 1⟩ := entries 3
  have inUse : (k'.entry p 3).flags ≠ 0 := by
    rw [entry]
    exact (by decide : (1 : Word) ≠ 0)
  have supplies : Supplies fs d (k'.entry p 3) (fileText fs d) := by
    rcases known with file | clock
    · rw [file] at typed
      cases typed
      refine .file file ⟨by rw [entry], by rw [entry], inUse, by rw [entry]; rfl, Nat.zero_le _⟩ ?_
      rw [fileText, if_pos file, List.drop_zero]
    · rw [clock] at typed
      cases typed
      refine .clock clock (by rw [entry]) inUse ?_
      rw [fileText, if_neg (by rw [clock]; decide)]
  have goesOn : take a s fname junk Search.opening r = .inl (Search.reading 3 junk 0) := by simp [take, three]
  subst nothing
  rw [goesOn]
  refine ⟨.on (Nat.lt_succ_self _) (.reading supplies (Nat.zero_le _) ends ?_), fun i other => ?_, index⟩
  · rw [List.length_nil]
    omega
  · rw [entries, if_neg other]

/-- The count that a read asks for. -/
theorem asked_toNat (small : last ≤ 1024) :
    (BitVec.ofInt 32 (1024 - (last : Int))).toNat = 1024 - last ∧ 0 ≤ (BitVec.ofInt 32 (1024 - (last : Int))).toInt := by
  have cast : (1024 : Int) - last = ((1024 - last : Nat) : Int) := by omega
  rw [cast, BitVec.ofInt_natCast, Word.toInt_ofNat (by omega), BitVec.toNat_ofNat]
  omega

theorem Tracks.fed (ok : FilesOk fs) (found : readDentryByName fs (cString (stringAt fname)) = some d)
    (a : GrepAddresses) (name : (stringAt fname).length < 2 ^ 31) {fd : Int} {buf : Nat}
    (tracks : Tracks fs d s fname junk final (k.entry p 3) out m (Search.reading fd data last))
    (served : Serves fs p k (.read fd buf (BitVec.ofInt 32 (1024 - last))) r k') :
    Advances fs d s fname junk final (k'.entry p 3) out m (take a s fname junk (Search.reading fd data last) r) ∧
      (∀ i, i ≠ 3 → k'.entry p i = k.entry p i) ∧ k'.readIndex = k.readIndex := by
  cases tracks with
  | @reading _ _ left _ supplies small ends bound =>
  obtain ⟨count, positive⟩ := asked_toNat small
  obtain ⟨piece, value, kept, more, index⟩ := supplies.read ok found (by decide : 3 < 8) positive served
  rw [count] at piece more
  refine ⟨?_, kept, index⟩
  have comes := ends.comes
  have round : Ends (Grep.body s fname)
      (⟨storeList data last r.2, last + r.2.length, left.drop (1024 - last), out⟩, some (0, r.2.length)) final := by
    rw [piece]
    exact comes
  have total : r.2.length + (left.drop (1024 - last)).length = left.length := by
    rw [piece, ← List.length_append, List.take_append_drop]
  have short : r.2.length ≤ 1024 - last := by
    rw [piece]
    exact List.length_take_le _ _
  have succeeded : ¬ r.1 = -1 := by omega
  have goesOn : take a s fname junk (Search.reading 3 data last) r =
      .inl (Search.scan a s fname 3 (last + r.2.length + 1) (storeList data last r.2) (last + r.2.length) 0
        (r.2.length : Nat)) := by
    rw [take, if_neg succeeded, value, Int.toNat_natCast]
  rw [goesOn]
  have fewer : 3 ≤ m := by omega
  refine .on (by omega : m - 1 < m) (Tracks.scan a name more (by omega) (Nat.zero_le _) (by omega) round ?_ ?_ ?_)
  · intro some_
    omega
  · omega
  · omega

theorem Tracks.printed (a : GrepAddresses) (name : (stringAt fname).length < 2 ^ 31) (here : Resident p args k)
    {fd : Int} {texts : List (Nat × (Nat → UInt8))} {lineEnd : Nat} {cnt : Int}
    (tracks : Tracks fs d s fname junk final (k.entry p 3) out m (Search.printing fd texts data last lineEnd cnt))
    (asks : ask a fname (Search.printing fd texts data last lineEnd cnt) = some q) (served : Serves fs p k q r k') :
    Advances fs d s fname junk final (k'.entry p 3) (out ++ bytesWritten (q, r)) m
        (take a s fname junk (Search.printing fd texts data last lineEnd cnt) r) ∧
      (∀ i, i ≠ 3 → k'.entry p i = k.entry p i) ∧ k'.readIndex = k.readIndex := by
  cases tracks with
  | @printing _ _ _ _ cnt left _ supplies small inside some_ places comes bound =>
  cases texts with
  | nil => exact absurd rfl some_
  | cons t rest =>
  obtain ⟨place, short⟩ := places t (List.mem_cons_self ..)
  cases asks
  obtain ⟨bytes, kept⟩ := here.puts place rfl short served
  rw [bytes, kept 3]
  refine ⟨?_, fun i _ => kept i, served.write_readIndex⟩
  rw [List.flatMap_cons, ← List.append_assoc] at comes bound
  rw [List.length_cons] at bound
  have fewer : m - 1 < m := by omega
  cases rest with
  | nil =>
    rw [List.flatMap_nil, List.append_nil] at comes bound
    rw [List.length_nil] at bound
    refine .on fewer (Tracks.onward supplies comes (fun _ => by omega) (by omega) fun further ends => ?_)
    exact Tracks.scan a name supplies small (by omega) (by omega) ends (fun _ => by omega) (by omega) (by omega)
  | cons t' rest =>
    have less : (t' :: rest).length + left.length +
        4 * (final.out.length - (out ++ stringAt t.2 ++ (t' :: rest).flatMap fun t => stringAt t.2).length) + 3 ≤
          m - 1 := by
      omega
    exact .on fewer (.printing supplies small inside (by simp)
      (fun u member => places u (List.mem_cons_of_mem t member)) comes less)

/-- One call of `do_one_file`. -/
theorem Tracks.served (ok : FilesOk fs) (found : readDentryByName fs (cString (stringAt fname)) = some d)
    (known : d.fileType = 2 ∨ d.fileType = 0) (a : GrepAddresses) (name : (stringAt fname).length < 2 ^ 31)
    (here : Resident p args k) (used : (k.entry p 2).flags ≠ 0)
    (tracks : Tracks fs d s fname junk final (k.entry p 3) out m file) (asks : ask a fname file = some q)
    (served : Serves fs p k q r k') :
    Advances fs d s fname junk final (k'.entry p 3) (out ++ bytesWritten (q, r)) m (take a s fname junk file r) ∧
      (∀ i, i ≠ 3 → k'.entry p i = k.entry p i) ∧ k'.readIndex = k.readIndex := by
  cases file with
  | opening =>
    cases asks
    rw [show bytesWritten (.openFile (stringAt fname), r) = [] from rfl, List.append_nil]
    exact tracks.opened found known a used served
  | reading fd data last =>
    cases asks
    rw [show bytesWritten (.read fd (a.data + last) (BitVec.ofInt 32 (1024 - last)), r) = [] from rfl, List.append_nil]
    exact tracks.fed ok found a name served
  | printing fd texts data last lineEnd cnt => exact tracks.printed a name here asks served
  | closing fd =>
    cases asks
    cases tracks with
    | closing inUse notDirectory same positive =>
    obtain ⟨zero, free, kept, index⟩ := Serves.closes served (by decide) (by decide) inUse notDirectory
    have done : take a s fname junk (Search.closing 3) r = .inr 0 := by simp [take, zero]
    rw [done, show bytesWritten (.close 3, r) = [] from rfl, List.append_nil]
    exact ⟨.back positive free same, kept, index⟩
  | openFailed | readFailed | closeFailed => cases tracks

/-- What has been written is the beginning of what will be. -/
theorem Tracks.written (tracks : Tracks fs d s fname junk final e out m file) : out <+: final.out := by
  cases tracks with
  | opening _ nothing =>
    rw [nothing]
    exact List.nil_prefix
  | reading _ _ ends => exact Grep.out_prefix ends
  | printing _ _ _ _ _ comes =>
    have written := Grep.comes_prefix comes
    rw [onward_written] at written
    exact (List.prefix_append _ _).trans written
  | closing _ _ same => rw [same]

end Calls

end Search

/-- What is read of the file that entry `i` names. -/
def entryText (fs : FsImage) (i : Nat) : List UInt8 :=
  match readDentryByName fs (cString (fs.dentryAt i).name) with
  | none => []
  | some d => fileText fs d

/-- What `grep` prints for entry `i`. An argument that begins with a byte from
0x80 on is found in no line. -/
def grepEntry (fs : FsImage) (args : List UInt8) (i : Nat) : List UInt8 :=
  if (fs.dentryAt i).name.head? = some 46 then []
  else if args.headD 0 < 0x80 then Grep.report args (fs.dentryAt i).name (entryText fs i)
  else []

/-- What `grep` prints and returns. -/
def grepText (fs : FsImage) (args : List UInt8) : List UInt8 × Int :=
  if args = [] then (GrepMain.noArgumentText, 3)
  else
    match readDentryByName fs (cString Ls.dot) with
    | none => (Ls.openFailedText, 2)
    | some _ => ((listed fs).flatMap (grepEntry fs args), 0)

/-- The calls for entry `i`. -/
def grepCost (fs : FsImage) (args : List UInt8) (i : Nat) : Nat :=
  (entryText fs i).length + 4 * (grepEntry fs args i).length + 5

def grepCalls (fs : FsImage) (args : List UInt8) : Nat := 3 + ((listed fs).map (grepCost fs args)).sum

/-- A file that is searched: its text has no NUL and short lines, and no match
is lost where the buffer ends. `junk n 1024` is the byte behind the buffer in
the `n`-th call of `do_one_file`. -/
structure Searchable (fs : FsImage) (args : List UInt8) (junk : Nat → Nat → UInt8) (i : Nat) : Prop where
  found : ∃ d, readDentryByName fs (cString (fs.dentryAt i).name) = some d ∧ (d.fileType = 2 ∨ d.fileType = 0)
  plain : 0 ∉ entryText fs i
  short : Grep.ShortLines (entryText fs i)
  whole : args.headD 0 < 0x80 → (∀ n, junk n 1024 ≠ 10) ∨ ¬ Grep.SplitsMatch args (entryText fs i)

/-- The loop of `do_one_file` ends with what is to be printed. -/
theorem Searchable.ends {fs : FsImage} {args : List UInt8} {junk : Nat → Nat → UInt8} {i : Nat} {s fname : Nat → UInt8}
    (searchable : Searchable fs args junk i) (named : args ≠ []) (pattern : stringAt s = args)
    (name : stringAt fname = (fs.dentryAt i).name) (visible : (fs.dentryAt i).name.head? ≠ some 46) (n : Nat) :
    ∃ final, Loops.Ends (Grep.body s fname) (⟨junk n, 0, entryText fs i, []⟩, none) final ∧
      final.out = grepEntry fs args i := by
  obtain ⟨text, ⟨fuel, done⟩, _, exact_when⟩ := doOneFile_sought fname (junk n) searchable.plain searchable.short
    (s := s) (by rw [pattern]; exact named)
  obtain ⟨final, ended, same⟩ := Option.map_eq_some_iff.mp done
  refine ⟨final, ⟨fuel, ended⟩, ?_⟩
  rw [pattern, name, Grep.sought] at exact_when
  rw [show final.out = text from congrArg Prod.fst same, grepEntry, if_neg visible]
  by_cases small : args.headD 0 < 0x80
  · rw [if_pos small] at exact_when ⊢
    exact exact_when.mpr ((searchable.whole small).imp_left fun far => far n)
  · rw [if_neg small] at exact_when ⊢
    have zero : (0 : UInt8) ∈ [0] := List.mem_singleton_self 0
    rw [exact_when.mpr (Or.inr (Grep.splitsMatch_absent zero searchable.plain)),
      Grep.report_absent _ zero searchable.plain]

namespace GrepMain

/-- The calls for the entries from number `m` on, and the read behind them. -/
def rest (fs : FsImage) (args : List UInt8) (m : Nat) : Nat := (((listed fs).drop m).map (grepCost fs args)).sum + 1

/-- What holds at each call. -/
def At (fs : FsImage) (p : Int) (args : List UInt8) (junk : Nat → Nat → UInt8) (calls : List (SysCall × Answer))
    (k : Kernel) : GrepMain → Prop
  | start _ _ => printed calls = [] ∧ calls.length = 0 ∧ k.readIndex = 0 ∧ ∀ i, 2 ≤ i → i < 8 → (k.entry p i).flags = 0
  | noArgument => printed calls = [] ∧ calls.length = 1 ∧ args = []
  | opening search _ => printed calls = [] ∧ calls.length = 1 ∧ k.readIndex = 0 ∧
      (∀ i, 2 ≤ i → i < 8 → (k.entry p i).flags = 0) ∧ args ≠ [] ∧ stringAt search = args
  | openFailed => printed calls = [] ∧ calls.length = 2 ∧ args ≠ [] ∧ readDentryByName fs (cString Ls.dot) = none
  | reading fd _ search _ => fd = 2 ∧ args ≠ [] ∧ stringAt search = args ∧ (k.entry p 3).flags = 0 ∧
      ∃ m, Ls.Lists fs p k m ∧ printed calls = (List.range m).flatMap (grepEntry fs args) ∧
        calls.length + rest fs args m ≤ grepCalls fs args
  | readFailed => False
  | searching fd n search buf file => fd = 2 ∧ args ≠ [] ∧ stringAt search = args ∧
      ∃ m d final out c, Ls.Lists fs p k (m + 1) ∧ stringAt buf = (fs.dentryAt m).name ∧
        readDentryByName fs (cString (stringAt buf)) = some d ∧ (d.fileType = 2 ∨ d.fileType = 0) ∧
        final.out = grepEntry fs args m ∧ Search.Tracks fs d search buf (junk n) final (k.entry p 3) out c file ∧
        printed calls = (List.range m).flatMap (grepEntry fs args) ++ out ∧
        calls.length + c + rest fs args (m + 1) ≤ grepCalls fs args
  | returned v => (printed calls, v) = grepText fs args ∧ calls.length ≤ grepCalls fs args

variable {fs : FsImage} {p : Int} {args : List UInt8} {junk : Nat → Nat → UInt8} {calls : List (SysCall × Answer)}
  {k k' : Kernel} {a : Answer} {addr : GrepAddresses}

theorem At.stable {s : GrepMain} (holds : At fs p args junk calls k s) (kept : ∀ i, k'.entry p i = k.entry p i)
    (index : k'.readIndex = k.readIndex) : At fs p args junk calls k' s := by
  cases s with
  | start search buf | opening search buf =>
    simp only [At, kept, index] at holds ⊢
    exact holds
  | reading fd n search buf =>
    obtain ⟨two, named, pattern, free, m, lists, rest⟩ := holds
    exact ⟨two, named, pattern, by rw [kept]; exact free, m, lists.same (kept 2) index, rest⟩
  | searching fd n search buf file =>
    obtain ⟨two, named, pattern, m, d, final, out, c, lists, name, found, known, text, tracks, rest⟩ := holds
    exact ⟨two, named, pattern, m, d, final, out, c, lists.same (kept 2) index, name, found, known, text,
      by rw [kept]; exact tracks, rest⟩
  | noArgument | openFailed | readFailed | returned v => exact holds

theorem rest_next {m : Nat} (lists : Ls.Lists fs p k (m + 1)) :
    rest fs args m = grepCost fs args m + rest fs args (m + 1) := by
  have next := Ls.listed_next lists.within lists.named
  rw [rest, rest, next, List.map_cons, List.sum_cons, Nat.add_assoc]

theorem grepText_found {m : Nat} (lists : Ls.Lists fs p k m) (named : args ≠ []) :
    grepText fs args = ((listed fs).flatMap (grepEntry fs args), 0) := by
  obtain ⟨d, found⟩ := lists.directory
  simp only [grepText, named, found, if_false]

/-- A message and the return behind it. -/
theorem At.message {text : List UInt8} {addr : Nat} {v : Int} (here : Resident p args k) (place : addr ≠ 0)
    (plain : 0 ∉ text) (short : text.length < 2 ^ 31) (before : printed calls = []) (few : calls.length ≤ 2)
    (result : grepText fs args = (text, v)) (served : Serves fs p k (fdputs 1 addr (cString text)) a k') :
    At fs p args junk ((fdputs 1 addr (cString text), a) :: calls) k' (returned v) ∧ k'.entry p 1 = k.entry p 1 := by
  obtain ⟨bytes, kept⟩ := here.puts place (stringAt_cString plain (by omega)) short served
  refine ⟨⟨?_, ?_⟩, kept 1⟩
  · rw [printed_cons, bytes, before, List.nil_append, result]
  · rw [List.length_cons, grepCalls]
    omega

theorem At.started {search buf : Nat → UInt8} (here : Resident p args k) (short : args.length ≤ 128)
    (holds : At fs p args junk calls k (start search buf)) (served : Serves fs p k (.getargs 1024) a k') :
    At fs p args junk ((.getargs 1024, a) :: calls) k' (take addr junk (start search buf) a) ∧
      k'.entry p 1 = k.entry p 1 := by
  obtain ⟨before, none, index, free⟩ := holds
  have still : printed ((SysCall.getargs 1024, a) :: calls) = [] := by rw [printed_cons, before]; rfl
  have one : ((SysCall.getargs 1024, a) :: calls).length = 1 := by rw [List.length_cons, none]
  obtain ⟨rfl, reply⟩ := here.getargs short served
  refine ⟨?_, rfl⟩
  rcases reply with ⟨empty, failed⟩ | ⟨named, zero, arrives⟩
  · rw [show take addr junk (start search buf) a = noArgument from if_pos failed]
    exact ⟨still, one, empty⟩
  · rw [show take addr junk (start search buf) a = opening (storeList search 0 a.2) buf from if_neg (not_not.mpr zero)]
    exact ⟨still, one, index, free, named, arrives search⟩

theorem At.opened {search buf : Nat → UInt8} (holds : At fs p args junk calls k (opening search buf))
    (directory : ∀ d, readDentryByName fs (cString Ls.dot) = some d → d.fileType = 1)
    (served : Serves fs p k (.openFile Ls.dot) a k') :
    At fs p args junk ((.openFile Ls.dot, a) :: calls) k' (take addr junk (opening search buf) a) ∧
      k'.entry p 1 = k.entry p 1 := by
  obtain ⟨before, one, index, free, named, pattern⟩ := holds
  have still : printed ((SysCall.openFile Ls.dot, a) :: calls) = [] := by rw [printed_cons, before]; rfl
  have two : ((SysCall.openFile Ls.dot, a) :: calls).length = 2 := by rw [List.length_cons, one]
  obtain ⟨_, kept, opens⟩ := Ls.opens_directory directory index free served
  refine ⟨?_, kept 1 (by decide)⟩
  rcases opens with ⟨missing, refused⟩ | ⟨fd, lists⟩
  · rw [show take addr junk (opening search buf) a = openFailed from if_pos refused]
    exact ⟨still, two, named, missing⟩
  · have opens : take addr junk (opening search buf) a = reading 2 0 search buf := by simp [take, fd]
    rw [opens]
    refine ⟨rfl, named, pattern, ?_, 0, lists, still, ?_⟩
    · rw [kept 3 (by decide)]
      exact free 3 (by decide) (by decide)
    · rw [two, rest, grepCalls, List.drop_zero]
      omega

/-- The name of an entry as a string. -/
theorem name_string (d : Dentry) (buf : Nat → UInt8) :
    stringAt (Function.update (storeList buf 0 (d.fileName.toList ++ [0])) d.name.length 0) = d.name := by
  have short := Ls.name_short d
  refine StringAt.string ⟨fun i inside => ?_, fun c member => ?_, ?_⟩ (by omega)
  · rw [Nat.zero_add, Function.update_of_ne (by omega), Ls.name_stored d buf inside]
  · simpa using List.mem_takeWhile_imp member
  · rw [Nat.zero_add, Function.update_self]

theorem At.fed {fd : Int} {n at' : Nat} {search buf : Nat → UInt8}
    (holds : At fs p args junk calls k (reading fd n search buf))
    (searchable : ∀ i ∈ listed fs, (fs.dentryAt i).name.head? ≠ some 46 → Searchable fs args junk i)
    (served : Serves fs p k (.read fd at' 32) a k') :
    At fs p args junk ((.read fd at' 32, a) :: calls) k' (take addr junk (reading fd n search buf) a) ∧
      k'.entry p 1 = k.entry p 1 := by
  obtain ⟨rfl, named, pattern, free, m, lists, text, bound⟩ := holds
  obtain ⟨kept, reads⟩ := lists.read served
  have still : printed ((SysCall.read 2 at' 32, a) :: calls) = (List.range m).flatMap (grepEntry fs args) := by
    rw [printed_cons, ← text]
    exact List.append_nil _
  have free' : (k'.entry p 3).flags = 0 := by
    rw [kept 3 (by decide)]
    exact free
  refine ⟨?_, kept 1 (by decide)⟩
  rcases reads with ⟨zero, whole⟩ | ⟨reply, some_, inside, next⟩
  · rw [show take addr junk (reading 2 n search buf) a = returned 0 from if_pos zero]
    refine ⟨by rw [still, grepText_found lists named, whole], ?_⟩
    rw [rest] at bound
    rw [List.length_cons]
    omega
  · have positive := List.length_pos_of_ne_nil some_
    have value : a.1 = (fs.dentryAt m).name.length := congrArg Prod.fst reply
    have stored : a.2 = (fs.dentryAt m).fileName.toList ++ [0] := by rw [reply]
    have goesOn : ¬ a.1 = 0 := by omega
    have notFailed : ¬ a.1 = -1 := by omega
    have first : storeList buf 0 a.2 0 = 46 ↔ (fs.dentryAt m).name.head? = some 46 := by
      rw [stored, Ls.name_stored _ buf positive, List.head?_eq_getElem?, List.getElem?_eq_getElem positive,
        Option.some.injEq]
    have cost : rest fs args m = grepCost fs args m + rest fs args (m + 1) := rest_next next
    have price : 5 ≤ grepCost fs args m := Nat.le_add_left 5 _
    by_cases dotted : (fs.dentryAt m).name.head? = some 46
    · have passes : take addr junk (reading 2 n search buf) a = reading 2 n search (storeList buf 0 a.2) := by
        simp only [take, goesOn, notFailed, first.mpr dotted, if_false, if_true]
      rw [passes]
      refine ⟨rfl, named, pattern, free', m + 1, next, ?_, ?_⟩
      · rw [still, List.range_succ, List.flatMap_append, List.flatMap_singleton, grepEntry, if_pos dotted, List.append_nil]
      · rw [List.length_cons]
        omega
    · have notDotted : ¬ storeList buf 0 a.2 0 = 46 := fun dot => dotted (first.mp dot)
      have searches : take addr junk (reading 2 n search buf) a =
          searching 2 n search (Function.update (storeList buf 0 a.2) a.1.toNat 0) .opening := by
        simp only [take, goesOn, notFailed, notDotted, if_false]
      have member : m ∈ listed fs := by
        rw [Ls.listed_append inside next.named, List.mem_append]
        exact Or.inl (List.mem_range.mpr (Nat.lt_succ_self m))
      have file := searchable m member dotted
      have name : stringAt (Function.update (storeList buf 0 a.2) a.1.toNat 0) = (fs.dentryAt m).name := by
        rw [value, stored, Int.toNat_natCast]
        exact name_string _ buf
      obtain ⟨final, ends, out⟩ := file.ends named pattern name dotted n
      obtain ⟨d, found, known⟩ := file.found
      have contents : entryText fs m = fileText fs d := by simp only [entryText, found]
      rw [searches]
      rw [contents] at ends
      refine ⟨rfl, named, pattern, m, d, final, [], _, next, name, by rw [name]; exact found, known, out,
        .opening free' rfl ends, by rw [still, List.append_nil], ?_⟩
      rw [grepCost, contents, ← out] at cost
      rw [List.length_cons]
      omega

/-- One call of `do_one_file` seen from `main`. -/
theorem At.searched {fd : Int} {n : Nat} {search buf : Nat → UInt8} {file : Search} {q : SysCall} (ok : FilesOk fs)
    (here : Resident p args k) (holds : At fs p args junk calls k (searching fd n search buf file))
    (asks : file.ask addr buf = some q) (served : Serves fs p k q a k') :
    At fs p args junk ((q, a) :: calls) k' (take addr junk (searching fd n search buf file) a) ∧
      k'.entry p 1 = k.entry p 1 := by
  obtain ⟨rfl, named, pattern, m, d, final, out, c, lists, name, found, known, text, tracks, all, bound⟩ := holds
  have short : (stringAt buf).length < 2 ^ 31 := by
    rw [name]
    have length := Ls.name_short (fs.dentryAt m)
    omega
  obtain ⟨advances, kept, index⟩ := tracks.served ok found known addr short here lists.used asks served
  have lists' := lists.same (kept 2 (by decide)) index
  have all' : printed ((q, a) :: calls) =
      (List.range m).flatMap (grepEntry fs args) ++ (out ++ bytesWritten (q, a)) := by
    rw [printed_cons, all, List.append_assoc]
  refine ⟨?_, kept 1 (by decide)⟩
  generalize went : file.take addr search buf (junk n) a = next at advances
  cases advances with
  | @on c' next less tracks' =>
    rw [show take addr junk (searching 2 n search buf file) a = searching 2 n search buf next by simp only [take, went]]
    refine ⟨rfl, named, pattern, m, d, final, _, c', lists', name, found, known, text, tracks', all', ?_⟩
    rw [List.length_cons]
    omega
  | back positive free same =>
    rw [show take addr junk (searching 2 n search buf file) a = reading 2 (n + 1) search buf by simp [take, went]]
    refine ⟨rfl, named, pattern, free, m + 1, lists', ?_, ?_⟩
    · rw [all', ← same, text, List.range_succ, List.flatMap_append, List.flatMap_singleton]
    · rw [List.length_cons]
      omega

/-- One call of `grep` and what holds behind it. -/
theorem At.served {s : GrepMain} {q : SysCall} (ok : FilesOk fs) (short : args.length ≤ 128)
    (directory : ∀ d, readDentryByName fs (cString Ls.dot) = some d → d.fileType = 1)
    (searchable : ∀ i ∈ listed fs, (fs.dentryAt i).name.head? ≠ some 46 → Searchable fs args junk i)
    (here : Resident p args k) (holds : At fs p args junk calls k s) (asks : ask addr s = some q)
    (served : Serves fs p k q a k') :
    Resident p args k' ∧ At fs p args junk ((q, a) :: calls) k' (take addr junk s a) := by
  have close (next : At fs p args junk ((q, a) :: calls) k' (take addr junk s a) ∧ k'.entry p 1 = k.entry p 1) :
      Resident p args k' ∧ At fs p args junk ((q, a) :: calls) k' (take addr junk s a) :=
    ⟨here.served served next.2, next.1⟩
  cases s with
  | start search buf =>
    cases asks
    exact close (holds.started here short served)
  | opening search buf =>
    cases asks
    exact close (holds.opened directory served)
  | reading fd n search buf =>
    cases asks
    exact close (holds.fed searchable served)
  | searching fd n search buf file => exact close (holds.searched ok here asks served)
  | noArgument =>
    cases asks
    obtain ⟨before, one, none⟩ := holds
    exact close (At.message here addr.text_ne (by decide) (by decide) before (by omega) (by simp [grepText, none]) served)
  | openFailed =>
    cases asks
    obtain ⟨before, two, named, missing⟩ := holds
    exact close (At.message here addr.text_ne (by decide) (by decide) before (by omega)
      (by simp [grepText, named, missing]) served)
  | readFailed => exact holds.elim
  | returned v => cases asks

/-- Where `main` has not returned its next call is answered. -/
theorem At.answered {s : GrepMain} (here : Resident p args k) (holds : At fs p args junk calls k s)
    (running : k.curPid = p) (goesOn : result s = none) : ∃ q a k', ask addr s = some q ∧ Serves fs p k q a k' := by
  subst running
  have puts (place : Nat) (buf : Nat → UInt8) (n : Word) (asks : ask addr s = some (.write 1 place buf n)) :
      ∃ q a k', ask addr s = some q ∧ Serves fs k.curPid k q a k' := by
    obtain ⟨a, k', served⟩ := here.canWrite rfl place buf n
    exact ⟨_, a, k', asks, served⟩
  cases s with
  | start search buf => exact ⟨_, k.sysGetargs 1024, k, rfl, rfl, rfl, rfl⟩
  | opening search buf => exact ⟨_, ((k.sysOpen fs Ls.dot).2, []), (k.sysOpen fs Ls.dot).1, rfl, rfl, rfl⟩
  | noArgument | openFailed | readFailed => exact puts _ _ _ rfl
  | returned v => cases goesOn
  | reading fd n search buf =>
    obtain ⟨rfl, _, _, _, m, lists, _⟩ := holds
    have call : k.sysRead fs (2 : Nat) addr.buf 32 = _ := Kernel.sysRead_dir (by decide) lists.table lists.used
    exact ⟨_, (k.dirRead fs).2, _, rfl, rfl, congrArg ReadReply.outcome call⟩
  | searching fd n search buf file =>
    obtain ⟨_, _, _, m, d, final, out, c, lists, name, found, known, text, tracks, _⟩ := holds
    cases tracks with
    | opening =>
      exact ⟨_, ((k.sysOpen fs (stringAt buf)).2, []), (k.sysOpen fs (stringAt buf)).1, rfl, rfl, rfl⟩
    | @reading data last left _ supplies =>
      obtain ⟨a, k', served⟩ := supplies.canRead (by decide : 3 < 8) (addr.data + last) (BitVec.ofInt 32 (1024 - last))
      exact ⟨_, a, k', rfl, served⟩
    | @printing texts _ _ _ _ _ _ _ _ _ some_ =>
      cases texts with
      | nil => exact absurd rfl some_
      | cons t _ => exact puts _ _ _ rfl
    | closing => exact ⟨_, ((k.sysClose 3).2, []), (k.sysClose 3).1, rfl, rfl, rfl⟩

theorem entries_begin {m : Nat} (lists : Ls.Lists fs p k m) :
    (List.range m).flatMap (grepEntry fs args) <+: (listed fs).flatMap (grepEntry fs args) := by
  rw [Ls.listed_append lists.within lists.named, List.flatMap_append]
  exact List.prefix_append _ _

theorem At.soFar {s : GrepMain} (holds : At fs p args junk calls k s) : printed calls <+: (grepText fs args).1 := by
  cases s with
  | start | noArgument | opening | openFailed =>
    rw [holds.1]
    exact List.nil_prefix
  | reading fd n search buf =>
    obtain ⟨_, named, _, _, m, lists, text, _⟩ := holds
    rw [text, grepText_found lists named]
    exact entries_begin lists
  | searching fd n search buf file =>
    obtain ⟨_, named, _, m, d, final, out, c, lists, _, _, _, text, tracks, all, _⟩ := holds
    rw [all, grepText_found lists named]
    refine List.IsPrefix.trans ?_ (entries_begin lists)
    rw [List.range_succ, List.flatMap_append, List.flatMap_singleton, ← text]
    exact (List.prefix_append_right_inj _).mpr tracks.written
  | readFailed => exact holds.elim
  | returned v => rw [← show (printed calls, v) = grepText fs args from holds.1]

end GrepMain

end UnixLite
