import UnixLite.Grep
import Mathlib.Data.List.DropRight

namespace UnixLite

open Loops Store

namespace Grep

/-- What should be printed for a file: every line with the pattern in it,
behind the name of the file. -/
def report (pattern fname file : List UInt8) : List UInt8 :=
  (file.splitOn 10).flatMap (reportLine pattern fname)

def ShortLines (file : List UInt8) : Prop := ∀ line ∈ file.splitOn 10, line.length ≤ 1023

section Text

variable {pattern fname line front rest : List UInt8}

theorem report_split : report pattern fname (front ++ 10 :: rest) =
    report pattern fname front ++ report pattern fname rest := by
  rw [report, List.splitOn_append_cons_self, List.flatMap_append]
  rfl

theorem report_line (whole : 10 ∉ line) : report pattern fname line = reportLine pattern fname line := by
  rw [report, List.splitOn_eq_singleton whole, List.flatMap_singleton]

theorem reportLine_nil (pattern_ne : pattern ≠ []) : reportLine pattern fname [] = [] := by
  rw [reportLine, if_neg]
  exact fun inside => pattern_ne (List.infix_nil.mp inside)

theorem report_nil (pattern_ne : pattern ≠ []) : report pattern fname [] = [] :=
  (report_line List.not_mem_nil).trans (reportLine_nil pattern_ne)

/-- Nothing is found that has a character which is not in the file. -/
theorem report_absent {file : List UInt8} {c : UInt8} (fname : List UInt8) (char : c ∈ pattern) (absent : c ∉ file) :
    report pattern fname file = [] := by
  induction length : file.length using Nat.strong_induction_on generalizing file with
  | _ n ih =>
    by_cases newline : 10 ∈ file
    · obtain ⟨front, rest, rfl, _⟩ := List.eq_append_cons_of_mem newline
      rw [List.mem_append, List.mem_cons, not_or, not_or] at absent
      rw [List.length_append, List.length_cons] at length
      rw [report_split, ih front.length (by omega) absent.1 rfl, ih rest.length (by omega) absent.2.2 rfl]
      rfl
    · rw [report_line newline, reportLine, if_neg fun inside => absent (inside.subset char)]

/-- Nothing is printed exactly when no line has the pattern in it. -/
theorem report_eq_nil {file : List UInt8} :
    report pattern fname file = [] ↔ ∀ line ∈ file.splitOn 10, ¬ pattern <:+: line := by
  rw [report, List.flatMap_eq_nil_iff]
  refine forall_congr' fun line => forall_congr' fun _ => ?_
  unfold reportLine
  split
  · rename_i found
    simp [found]
  · rename_i missing
    simp [missing]

theorem shortLines_split : ShortLines (front ++ 10 :: rest) ↔ ShortLines front ∧ ShortLines rest := by
  rw [ShortLines, List.splitOn_append_cons_self]
  exact List.forall_mem_append

theorem ShortLines.whole (short : ShortLines line) (whole : 10 ∉ line) : line.length ≤ 1023 := by
  refine short line ?_
  rw [List.splitOn_eq_singleton whole]
  exact List.mem_singleton_self _

theorem shortLines_whole (whole : 10 ∉ line) (few : line.length ≤ 1023) : ShortLines line := by
  intro other member
  rw [List.splitOn_eq_singleton whole, List.mem_singleton] at member
  rwa [member]

/-- What stands before the first newline is no longer than a line, and the
lines behind it are short as well. -/
theorem ShortLines.cut (short : ShortLines (front ++ rest)) (whole : 10 ∉ front) :
    front.length ≤ 1023 ∧ ShortLines rest := by
  by_cases newline : 10 ∈ rest
  · obtain ⟨before, after, rfl, first⟩ := List.eq_append_cons_of_mem newline
    rw [← List.append_assoc, shortLines_split] at short
    have few := short.1.whole (List.not_mem_append whole first)
    rw [List.length_append] at few
    exact ⟨by omega, shortLines_split.mpr ⟨shortLines_whole first (by omega), short.2⟩⟩
  · have few := short.whole (List.not_mem_append whole newline)
    rw [List.length_append] at few
    exact ⟨by omega, shortLines_whole newline (by omega)⟩

/-- The last newline of a text and what stands behind it. -/
theorem exists_last {text : List UInt8} (newline : 10 ∈ text) :
    ∃ before after, text = before ++ 10 :: after ∧ 10 ∉ after := by
  obtain ⟨after, before, split, last⟩ := List.eq_append_cons_of_mem (List.mem_reverse.mpr newline)
  refine ⟨before.reverse, after.reverse, ?_, by simpa using last⟩
  have turned := congrArg List.reverse split
  simpa using turned

end Text

/-- The array holds the bytes read and not searched yet, from `line_start` on. -/
structure Filled (g : Grep) (lineStart : Nat) (bytes : List UInt8) : Prop where
  holds : Holds g.data lineStart bytes
  last : lineStart + bytes.length = g.last
  room : g.last ≤ 1024
  plain : 0 ∉ bytes

section Rounds

variable {s fname : Nat → UInt8} {g : Grep} {lineStart cnt : Nat} {line bytes : List UInt8}

/-- A line that ends in a newline is searched. -/
theorem Filled.body_line (filled : Filled g lineStart (line ++ 10 :: bytes)) (fname : Nat → UInt8) (cnt : Nat)
    (pattern : stringAt s ≠ []) (whole : 10 ∉ line) :
    body s fname (g, some (lineStart, cnt)) =
      if bytes = [] then
        leave cnt { g with data := Function.update g.data (lineStart + line.length) 0, last := 0,
                           out := g.out ++ reportLine (sought (stringAt s)) (stringAt fname) line }
      else
        .inl ({ g with data := Function.update g.data (lineStart + line.length) 0,
                       out := g.out ++ reportLine (sought (stringAt s)) (stringAt fname) line },
          some (lineStart + line.length + 1, cnt)) := by
  have last := filled.last
  have room := filled.room
  rw [List.length_append, List.length_cons] at last
  have newline : g.data (lineStart + line.length) = 10 := filled.holds.right 0 (by simp)
  have found : findEnd g.data g.last (g.last - lineStart) lineStart = lineStart + line.length :=
    findEnd_eq filled.holds.left whole (by omega) (by omega) (Or.inr newline)
  have plain : 0 ∉ line := fun member => filled.plain (List.mem_append_left _ member)
  have string := filled.holds.left.stringAt plain
  have searched := search_eq fname { g with data := Function.update g.data (lineStart + line.length) 0 } pattern
    string (by omega)
  have stays : ¬ (g.data (lineStart + line.length) ≠ 10 ∧ cnt ≠ 0 ∧ lineStart ≠ 0) := fun all => all.1 newline
  rw [body]
  dsimp only
  rw [found, if_neg stays, searched]
  by_cases done : bytes = []
  · rw [if_pos done, if_pos (by dsimp only; simp [done] at last; omega)]
  · have more := List.length_pos_of_ne_nil done
    rw [if_neg done, if_neg (by dsimp only; omega)]

theorem Filled.next {out : List UInt8} (filled : Filled g lineStart (line ++ 10 :: bytes)) :
    Filled { g with data := Function.update g.data (lineStart + line.length) 0, out := out }
      (lineStart + line.length + 1) bytes where
  holds := by
    have behind : Holds g.data (lineStart + line.length) ([10] ++ bytes) := filled.holds.right
    exact behind.right.congr fun x inside _ => Function.update_of_ne (by simp at inside; omega) _ _
  last := by
    have last := filled.last
    rw [List.length_append, List.length_cons] at last
    dsimp only
    omega
  room := filled.room
  plain member := filled.plain (List.mem_append_right _ (List.mem_cons_of_mem _ member))

/-- What stands at the end of the buffer is searched as a line, unless it is
kept for the next round. -/
theorem Filled.body_tail (filled : Filled g lineStart line) (fname : Nat → UInt8) (cnt : Nat)
    (pattern : stringAt s ≠ []) (whole : 10 ∉ line) (complete : g.data g.last = 10 ∨ cnt = 0 ∨ lineStart = 0) :
    body s fname (g, some (lineStart, cnt)) =
      leave cnt { g with data := Function.update g.data g.last 0, last := 0,
                         out := g.out ++ reportLine (sought (stringAt s)) (stringAt fname) line } := by
  have last := filled.last
  have room := filled.room
  have found : findEnd g.data g.last (g.last - lineStart) lineStart = lineStart + line.length :=
    findEnd_eq filled.holds whole (by omega) (by omega) (Or.inl last)
  have searched := search_eq fname { g with data := Function.update g.data (lineStart + line.length) 0 } pattern
    (filled.holds.stringAt filled.plain) (by omega)
  have stays : ¬ (g.data (lineStart + line.length) ≠ 10 ∧ cnt ≠ 0 ∧ lineStart ≠ 0) := by
    rw [last]
    tauto
  rw [body]
  dsimp only
  rw [found, if_neg stays, searched, if_pos (by dsimp only; omega), last]

/-- Otherwise it is moved to the front. -/
theorem Filled.body_move (filled : Filled g lineStart line) (whole : 10 ∉ line) (char : g.data g.last ≠ 10)
    (more : cnt ≠ 0) (behind : lineStart ≠ 0) :
    ∃ data, body s fname (g, some (lineStart, cnt)) = .inl ({ g with data := data, last := line.length }, none) ∧
      Filled { g with data := data, last := line.length } 0 line ∧ (g.data 1024 ≠ 10 → data 1024 ≠ 10) := by
  have last := filled.last
  have room := filled.room
  have found : findEnd g.data g.last (g.last - lineStart) lineStart = lineStart + line.length :=
    findEnd_eq filled.holds whole (by omega) (by omega) (Or.inl last)
  have ahead : 0 < lineStart := Nat.pos_of_ne_zero behind
  have short : line.length < 2 ^ 32 := by omega
  obtain ⟨moved, others⟩ := strcpyFrom_moves short ahead (filled.holds.stringAt filled.plain)
  refine ⟨ece391Strcpy (Function.update g.data (lineStart + line.length) 0) 0 lineStart, ?_, ?_, fun clean => ?_⟩
  · rw [body]
    dsimp only
    rw [found, last, if_pos ⟨char, more, behind⟩, leave, if_neg more]
    have left : g.last - lineStart = line.length := by omega
    rw [left]
  · exact ⟨fun i inside => moved.chars i inside, by simp, by dsimp only; omega, filled.plain⟩
  · rw [ece391Strcpy, others 1024 (by omega), last]
    by_cases atEnd : g.last = 1024
    · rw [atEnd, Function.update_self]
      decide
    · rw [Function.update_of_ne (Ne.symm atEnd)]
      exact clean

/-- One pass over the buffer: all lines that end in it are searched, and what
stands behind the last newline is left. -/
theorem Filled.pass {front : List UInt8} (filled : Filled g lineStart (front ++ 10 :: line))
    (fname : Nat → UInt8) (pattern : stringAt s ≠ []) (more : cnt ≠ 0) :
    ∃ g', Leads (body s fname) (g, some (lineStart, cnt))
        (if line = [] then ({ g' with last := 0 }, none) else (g', some (lineStart + front.length + 1, cnt))) ∧
      g'.out = g.out ++ report (sought (stringAt s)) (stringAt fname) front ∧ g'.left = g.left ∧
      Filled g' (lineStart + front.length + 1) line ∧ g'.last = g.last ∧ g'.data 1024 = g.data 1024 := by
  induction length : front.length using Nat.strong_induction_on generalizing front g lineStart with
  | _ n ih =>
    subst length
    by_cases newline : 10 ∈ front
    · obtain ⟨first, front, rfl, whole⟩ := List.eq_append_cons_of_mem newline
      have split : first ++ 10 :: front ++ 10 :: line = first ++ 10 :: (front ++ 10 :: line) := by simp
      rw [split] at filled
      have goes := filled.body_line fname cnt pattern whole
      rw [if_neg (by simp)] at goes
      have last := filled.last
      have room := filled.room
      rw [List.length_append, List.length_cons] at last
      obtain ⟨g', leads, out, left, rest, same, far⟩ := ih front.length (by simp; omega) filled.next rfl
      have place : lineStart + (first ++ 10 :: front).length + 1 =
          lineStart + first.length + 1 + front.length + 1 := by simp; omega
      refine ⟨g', ?_, ?_, left, ?_, same, ?_⟩
      · rw [place]
        exact leads.next goes
      · rw [out, report_split, report_line whole, List.append_assoc]
      · rw [place]
        exact rest
      · rw [far]
        exact Function.update_of_ne (by omega) _ _
    · have goes := filled.body_line fname cnt pattern newline
      refine ⟨{ g with data := Function.update g.data (lineStart + front.length) 0,
                       out := g.out ++ reportLine (sought (stringAt s)) (stringAt fname) front }, ?_, ?_, rfl,
        filled.next, rfl, ?_⟩
      · refine (Leads.refl _).next (goes.trans ?_)
        split
        · rw [leave, if_neg more]
        · rfl
      · rw [report_line newline]
      · have last := filled.last
        have room := filled.room
        rw [List.length_append, List.length_cons] at last
        exact Function.update_of_ne (by omega) _ _

/-- The run from here on ends and prints this text. -/
def Prints (s fname : Nat → UInt8) (state : Grep × Option (Nat × Nat)) (text : List UInt8) : Prop :=
  ∃ r, Ends (body s fname) state r ∧ r.out = state.1.out ++ text

theorem Prints.leads {state state' : Grep × Option (Nat × Nat)} {first rest : List UInt8}
    (prints : Prints s fname state' rest) (leads : Leads (body s fname) state state')
    (out : state'.1.out = state.1.out ++ first) : Prints s fname state (first ++ rest) := by
  obtain ⟨r, ends, printed⟩ := prints
  exact ⟨r, leads r ends, by rw [printed, out, List.append_assoc]⟩

theorem filled_nil (last : g.last = 0) : Filled g 0 [] :=
  ⟨fun _ inside => absurd inside (Nat.not_lt_zero _), last.symm, by omega, List.not_mem_nil⟩

theorem read_end (left : g.left = []) : g.read = (g, 0) := by
  cases g
  cases left
  simp [read, storeList_nil]

/-- At the end of the file the line that was kept is searched. -/
theorem Filled.finish (filled : Filled g 0 line) (fname : Nat → UInt8) (pattern : stringAt s ≠ []) (whole : 10 ∉ line)
    (left : g.left = []) : Prints s fname (g, none) (report (sought (stringAt s)) (stringAt fname) line) := by
  have goes := filled.body_tail fname 0 pattern whole (Or.inr (Or.inl rfl))
  rw [leave, if_pos rfl] at goes
  have first : body s fname (g, none) = .inl (g, some (0, 0)) := by
    rw [body, read_end left]
  refine ⟨_, ((Ends.done goes).next first), ?_⟩
  rw [report_line whole]

/-- What is read is put behind what was kept. -/
theorem Filled.read (filled : Filled g 0 line) (plain : 0 ∉ g.left) :
    Filled g.read.1 0 (line ++ g.left.take (1024 - g.last)) where
  holds := by
    have last := filled.last
    have kept : Holds g.read.1.data 0 line :=
      filled.holds.congr fun x _ inside => storeList_before (by omega)
    refine kept.append fun i inside => ?_
    rw [last]
    exact storeList_within inside
  last := by
    have last := filled.last
    rw [List.length_append, ← Nat.add_assoc, last]
    rfl
  room := by
    have room := filled.room
    change g.last + (g.left.take (1024 - g.last)).length ≤ 1024
    rw [List.length_take]
    omega
  plain member := by
    rcases List.mem_append.mp member with kept | new
    · exact filled.plain kept
    · exact plain (List.mem_of_mem_take new)

/-- What is searched at the end of the buffer leaves it empty. -/
theorem Filled.searched (filled : Filled g lineStart line) (fname : Nat → UInt8) (pattern : stringAt s ≠ [])
    (whole : 10 ∉ line) (more : cnt ≠ 0) (complete : g.data g.last = 10 ∨ lineStart = 0) :
    ∃ g', Leads (body s fname) (g, some (lineStart, cnt)) (g', none) ∧
      g'.out = g.out ++ report (sought (stringAt s)) (stringAt fname) line ∧ g'.left = g.left ∧ g'.last = 0 ∧
      (g.last = 1024 → g'.data 1024 = 0) := by
  have goes := filled.body_tail fname cnt pattern whole (complete.imp_right Or.inr)
  rw [leave, if_neg more] at goes
  refine ⟨_, (Leads.refl _).next goes, by rw [report_line whole], rfl, rfl, fun full => ?_⟩
  dsimp only
  rw [full, Function.update_self]

/-- A line at the end of the last buffer is searched at once or in the round after. -/
theorem Filled.last_line (filled : Filled g lineStart line) (pattern : stringAt s ≠ []) (whole : 10 ∉ line)
    (more : cnt ≠ 0) (left : g.left = []) :
    Prints s fname (g, some (lineStart, cnt)) (report (sought (stringAt s)) (stringAt fname) line) := by
  by_cases complete : g.data g.last = 10 ∨ lineStart = 0
  · obtain ⟨g', leads, out, left', last, _⟩ := filled.searched fname pattern whole more complete
    have prints : Prints s fname (g', none) [] := by
      have ends := (filled_nil last).finish fname pattern List.not_mem_nil (left'.trans left)
      rwa [report_nil (sought_ne pattern)] at ends
    have printed := prints.leads leads out
    rwa [List.append_nil] at printed
  · rw [not_or] at complete
    obtain ⟨data, goes, moved, _⟩ := filled.body_move whole complete.1 more complete.2
    exact (moved.finish fname pattern whole left).leads ((Leads.refl _).next goes) (List.append_nil _).symm

/-- The last buffer of a file: whatever lies behind the bytes in the array,
all its lines are searched. -/
theorem Filled.lastBuffer (filled : Filled g 0 bytes) (pattern : stringAt s ≠ []) (more : cnt ≠ 0)
    (left : g.left = []) :
    Prints s fname (g, some (0, cnt)) (report (sought (stringAt s)) (stringAt fname) bytes) := by
  by_cases newline : 10 ∈ bytes
  · obtain ⟨front, line, rfl, whole⟩ := exists_last newline
    obtain ⟨g', leads, out, left', rest, _⟩ := filled.pass fname pattern more
    rw [report_split]
    by_cases done : line = []
    · rw [if_pos done] at leads
      rw [done]
      have empty : Filled { g' with last := 0 } 0 [] := filled_nil rfl
      exact (empty.finish fname pattern List.not_mem_nil (left'.trans left)).leads leads out
    · rw [if_neg done] at leads
      exact (rest.last_line pattern whole more (left'.trans left)).leads leads out
  · exact filled.last_line pattern newline more left

theorem read_cnt (room : g.last < 1024) (left : g.left ≠ []) : g.read.2 ≠ 0 := by
  have positive := List.length_pos_of_ne_nil left
  change (g.left.take (1024 - g.last)).length ≠ 0
  rw [List.length_take]
  omega

/-- The last round that reads something. -/
theorem Filled.lastRound (filled : Filled g 0 line) (fname : Nat → UInt8) (pattern : stringAt s ≠ [])
    (room : g.last < 1024) (plain : 0 ∉ g.left) (remains : g.left ≠ []) (all : g.left.drop (1024 - g.last) = []) :
    Prints s fname (g, none) (report (sought (stringAt s)) (stringAt fname) (line ++ g.left)) := by
  have filled' := filled.read plain
  rw [List.take_of_length_le (List.drop_eq_nil_iff.mp all)] at filled'
  have leads : Leads (body s fname) (g, none) (g.read.1, some (0, g.read.2)) := (Leads.refl _).next rfl
  exact (filled'.lastBuffer pattern (read_cnt room remains) all).leads leads (List.append_nil _).symm

/-- What a round that fills the buffer comes to: `tail` is the line at its end,
`front` what was searched before it, and `g'` the state then. -/
structure Refilled (s fname : Nat → UInt8) (g : Grep) (line front tail : List UInt8) (g' : Grep) : Prop where
  split : line ++ g.left.take (1024 - g.last) = front ++ 10 :: tail
  whole : 10 ∉ tail
  leads : Leads (body s fname) (g, none)
    (if tail = [] then ({ g' with last := 0 }, none) else (g', some (front.length + 1, g.read.2)))
  out : g'.out = g.out ++ report (sought (stringAt s)) (stringAt fname) front
  left : g'.left = g.left.drop (1024 - g.last)
  filled : Filled g' (front.length + 1) tail
  full : g'.last = 1024
  far : g'.data 1024 = g.data 1024

section Refilled

variable {g' : Grep} {front tail : List UInt8}

theorem Refilled.text (round : Refilled s fname g line front tail g') :
    line ++ g.left = front ++ 10 :: (tail ++ g'.left) := by
  rw [round.left, ← List.cons_append, ← List.append_assoc, ← round.split, List.append_assoc, List.take_append_drop]

theorem Refilled.fewer (round : Refilled s fname g line front tail g') (room : g.last < 1024) (left : g.left ≠ []) :
    g'.left.length < g.left.length := by
  have positive := List.length_pos_of_ne_nil left
  rw [round.left, List.length_drop]
  omega

theorem Refilled.plain (round : Refilled s fname g line front tail g') (plain : 0 ∉ g.left) : 0 ∉ g'.left := by
  rw [round.left]
  exact fun member => plain (List.mem_of_mem_drop member)

end Refilled

theorem Filled.refill (filled : Filled g 0 line) (fname : Nat → UInt8) (pattern : stringAt s ≠ [])
    (whole : 10 ∉ line) (plain : 0 ∉ g.left) (short : ShortLines (line ++ g.left))
    (beyond : g.left.drop (1024 - g.last) ≠ []) :
    ∃ front tail g', Refilled s fname g line front tail g' := by
  have last := filled.last
  have bound := (short.cut whole).1
  have behind := List.length_pos_of_ne_nil beyond
  rw [List.length_drop] at behind
  have taken : (g.left.take (1024 - g.last)).length = 1024 - g.last := by
    rw [List.length_take]
    omega
  have newline : 10 ∈ line ++ g.left.take (1024 - g.last) := by
    by_contra none
    have parts : line ++ g.left = line ++ g.left.take (1024 - g.last) ++ g.left.drop (1024 - g.last) := by
      rw [List.append_assoc, List.take_append_drop]
    rw [parts] at short
    have few := (short.cut none).1
    rw [List.length_append, taken] at few
    omega
  obtain ⟨front, tail, split, tailWhole⟩ := exists_last newline
  have filled' := filled.read plain
  rw [split] at filled'
  have left : g.left ≠ [] := by
    intro none
    simp [none] at beyond
  obtain ⟨g', leads, out, left', rest, last', far⟩ := filled'.pass fname pattern (read_cnt (by omega) left)
  rw [Nat.zero_add] at leads rest
  refine ⟨front, tail, g', ⟨split, tailWhole, leads.next rfl, out, left', rest, ?_, far.trans ?_⟩⟩
  · rw [last']
    change g.last + (g.left.take (1024 - g.last)).length = 1024
    rw [taken]
    omega
  · exact storeList_after (by rw [taken]; omega)

/-- When there is no newline behind the buffer to begin with, every line is searched. -/
theorem Filled.clean (filled : Filled g 0 line) (fname : Nat → UInt8) (pattern : stringAt s ≠ [])
    (whole : 10 ∉ line) (plain : 0 ∉ g.left) (short : ShortLines (line ++ g.left)) (clear : g.data 1024 ≠ 10) :
    Prints s fname (g, none) (report (sought (stringAt s)) (stringAt fname) (line ++ g.left)) := by
  induction length : g.left.length using Nat.strong_induction_on generalizing g line with
  | _ n ih =>
    have last := filled.last
    have bound := (short.cut whole).1
    have room : g.last < 1024 := by omega
    by_cases ended : g.left = []
    · rw [ended, List.append_nil]
      exact filled.finish fname pattern whole ended
    by_cases all : g.left.drop (1024 - g.last) = []
    · exact filled.lastRound fname pattern room plain ended all
    obtain ⟨front, tail, g', round⟩ := filled.refill fname pattern whole plain short all
    have leads := round.leads
    have fewer := round.fewer room ended
    rw [length] at fewer
    have plain' := round.plain plain
    have clear' : g'.data 1024 ≠ 10 := by rwa [round.far]
    rw [round.text, shortLines_split] at short
    rw [round.text, report_split]
    by_cases done : tail = []
    · rw [if_pos done] at leads
      rw [done] at short ⊢
      have empty : Filled { g' with last := 0 } 0 [] := filled_nil rfl
      exact (ih _ fewer empty List.not_mem_nil plain' short.2 clear' rfl).leads leads round.out
    · rw [if_neg done] at leads
      obtain ⟨data, goes, moved, kept⟩ := round.filled.body_move round.whole (by rwa [round.full])
        (read_cnt room ended) (Nat.succ_ne_zero _)
      have prints := ih _ fewer moved round.whole plain' short.2 (kept clear') rfl
      exact prints.leads (fun r ends => leads r (ends.next goes)) round.out

end Rounds

/-- The line of the file around the byte at `i`. -/
def lineAround (file : List UInt8) (i : Nat) : List UInt8 :=
  (file.take i).rtakeWhile (· != 10) ++ (file.drop i).takeWhile (· != 10)

/-- The first multiple of 1024 that does not follow a newline lies inside a
line with the pattern in it. -/
def SplitsMatch (pattern file : List UInt8) : Prop :=
  ∃ m, 1 ≤ m ∧ (∀ k, 1 ≤ k → k < m → file[1024 * k - 1]? = some 10) ∧ file[1024 * m - 1]? ≠ some 10 ∧
    1024 * m < file.length ∧ file[1024 * m]? ≠ some 10 ∧ pattern <:+: lineAround file (1024 * m)

section Straddle

variable {pattern fname front line rest : List UInt8}

theorem bne_newline (whole : 10 ∉ line) : ∀ c ∈ line, (c != 10) = true := by
  intro c member
  rw [bne_iff_ne]
  rintro rfl
  exact whole member

theorem takeWhile_whole (whole : 10 ∉ line) : line.takeWhile (· != 10) = line :=
  List.takeWhile_eq_self_iff.mpr (bne_newline whole)

theorem rtakeWhile_newline (whole : 10 ∉ line) : (front ++ 10 :: line).rtakeWhile (· != 10) = line := by
  have turned : (front ++ 10 :: line).reverse = line.reverse ++ 10 :: front.reverse := by simp
  have whole' : 10 ∉ line.reverse := fun member => whole (List.mem_reverse.mp member)
  rw [List.rtakeWhile, turned, List.takeWhile_append_of_pos (bne_newline whole'), List.takeWhile_cons_of_neg (by simp),
    List.append_nil, List.reverse_reverse]

theorem reportLine_cut_iff (nonempty : front ≠ []) (pattern_ne : pattern ≠ []) :
    reportLine pattern fname front ++ reportLine pattern fname rest = reportLine pattern fname (front ++ rest) ↔
      rest = [] ∨ ¬ pattern <:+: front ++ rest := by
  by_cases none : rest = []
  · rw [none, reportLine_nil pattern_ne, List.append_nil, List.append_nil]
    simp
  have fewer := List.length_pos_of_ne_nil nonempty
  have fewer' := List.length_pos_of_ne_nil none
  by_cases found : pattern <:+: front ++ rest
  · have differ : reportLine pattern fname front ++ reportLine pattern fname rest ≠
        reportLine pattern fname (front ++ rest) := by
      intro same
      have lengths := congrArg List.length same
      unfold reportLine at lengths
      rw [if_pos found, List.length_append] at lengths
      split at lengths <;> split at lengths <;>
        simp only [List.length_append, List.length_cons, List.length_nil] at lengths <;> omega
    exact ⟨fun same => absurd same differ, fun either => absurd found (either.resolve_left none)⟩
  · have first : ¬ pattern <:+: front := fun inside => found (inside.trans (List.prefix_append _ _).isInfix)
    have second : ¬ pattern <:+: rest := fun inside => found (inside.trans (List.suffix_append _ _).isInfix)
    simp [reportLine, found, first, second]

/-- The first line of a text, with what is printed for the others. -/
theorem report_first (pattern fname rest : List UInt8) : ∃ others, ∀ front, 10 ∉ front →
    report pattern fname (front ++ rest) =
      reportLine pattern fname (front ++ rest.takeWhile (· != 10)) ++ others := by
  by_cases newline : 10 ∈ rest
  · obtain ⟨line, after, rfl, whole⟩ := List.eq_append_cons_of_mem newline
    have first : (line ++ 10 :: after).takeWhile (· != 10) = line := by
      rw [List.takeWhile_append_of_pos (bne_newline whole), List.takeWhile_cons_of_neg (by simp), List.append_nil]
    refine ⟨report pattern fname after, fun front whole' => ?_⟩
    have line_whole : 10 ∉ front ++ line := List.not_mem_append whole' whole
    rw [first, ← List.append_assoc, report_split, report_line line_whole]
  · refine ⟨[], fun front whole' => ?_⟩
    have line_whole : 10 ∉ front ++ rest := List.not_mem_append whole' newline
    rw [takeWhile_whole newline, report_line line_whole, List.append_nil]

/-- A line that is printed in two pieces shows exactly when the pattern is in it. -/
theorem report_cut_iff (whole : 10 ∉ front) (nonempty : front ≠ []) (pattern_ne : pattern ≠ []) :
    reportLine pattern fname front ++ report pattern fname rest = report pattern fname (front ++ rest) ↔
      rest.takeWhile (· != 10) = [] ∨ ¬ pattern <:+: front ++ rest.takeWhile (· != 10) := by
  obtain ⟨others, first⟩ := report_first pattern fname rest
  have alone := first [] List.not_mem_nil
  rw [List.nil_append, List.nil_append] at alone
  rw [alone, first front whole, ← List.append_assoc, List.append_left_inj]
  exact reportLine_cut_iff nonempty pattern_ne

theorem takeWhile_nonempty : rest.takeWhile (· != 10) ≠ [] ↔ 0 < rest.length ∧ rest[0]? ≠ some 10 := by
  cases rest with
  | nil => simp
  | cons c rest =>
    by_cases newline : c = 10
    · simp [newline]
    · simp [newline]

theorem getElem?_behind {block : List UInt8} (rest : List UInt8) (size : block.length = 1024) (i : Nat) :
    (block ++ rest)[1024 + i]? = rest[i]? := by
  rw [List.getElem?_append_right (by omega), size, Nat.add_sub_cancel_left]

/-- The first boundary decides when it does not follow a newline. -/
theorem splitsMatch_cut {block : List UInt8} (pattern rest : List UInt8) (size : block.length = 1024)
    (split : block = front ++ 10 :: line) (whole : 10 ∉ line) (nonempty : line ≠ []) :
    SplitsMatch pattern (block ++ rest) ↔
      rest.takeWhile (· != 10) ≠ [] ∧ pattern <:+: line ++ rest.takeWhile (· != 10) := by
  have positive := List.length_pos_of_ne_nil nonempty
  have around : lineAround (block ++ rest) 1024 = line ++ rest.takeWhile (· != 10) := by
    rw [lineAround, ← size, List.take_left, List.drop_left, split, rtakeWhile_newline whole]
  have length : (block ++ rest).length = 1024 + rest.length := by rw [List.length_append, size]
  have last : (block ++ rest)[1023]? ≠ some 10 := by
    have long : front.length + (line.length + 1) = 1024 := by
      rw [← size, split, List.length_append, List.length_cons]
    have place : 1023 - front.length = line.length - 1 + 1 := by omega
    rw [List.getElem?_append_left (by omega), split, List.getElem?_append_right (by omega), place,
      List.getElem?_cons_succ]
    exact fun newline => whole (List.mem_of_getElem? newline)
  have next := getElem?_behind rest size 0
  rw [takeWhile_nonempty]
  constructor
  · rintro ⟨m, first, before, _, inside, char, found⟩
    obtain rfl : m = 1 := by
      by_contra later
      exact last (before 1 le_rfl (by omega))
    rw [Nat.mul_one] at inside char found
    rw [around] at found
    rw [length] at inside
    exact ⟨⟨by omega, fun newline => char (next.trans newline)⟩, found⟩
  · rintro ⟨⟨more, char⟩, found⟩
    refine ⟨1, le_rfl, fun k one below => by omega, last, ?_, fun newline => char (next.symm.trans newline), ?_⟩
    · rw [length]
      omega
    · rw [Nat.mul_one, around]
      exact found

theorem lineAround_behind {block : List UInt8} (size : block.length = 1024) (split : block = front ++ [10])
    (i : Nat) : lineAround (block ++ rest) (1024 + i) = lineAround rest i := by
  have start : (block ++ rest.take i).rtakeWhile (· != 10) = (rest.take i).rtakeWhile (· != 10) := by
    by_cases newline : 10 ∈ rest.take i
    · obtain ⟨before, after, parts, whole⟩ := exists_last newline
      rw [parts, rtakeWhile_newline whole, ← List.append_assoc, rtakeWhile_newline whole]
    · have alone : (rest.take i).rtakeWhile (· != 10) = rest.take i := by
        rw [List.rtakeWhile, takeWhile_whole (by simpa using newline), List.reverse_reverse]
      rw [alone, split, List.append_assoc]
      exact rtakeWhile_newline newline
  rw [lineAround, lineAround, ← size, List.take_length_add_append, List.drop_length_add_append, start]

/-- A block that ends in a newline moves the question to the rest of the file. -/
theorem splitsMatch_shift {block : List UInt8} (pattern rest : List UInt8) (size : block.length = 1024)
    (split : block = front ++ [10]) : SplitsMatch pattern (block ++ rest) ↔ SplitsMatch pattern rest := by
  have length : (block ++ rest).length = 1024 + rest.length := by rw [List.length_append, size]
  have last : (block ++ rest)[1023]? = some 10 := by
    have long : front.length = 1023 := by
      rw [split] at size
      simpa using size
    rw [List.getElem?_append_left (by omega), split, List.getElem?_append_right (by omega), long]
    rfl
  have before (k : Nat) (one : 1 ≤ k) : (block ++ rest)[1024 * (k + 1) - 1]? = rest[1024 * k - 1]? := by
    have place : 1024 * (k + 1) - 1 = 1024 + (1024 * k - 1) := by omega
    rw [place, getElem?_behind rest size]
  have next (k : Nat) : 1024 * (k + 1) = 1024 + 1024 * k := by omega
  constructor
  · rintro ⟨m, first, newlines, cut, inside, char, found⟩
    have later : m ≠ 1 := by
      rintro rfl
      exact cut last
    obtain ⟨m, rfl⟩ : ∃ k, m = k + 1 := ⟨m - 1, by omega⟩
    rw [before m (by omega)] at cut
    rw [next] at inside char found
    rw [getElem?_behind rest size] at char
    rw [lineAround_behind size split] at found
    refine ⟨m, by omega, fun k one below => ?_, cut, by omega, char, found⟩
    rw [← before k one]
    exact newlines (k + 1) (by omega) (by omega)
  · rintro ⟨m, first, newlines, cut, inside, char, found⟩
    refine ⟨m + 1, by omega, fun k one below => ?_, ?_, ?_, ?_, ?_⟩
    · by_cases only : k = 1
      · rw [only]
        exact last
      · obtain ⟨k, rfl⟩ : ∃ j, k = j + 1 := ⟨k - 1, by omega⟩
        rw [before k (by omega)]
        exact newlines k (by omega) (by omega)
    · rwa [before m first]
    · rw [length]
      omega
    · rwa [next, getElem?_behind rest size]
    · rwa [next, lineAround_behind size split]

end Straddle

section Rounds

variable {s fname : Nat → UInt8} {g : Grep}

theorem splitsMatch_short {pattern file : List UInt8} (short : file.length ≤ 1024) : ¬ SplitsMatch pattern file := by
  rintro ⟨m, first, _, _, inside, _⟩
  omega

/-- With a newline behind the buffer, the line at the end of the first full
buffer that does not end in one is printed in two pieces. -/
theorem stale_prints (fname : Nat → UInt8) (empty : g.last = 0) (pattern : stringAt s ≠ []) (plain : 0 ∉ g.left)
    (short : ShortLines g.left) (stale : g.data 1024 = 10) :
    ∃ text, Prints s fname (g, none) text ∧
      (text = report (sought (stringAt s)) (stringAt fname) g.left ↔ ¬ SplitsMatch (sought (stringAt s)) g.left) := by
  induction length : g.left.length using Nat.strong_induction_on generalizing g with
  | _ n ih =>
    have filled := filled_nil empty
    by_cases ended : g.left = []
    · refine ⟨_, filled.finish fname pattern List.not_mem_nil ended, ?_⟩
      rw [ended]
      exact iff_of_true rfl (splitsMatch_short (by simp))
    by_cases all : g.left.drop (1024 - g.last) = []
    · refine ⟨_, filled.lastRound fname pattern (by omega) plain ended all, ?_⟩
      rw [List.drop_eq_nil_iff] at all
      exact iff_of_true rfl (splitsMatch_short (by omega))
    obtain ⟨front, tail, g', round⟩ := filled.refill fname pattern List.not_mem_nil plain short all
    have leads := round.leads
    have split := round.split
    have left := round.left
    have text := round.text
    have fewer := round.fewer (by omega) ended
    have plain' := round.plain plain
    rw [length] at fewer
    rw [empty, Nat.sub_zero] at all left
    rw [empty, Nat.sub_zero, List.nil_append] at split
    rw [List.nil_append] at text
    have behind := List.length_pos_of_ne_nil all
    rw [List.length_drop] at behind
    have size : (g.left.take 1024).length = 1024 := by
      rw [List.length_take]
      omega
    have parts : g.left = g.left.take 1024 ++ g'.left := by rw [left, List.take_append_drop]
    rw [text, shortLines_split] at short
    by_cases done : tail = []
    · rw [if_pos done] at leads
      rw [done] at short split text
      obtain ⟨printed, prints, exact_when⟩ :=
        ih _ fewer (g := { g' with last := 0 }) rfl plain' short.2 (round.far.trans stale) rfl
      refine ⟨_, prints.leads leads round.out, ?_⟩
      have shift := splitsMatch_shift (sought (stringAt s)) g'.left size split
      rw [← parts] at shift
      rw [shift, ← exact_when, text, report_split]
      exact List.append_right_inj _
    · rw [if_neg done] at leads
      obtain ⟨g2, leads2, out2, left2, last2, clear⟩ :=
        round.filled.searched fname pattern round.whole (read_cnt (by omega) ended)
          (Or.inl (by rw [round.full, round.far, stale]))
      rw [← left2] at plain' parts text short
      have clear' : g2.data 1024 ≠ 10 := by
        rw [clear round.full]
        decide
      have prints := (filled_nil last2).clean fname pattern List.not_mem_nil plain' (short.2.cut round.whole).2 clear'
      refine ⟨_, (prints.leads leads2 out2).leads leads round.out, ?_⟩
      have cut := splitsMatch_cut (sought (stringAt s)) g2.left size split round.whole done
      rw [← parts] at cut
      rw [cut, text, report_split, List.append_right_inj, report_line round.whole, not_and_or, not_not]
      exact report_cut_iff round.whole done (sought_ne pattern)

end Rounds

end Grep

/-- The one result of `do_one_file`, with the condition for it to be what is sought. -/
theorem doOneFile_sought {file : List UInt8} {s : Nat → UInt8} (fname data : Nat → UInt8) (plain : 0 ∉ file)
    (short : Grep.ShortLines file) (pattern : stringAt s ≠ []) :
    ∃ text, (∃ fuel, doOneFile fuel s fname data (some file) = some (text, 0)) ∧
      (∀ fuel r, doOneFile fuel s fname data (some file) = some r → r = (text, 0)) ∧
      (text = Grep.report (Grep.sought (stringAt s)) (stringAt fname) file ↔
        data 1024 ≠ 10 ∨ ¬ Grep.SplitsMatch (Grep.sought (stringAt s)) file) := by
  have printed : ∃ text, Grep.Prints s fname (⟨data, 0, file, []⟩, none) text ∧
      (text = Grep.report (Grep.sought (stringAt s)) (stringAt fname) file ↔
        data 1024 ≠ 10 ∨ ¬ Grep.SplitsMatch (Grep.sought (stringAt s)) file) := by
    by_cases stale : data 1024 = 10
    · obtain ⟨text, prints, exact_when⟩ :=
        Grep.stale_prints (g := ⟨data, 0, file, []⟩) fname rfl pattern plain short stale
      exact ⟨text, prints, exact_when.trans (by simp [stale])⟩
    · have filled : Grep.Filled ⟨data, 0, file, []⟩ 0 [] := Grep.filled_nil rfl
      exact ⟨_, filled.clean fname pattern List.not_mem_nil plain short stale, iff_of_true rfl (Or.inl stale)⟩
  obtain ⟨text, ⟨r, ends, out⟩, exact_when⟩ := printed
  rw [List.nil_append] at out
  refine ⟨text, ?_, fun fuel result done => ?_, exact_when⟩
  · obtain ⟨fuel, done⟩ := ends
    exact ⟨fuel, by rw [doOneFile, done, ← out]; rfl⟩
  · obtain ⟨r', done', rfl⟩ := Option.map_eq_some_iff.mp done
    rw [ends.unique done', out]

/-- No boundary cuts a match of a pattern with a character which is not in the file. -/
theorem Grep.splitsMatch_absent {pattern file : List UInt8} {c : UInt8} (char : c ∈ pattern) (absent : c ∉ file) :
    ¬ SplitsMatch pattern file := by
  rintro ⟨m, _, _, _, _, _, found⟩
  rcases List.mem_append.mp (found.subset char) with front | back
  · have taken : c ∈ file.take (1024 * m) := (List.rtakeWhile_suffix _ _).subset front
    exact absent (List.mem_of_mem_take taken)
  · have dropped : c ∈ file.drop (1024 * m) := (List.takeWhile_sublist _).subset back
    exact absent (List.mem_of_mem_drop dropped)

/-- What is printed is right when it is what is sought, unless a match is
lost because of the sign of its first character. -/
theorem doOneFile_prints {file : List UInt8} {s : Nat → UInt8} (fname data : Nat → UInt8) (plain : 0 ∉ file)
    (short : Grep.ShortLines file) (pattern : stringAt s ≠ []) :
    ∃ text, (∃ fuel, doOneFile fuel s fname data (some file) = some (text, 0)) ∧
      (∀ fuel r, doOneFile fuel s fname data (some file) = some r → r = (text, 0)) ∧
      (text = Grep.report (stringAt s) (stringAt fname) file ↔
        if s 0 < 0x80 then data 1024 ≠ 10 ∨ ¬ Grep.SplitsMatch (stringAt s) file
        else ∀ line ∈ file.splitOn 10, ¬ stringAt s <:+: line) := by
  obtain ⟨text, ends, only, exact_when⟩ := doOneFile_sought fname data plain short pattern
  refine ⟨text, ends, only, ?_⟩
  rw [← Grep.stringAt_head pattern]
  by_cases small : (stringAt s).headD 0 < 0x80
  · rw [Grep.sought, if_pos small] at exact_when
    rwa [if_pos small]
  · rw [Grep.sought, if_neg small] at exact_when
    have zero : (0 : UInt8) ∈ [0] := List.mem_singleton_self 0
    have nothing : text = [] :=
      (exact_when.mpr (Or.inr (Grep.splitsMatch_absent zero plain))).trans (Grep.report_absent _ zero plain)
    rw [if_neg small, nothing, eq_comm]
    exact Grep.report_eq_nil

/-- `do_one_file` always comes to an end. It prints the lines with the pattern
in them and nothing else exactly when the first character of the pattern is
below 0x80, and the byte behind the buffer is no newline on entry or the line
across the first boundary that cuts one does not match, or when that character
is not and no line matches. -/
theorem grep_reports {file : List UInt8} {s fname data : Nat → UInt8} (plain : 0 ∉ file)
    (short : ∀ line ∈ file.splitOn 10, line.length ≤ 1023) (pattern : stringAt s ≠ []) :
    (∃ fuel text, doOneFile fuel s fname data (some file) = some (text, 0)) ∧
      ∀ fuel text ret, doOneFile fuel s fname data (some file) = some (text, ret) →
        ret = 0 ∧ (text = Grep.report (stringAt s) (stringAt fname) file ↔
          if s 0 < 0x80 then data 1024 ≠ 10 ∨ ¬ Grep.SplitsMatch (stringAt s) file
          else ∀ line ∈ file.splitOn 10, ¬ stringAt s <:+: line) := by
  obtain ⟨text, ⟨fuel, done⟩, only, exact_when⟩ := doOneFile_prints fname data plain short pattern
  refine ⟨⟨fuel, text, done⟩, fun fuel' text' ret done' => ?_⟩
  cases only fuel' _ done'
  exact ⟨rfl, exact_when⟩

/-- The pattern `b` in the lines `ab` and `b`, the last one without a newline. -/
theorem grep_reports_sample : ∃ fuel, doOneFile fuel (cString [98]) (cString [102]) (fun _ => 0)
    (some [97, 98, 10, 98]) = some ([102, 58, 97, 98, 10, 102, 58, 98, 10], 0) := by
  have pattern : stringAt (cString [98]) = [98] := stringAt_cString (by decide) (by simp)
  have fname : stringAt (cString [102]) = [102] := stringAt_cString (by decide) (by simp)
  have short : ∀ line ∈ ([97, 98, 10, 98] : List UInt8).splitOn 10, line.length ≤ 1023 := by decide
  obtain ⟨⟨fuel, text, done⟩, exact_when⟩ :=
    @grep_reports [97, 98, 10, 98] (cString [98]) (cString [102]) (fun _ => 0) (by decide) short
      (by rw [pattern]; decide)
  have printed := (exact_when fuel text 0 done).2.mpr (by rw [if_pos (by decide)]; exact Or.inl (by decide))
  rw [pattern, fname] at printed
  refine ⟨fuel, ?_⟩
  rw [done, printed]
  rfl

/-- A line of 24 bytes with the pattern at its end, cut after the 23rd by the boundary. -/
def cutFile : List UInt8 := List.replicate 1000 97 ++ 10 :: (List.replicate 23 98 ++ [99])

/-- With a newline behind the array the line is searched in two pieces, and the
pattern is in neither. -/
theorem grep_misses : ¬ ∀ (file : List UInt8) (s fname data : Nat → UInt8), 0 ∉ file →
    (∀ line ∈ file.splitOn 10, line.length ≤ 1023) → stringAt s ≠ [] → 10 ∉ stringAt s →
    ∃ fuel, doOneFile fuel s fname data (some file) =
      some (Grep.report (stringAt s) (stringAt fname) file, 0) := by
  intro always
  have pattern : stringAt (cString [98, 99]) = [98, 99] := stringAt_cString (by decide) (by simp)
  have plain : 0 ∉ cutFile := by
    simp only [cutFile, List.mem_append, List.mem_cons, List.not_mem_nil, List.mem_replicate]
    decide
  have short : Grep.ShortLines cutFile := by
    refine Grep.shortLines_split.mpr ⟨Grep.shortLines_whole ?_ ?_, Grep.shortLines_whole (by decide) (by decide)⟩
    · rw [List.mem_replicate]
      decide
    · rw [List.length_replicate]
      decide
  have pattern_ne : stringAt (cString [98, 99]) ≠ [] := by
    rw [pattern]
    decide
  obtain ⟨fuel, done⟩ := always cutFile (cString [98, 99]) (cString [102]) (fun _ => 10) plain short pattern_ne
    (by rw [pattern]; decide)
  obtain ⟨text, _, only, exact_when⟩ := doOneFile_prints _ _ plain short pattern_ne
  obtain ⟨printed, _⟩ := Prod.mk.inj (only fuel _ done)
  have right := exact_when.mp printed.symm
  rw [if_pos (by decide)] at right
  rcases right with clear | apart
  · exact clear rfl
  refine apart ?_
  have size : (List.replicate 1000 97 ++ 10 :: List.replicate 23 98 : List UInt8).length = 1024 := by
    rw [List.length_append, List.length_replicate]
    rfl
  have block : cutFile = (List.replicate 1000 97 ++ 10 :: List.replicate 23 98) ++ [99] := by
    rw [List.append_assoc]
    rfl
  rw [block, pattern]
  refine (Grep.splitsMatch_cut [98, 99] [99] size rfl (by decide) (by decide)).mpr ⟨by decide, ?_⟩
  exact ⟨List.replicate 22 98, [], by decide⟩

end UnixLite
