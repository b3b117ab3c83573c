import UnixLite.UserPrograms

namespace UnixLite

open Transition Store Program

/-- `buf[cnt] = '\0'` behind a read of `cnt` bytes. -/
def terminated (junk : Nat → UInt8) (r : Answer) : Nat → UInt8 :=
  Function.update (storeList junk 0 r.2) r.1.toNat 0

theorem terminated_stringAt {typed : List UInt8} (whole : Shell.Typed typed) (junk : Nat → UInt8) :
    StringAt (terminated junk ((typed.length : Int) + 1, typed ++ [10])) 0 (typed ++ [10]) := by
  have plain : ∀ c ∈ typed ++ [10], c ≠ 0 := by
    intro c member
    rcases List.mem_append.mp member with inside | last
    · rintro rfl
      exact whole.noNul inside
    · rw [List.mem_singleton.mp last]
      decide
  obtain ⟨holds, _⟩ := stringAt_stored plain ⟨junk, []⟩ 0
  have place : ((typed.length : Int) + 1).toNat = 0 + (typed ++ [10]).length := by
    rw [List.length_append, List.length_singleton]
    omega
  rw [terminated, place]
  simpa only [Buffer.set, Buffer.store_cells] using holds

theorem range_split {n i : Nat} {made rest : List Nat} (split : List.range n = made ++ i :: rest) :
    i = made.length ∧ made.length < n := by
  obtain ⟨place, less⟩ := round_place split
  rw [List.length_range] at less
  rw [List.getElem?_range less, Option.some.injEq] at place
  exact ⟨place.symm, less⟩

namespace Hello

def promptText : List UInt8 := ascii "Hi, what's your name? "

/-- `main` of ece391hello.c -/
def main (a : Addresses) (junk : Nat → UInt8) : UserProgram Int :=
  tell a.text (cString promptText) >>= fun _ =>
  ask (.sys (.read 0 a.buf 1023)) >>= fun r =>
    if -1 = r.1 then tell a.text (cString (ascii "Can't read name from keyboard.\n")) >>= fun _ => pure 3
    else
      tell a.text (cString (ascii "Hello, ")) >>= fun _ => tell a.buf (terminated junk r) >>= fun _ => pure 0

def expected (line : Option (List UInt8)) : List UInt8 :=
  promptText ++
    match line with
    | none => []
    | some bytes => ascii "Hello, " ++ bytes

end Hello

namespace Counter

def promptText : List UInt8 := ascii "Enter the Test Number: (0): 100, (1): 10000, (2): 100000\n"

def wrongText : List UInt8 := ascii "Wrong Choice!\n"

/-- `switch (buf[0])`: `max` behind it. -/
def max (c : UInt8) : Nat := if c = 48 then 100 else if c = 49 then 10000 else if c = 50 then 100000 else 0

/-- One round of the counting loop, with the array as it is. The 33 rounds
that `ece391_itoa` has are enough for every word. -/
def count (a : Addresses) (cells : Nat → UInt8) (i : Nat) : UserProgram (Nat → UInt8) :=
  match ece391Itoa 33 (BitVec.ofNat 32 (i + 1)) ⟨cells, []⟩ 0 10 with
  | none => pure cells
  | some b => tell a.buf b.cells >>= fun _ => tell a.text (cString [10]) >>= fun _ => pure b.cells

/-- `main` of ece391counter.c behind the read. -/
def chosen (a : Addresses) (buf : Nat → UInt8) : UserProgram Int :=
  if ece391Strlen buf > 2 ∨ ece391Strlen buf = 2 ∧ (buf 0 < 48 ∨ buf 0 > 50) then
    tell a.text (cString wrongText) >>= fun _ => pure 0
  else rounds (List.range (max (buf 0))) (count a) buf >>= fun _ => pure 0

def main (a : Addresses) (junk : Nat → UInt8) : UserProgram Int :=
  tell a.text (cString promptText) >>= fun _ =>
  ask (.sys (.read 0 a.buf 1023)) >>= fun r =>
    if -1 = r.1 then
      tell a.text (cString (ascii "Can't read the number from keyboard.\n")) >>= fun _ => pure 3
    else chosen a (terminated junk r)

/-- The numbers from 1 on, one in each line. -/
def countTo (n : Nat) : List UInt8 := (List.range n).flatMap fun i => numeral 10 (i + 1) ++ [10]

/-- What is to be printed for a line. -/
def report (line : List UInt8) : List UInt8 :=
  if line = [10] then []
  else if line = [48, 10] then countTo 100
  else if line = [49, 10] then countTo 10000
  else if line = [50, 10] then countTo 100000
  else wrongText

def expected (line : Option (List UInt8)) : List UInt8 :=
  promptText ++
    match line with
    | none => []
    | some bytes => report bytes

theorem max_le (c : UInt8) : max c ≤ 100000 := by
  unfold max
  split <;> (try split) <;> (try split) <;> omega

theorem countTo_succ (n : Nat) : countTo (n + 1) = countTo n ++ (numeral 10 (n + 1) ++ [10]) := by
  simp [countTo, List.range_succ]

theorem countTo_begins {m n : Nat} (below : m ≤ n) : countTo m <+: countTo n := by
  induction n, below using Nat.le_induction with
  | base => exact List.prefix_rfl
  | succ n _ ih =>
    rw [countTo_succ]
    exact ih.trans (List.prefix_append _ _)

/-- Whether a line is refused, and what is counted to otherwise. -/
theorem report_cases {typed : List UInt8} {buf : Nat → UInt8} (holds : StringAt buf 0 (typed ++ [10]))
    (short : typed.length < 128) :
    ((ece391Strlen buf > 2 ∨ ece391Strlen buf = 2 ∧ (buf 0 < 48 ∨ buf 0 > 50)) ∧ report (typed ++ [10]) = wrongText) ∨
    (¬ (ece391Strlen buf > 2 ∨ ece391Strlen buf = 2 ∧ (buf 0 < 48 ∨ buf 0 > 50)) ∧
      report (typed ++ [10]) = countTo (max (buf 0))) := by
  have length : ece391Strlen buf = (typed ++ [10]).length := by
    have same : ece391Strlen (fun i => buf (0 + i)) = (typed ++ [10]).length := holds.strlen_eq (by simp; omega)
    simpa only [Nat.zero_add] using same
  have nonempty : 0 < (typed ++ [10]).length := by simp
  have first : buf 0 = (typed ++ [10])[0] := holds.chars 0 nonempty
  rw [length, first]
  match typed with
  | [] => exact Or.inr ⟨by simp, rfl⟩
  | [c] =>
    have choice (d : UInt8) : ([c] ++ [10] = [d, 10]) ↔ c = d := by simp
    by_cases outside : c < 48 ∨ c > 50
    · refine Or.inl ⟨Or.inr ⟨rfl, outside⟩, ?_⟩
      have other (d : UInt8) (inside : 48 ≤ d ∧ d ≤ 50) : c ≠ d := by
        rintro rfl
        rcases outside with below | above
        · exact absurd below (UInt8.not_lt.mpr inside.1)
        · exact absurd above (UInt8.not_lt.mpr inside.2)
      rw [report, if_neg (by simp), if_neg (mt (choice 48).mp (other 48 (by decide))),
        if_neg (mt (choice 49).mp (other 49 (by decide))), if_neg (mt (choice 50).mp (other 50 (by decide)))]
    · refine Or.inr ⟨fun refused => ?_, ?_⟩
      · rcases refused with longer | ⟨_, refused⟩
        · simp at longer
        · exact outside refused
      · have digit : c = 48 ∨ c = 49 ∨ c = 50 := by
          rw [not_or, UInt8.not_lt, gt_iff_lt, UInt8.not_lt, UInt8.le_iff_toNat_le, UInt8.le_iff_toNat_le] at outside
          simp only [← UInt8.toNat_inj]
          have values : (48 : UInt8).toNat = 48 ∧ (49 : UInt8).toNat = 49 ∧ (50 : UInt8).toNat = 50 := by decide
          omega
        rcases digit with rfl | rfl | rfl
        · rw [report, if_neg (by simp), if_pos (by simp)]
          rfl
        · rw [report, if_neg (by simp), if_neg (by simp), if_pos (by simp)]
          rfl
        · rw [report, if_neg (by simp), if_neg (by simp), if_neg (by simp), if_pos (by simp)]
          rfl
  | c :: d :: rest =>
    refine Or.inl ⟨Or.inl (by simp), ?_⟩
    have longer (l : List UInt8) (pair : l.length ≤ 2) : c :: d :: rest ++ [10] ≠ l := by
      rintro rfl
      simp at pair
    rw [report, if_neg (longer _ (by simp)), if_neg (longer _ (by simp)), if_neg (longer _ (by simp)),
      if_neg (longer _ (by simp))]

end Counter

section Programs

variable {fs : FsImage} {p : Int} {k : Kernel} {calls : List (UserCall × Answer)}

theorem Hello.main_yields (addr : Addresses) (junk : Nat → UInt8) (here : Equipped p (fun _ => false) k) :
    Does fs p Hello.expected (Hello.main addr junk) (fun v calls _ => v = 0 ∧ ∃ typed, Shell.Typed typed ∧
      Told calls (Hello.expected (some (typed ++ [10]))) (some (typed ++ [10]))) [] k := by
  refine here.prompts addr (by decide) (by decide) (by decide) (List.prefix_append _ _)
    (fun _ _ => List.prefix_append _ _) fun typed calls k whole told here => ?_
  rw [if_neg (by omega)]
  have greeting : Hello.promptText ++ ascii "Hello, " <+: Hello.expected (some (typed ++ [10])) := by
    rw [Hello.expected, ← List.append_assoc]
    exact List.prefix_append _ _
  have hello : stringAt (cString (ascii "Hello, ")) = ascii "Hello, " := stringAt_cString (by decide) (by decide)
  refine (told.tells here addr.text_ne hello (by decide) greeting).bind fun _ calls k ⟨told, here⟩ => ?_
  have short := whole.short
  have name : stringAt (terminated junk ((typed.length : Int) + 1, typed ++ [10])) = typed ++ [10] :=
    (terminated_stringAt whole junk).string (by simp; omega)
  have all : Hello.expected (some (typed ++ [10])) = Hello.promptText ++ ascii "Hello, " ++ (typed ++ [10]) :=
    (List.append_assoc _ _ _).symm
  refine (told.tells here addr.buf_ne name (by simp; omega) (by rw [all])).bind fun _ calls k ⟨told, here⟩ => ?_
  rw [← all] at told
  exact Yields.ret (told.shows List.prefix_rfl) ⟨rfl, typed, whole, told⟩ fun _ _ holds _ => holds

theorem Hello.main_atMost (addr : Addresses) (junk : Nat → UInt8) : AtMost 4 (Hello.main addr junk) := by
  refine AtMost.bind (m := 1) (n := 3) (AtMost.ask _) fun _ => AtMost.bind (m := 1) (n := 2) (AtMost.ask _) fun r => ?_
  split
  · exact (tell_atMost _ _ _).le (by decide)
  · exact AtMost.bind (m := 1) (n := 1) (AtMost.ask _) fun _ => tell_atMost _ _ _

namespace Counter

variable {before : List UInt8} {line : Option (List UInt8)} (addr : Addresses)

/-- One number. -/
theorem count_yields {i : Nat} {cells : Nat → UInt8} (word : i + 1 < 2 ^ 32)
    (fits : before ++ (numeral 10 (i + 1) ++ [10]) <+: expected line) (told : Told calls before line)
    (here : Equipped p (fun _ => false) k) :
    Does fs p expected (count addr cells i) (fun _ calls k =>
      Told calls (before ++ (numeral 10 (i + 1) ++ [10])) line ∧ Equipped p (fun _ => false) k) calls k := by
  obtain ⟨b, _, run, converted⟩ := itoa_converts (Nat.le_refl 33) 10 (by decide) (by decide)
    (BitVec.ofNat 32 (i + 1)) ⟨cells, []⟩ 0
  have value : (BitVec.ofNat 32 (i + 1)).toNat = i + 1 := by
    rw [BitVec.toNat_ofNat, Nat.mod_eq_of_lt word]
  have string := converted.string
  rw [value] at string
  have length := (numeral_length (show 2 ≤ 10 by decide) word).2
  rw [← List.append_assoc] at fits ⊢
  have number : stringAt b.cells = numeral 10 (i + 1) := string.string (length.trans (by decide))
  have newline : stringAt (cString [10]) = [10] := stringAt_cString (by decide) (by decide)
  rw [count, run]
  refine (told.tells here addr.buf_ne number (by omega) ((List.prefix_append _ _).trans fits)).bind
    fun _ calls k ⟨told, here⟩ => ?_
  refine (told.tells here addr.text_ne newline (by decide) fits).bind fun _ calls k ⟨told, here⟩ => ?_
  exact Yields.ret (told.shows fits) ⟨told, here⟩ fun _ _ ⟨told, here⟩ others => ⟨told, here.stable others⟩

/-- The numbers made so far. -/
theorem rounds_yields {n : Nat} {cells : Nat → UInt8} (word : n < 2 ^ 32)
    (fits : before ++ countTo n <+: expected line) (told : Told calls before line)
    (here : Equipped p (fun _ => false) k) :
    Does fs p expected (rounds (List.range n) (count addr) cells) (fun _ calls k =>
      Told calls (before ++ countTo n) line ∧ Equipped p (fun _ => false) k) calls k := by
  have begins (m : Nat) (below : m ≤ n) : before ++ countTo m <+: expected line :=
    ((List.prefix_append_right_inj before).mpr (countTo_begins below)).trans fits
  have start : before ++ countTo 0 = before := List.append_nil before
  have loop : Does fs p expected (rounds (List.range n) (count addr) cells) (fun _ calls k =>
      Told calls (before ++ countTo (List.range n).length) line ∧ Equipped p (fun _ => false) k) calls k := by
    refine Yields.rounds (I := fun made _ calls k => Told calls (before ++ countTo made.length) line ∧
      Equipped p (fun _ => false) k) (told.shows ?_) ⟨?_, here⟩
      (fun _ _ _ _ _ ⟨told, here⟩ others => ⟨told, here.stable others⟩)
      fun made i rest split cells calls k _ ⟨told, here⟩ => ?_
    · rw [← start]
      exact begins 0 (Nat.zero_le n)
    · rw [List.length_nil, start]
      exact told
    · obtain ⟨rfl, less⟩ := range_split split
      have next := begins (made.length + 1) less
      rw [countTo_succ, ← List.append_assoc] at next
      refine (count_yields addr (by omega) next told here).mono fun _ calls k ⟨told, here⟩ => ?_
      refine ⟨told.shows next, ?_, here⟩
      rw [List.length_append, List.length_singleton, countTo_succ, ← List.append_assoc]
      exact told
  rw [List.length_range] at loop
  exact loop

theorem main_yields (junk : Nat → UInt8) (here : Equipped p (fun _ => false) k) :
    Does fs p expected (main addr junk) (fun v calls _ => v = 0 ∧ ∃ typed, Shell.Typed typed ∧
      Told calls (expected (some (typed ++ [10]))) (some (typed ++ [10]))) [] k := by
  refine here.prompts addr (by decide) (by decide) (by decide) (List.prefix_append _ _)
    (fun _ _ => List.prefix_append _ _) fun typed calls k whole told here => ?_
  rw [if_neg (by omega)]
  have all : expected (some (typed ++ [10])) = promptText ++ report (typed ++ [10]) := rfl
  unfold chosen
  rcases report_cases (terminated_stringAt whole junk) whole.short with ⟨refused, report⟩ | ⟨taken, report⟩
  · rw [if_pos refused]
    rw [report] at all
    have wrong : stringAt (cString wrongText) = wrongText := stringAt_cString (by decide) (by decide)
    refine (told.tells here addr.text_ne wrong (by decide) (by rw [all])).bind fun _ calls k ⟨told, here⟩ => ?_
    rw [← all] at told
    exact Yields.ret (told.shows List.prefix_rfl) ⟨rfl, typed, whole, told⟩ fun _ _ holds _ => holds
  · rw [if_neg taken]
    rw [report] at all
    have bound := max_le (terminated junk ((typed.length : Int) + 1, typed ++ [10]) 0)
    refine (rounds_yields addr (by omega) (by rw [all]) told here).bind fun _ calls k ⟨told, here⟩ => ?_
    rw [← all] at told
    exact Yields.ret (told.shows List.prefix_rfl) ⟨rfl, typed, whole, told⟩ fun _ _ holds _ => holds

theorem count_atMost (cells : Nat → UInt8) (i : Nat) : AtMost 2 (count addr cells i) := by
  unfold count
  split
  · exact .ret 2 _
  · exact AtMost.bind (m := 1) (n := 1) (AtMost.ask _) fun _ => tell_atMost _ _ _

theorem main_atMost (junk : Nat → UInt8) : AtMost 200002 (main addr junk) := by
  refine AtMost.bind (m := 1) (n := 200001) (AtMost.ask _) fun _ =>
    AtMost.bind (m := 1) (n := 200000) (AtMost.ask _) fun r => ?_
  split
  · exact (tell_atMost _ _ _).le (by decide)
  · unfold chosen
    split
    · exact (tell_atMost _ _ _).le (by decide)
    · have loop := (AtMost.rounds (count_atMost addr) (List.range (max (terminated junk r 0)))
        (terminated junk r)).bind (n := 0) fun _ => .ret 0 (0 : Int)
      have bound := max_le (terminated junk r 0)
      rw [List.length_range] at loop
      exact loop.le (by omega)

end Counter

end Programs

/-- `hello` greets with the line that was typed, whatever it is. -/
theorem hello_greets {fs : FsImage} {k0 k1 k : Kernel} {act : Act} {eip : Word} (call : Step fs k0 (act, .entered eip) k1)
    (addr : Addresses) (junk : Nat → UInt8) {x : UserProgram Int}
    {history : List (Event (Kernel × UserProgram Int) (Option (UserCall × Answer)))}
    (run : Performs fs k1.curPid (k1, Hello.main addr junk) history (k, x)) :
    Fulfils fs k1.curPid Hello.expected 4 (asked history) k x :=
  .of_yields (Hello.main_yields addr junk (Equipped.entered call)) (Hello.main_atMost addr junk) run

end UnixLite
