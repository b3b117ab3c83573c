import UnixLite.UserPrograms

namespace UnixLite

open Transition Store Program

namespace Syserr

def negFd : Int := -1073741823

def bigFd : Int := 1073741823

/-- `if (-1 != call) { fail = 2; ece391_fdputs (1, message); }`. The state of a
test is `fail` with its array. -/
def expectFail (a : Addresses) (q : (Nat → UInt8) → UserCall) (message : List UInt8) (s : Int × (Nat → UInt8)) :
    UserProgram (Int × (Nat → UInt8)) :=
  ask (q s.2) >>= fun r =>
    if -1 ≠ r.1 then tell a.text (cString message) >>= fun _ => pure (2, storeList s.2 0 r.2)
    else pure (s.1, storeList s.2 0 r.2)

def passText (name : List UInt8) : List UInt8 := name ++ ascii ": PASS\n"

def failText (name : List UInt8) : List UInt8 := name ++ ascii ": FAIL\n"

/-- The end of a test. -/
def verdict (a : Addresses) (name : List UInt8) (s : Int × (Nat → UInt8)) : UserProgram Int :=
  if s.1 ≠ 0 then tell a.text (cString (failText name)) >>= fun _ => pure s.1
  else tell a.text (cString (passText name)) >>= fun _ => pure s.1

/-- The first two tests, with the descriptor that they try. -/
def errFd (fd : Int) (name : List UInt8) (a : Addresses) (junk : Nat → UInt8) : UserProgram Int :=
  expectFail a (fun _ => .sys (.read fd a.buf 31)) (ascii "read fail\n") (0, junk) >>=
    expectFail a (fun buf => .sys (.write fd a.buf buf 31)) (ascii "write fail\n") >>=
      expectFail a (fun _ => .sys (.close fd)) (ascii "close fail\n") >>= verdict a name

def errNegFd : Addresses → (Nat → UInt8) → UserProgram Int := errFd negFd (ascii "err_neg_fd")

def errBigFd : Addresses → (Nat → UInt8) → UserProgram Int := errFd bigFd (ascii "err_big_fd")

/-- The two loops of the third test: how often an open fails, and the closing. -/
def openLots : UserProgram Int :=
  rounds (List.range 7) (fun cnt _ => ask (.sys (.openFile (ascii "."))) >>= fun r =>
    pure (if -1 = r.1 then cnt + 1 else cnt)) 0

def closeLots : UserProgram Unit :=
  rounds [2, 3, 4, 5, 6, 7] (fun _ i => ask (.sys (.close i)) >>= fun _ => pure ()) ()

def errOpenLots (a : Addresses) : UserProgram Int :=
  openLots >>= fun cnt => closeLots >>= fun _ =>
    if cnt = 1 then tell a.text (cString (passText (ascii "err_open_lots"))) >>= fun _ => pure 0
    else tell a.text (cString (failText (ascii "err_open_lots"))) >>= fun _ => pure 2

def errOpen (a : Addresses) (junk : Nat → UInt8) : UserProgram Int :=
  expectFail a (fun _ => .sys (.openFile (ascii "helloo"))) (ascii "'helloo' fail\n") (0, junk) >>=
    expectFail a (fun _ => .sys (.openFile (ascii "shel"))) (ascii "'shel' fail\n") >>=
      expectFail a (fun _ => .sys (.openFile [])) (ascii "empty string fail\n") >>= verdict a (ascii "err_open")

def errUnopened (a : Addresses) (junk : Nat → UInt8) : UserProgram Int :=
  rounds [0, 1, 2, 3, 4, 5, 6, 7] (fun s i =>
    expectFail a (fun _ => .sys (.close i)) (ascii "close unopened or invalid fd fail\n") s) (0, junk) >>=
  rounds [2, 3, 4, 5, 6, 7] (fun s i =>
    expectFail a (fun _ => .sys (.read i a.buf 31)) (ascii "read from unopened fd fail\n") s) >>=
  rounds [2, 3, 4, 5, 6, 7] (fun s i =>
    expectFail a (fun buf => .sys (.write i a.buf buf 31)) (ascii "write to unopened fd fail\n") s) >>=
  verdict a (ascii "err_unopened")

def errVidmap (a : Addresses) (junk : Nat → UInt8) : UserProgram Int :=
  expectFail a (fun _ => .vidmap 0) (ascii "Null pointer fail\n") (0, junk) >>=
    expectFail a (fun _ => .vidmap 0x400000) (ascii "Kernel pointer fail fail\n") >>= verdict a (ascii "err_vidmap")

def errStdinOut (a : Addresses) (junk : Nat → UInt8) : UserProgram Int :=
  expectFail a (fun buf => .sys (.write 0 a.buf buf 31)) (ascii "write to stdin fail\n") (0, junk) >>=
    expectFail a (fun _ => .sys (.read 1 a.buf 31)) (ascii "read from stdout fail\n") >>=
      verdict a (ascii "err_stdin_out")

def errSyscallNum (a : Addresses) (junk : Nat → UInt8) : UserProgram Int :=
  expectFail a (fun _ => .number 1073741823) (ascii "syscall 0 fail\n") (0, junk) >>=
    expectFail a (fun _ => .number (-1073741823)) (ascii "big num syscall fail\n") >>=
      expectFail a (fun _ => .number 0) (ascii "neg num syscall fail\n") >>= verdict a (ascii "err_syscall_num")

/-- The tests in their order, each with its own array. -/
def tests (a : Addresses) (junk : Nat → Nat → UInt8) : List (UserProgram Int) :=
  [errNegFd a (junk 1), errBigFd a (junk 2), errOpenLots a, errOpen a (junk 4), errUnopened a (junk 5),
    errVidmap a (junk 6), errStdinOut a (junk 7), errSyscallNum a (junk 8)]

def promptText : List UInt8 := ascii "Choose from tests 1-8. 0 to run all: "

def allPassText : List UInt8 := ascii "\nOverall Tests: PASS\n"

def invalidText : List UInt8 := ascii "Invalid test number. Choose from tests 1-8 or 0"

/-- `switch (select)` -/
def chosen (a : Addresses) (junk : Nat → Nat → UInt8) (select : Int) : UserProgram Int :=
  if select = 0 then
    rounds (tests a junk) (fun fail test => test >>= fun v => pure (fail + v)) 0 >>= fun fail =>
      if fail ≠ 0 then tell a.text (cString (ascii "\nOverall Tests: FAIL\n")) >>= fun _ => pure fail
      else tell a.text (cString allPassText) >>= fun _ => pure fail
  else if 1 ≤ select then
    match (tests a junk)[select.toNat - 1]? with
    | some test => test
    | none => tell a.text (cString invalidText) >>= fun _ => pure 0
  else tell a.text (cString invalidText) >>= fun _ => pure 0

/-- `main` of ece391syserr.c -/
def main (a : Addresses) (junk : Nat → Nat → UInt8) : UserProgram Int :=
  tell a.text (cString promptText) >>= fun _ =>
  ask (.sys (.read 0 a.buf 127)) >>= fun r =>
    if -1 = r.1 then tell a.text (cString (ascii "Can't read test #\n")) >>= fun _ => pure 2
    else chosen a junk ((storeList (junk 0) 0 r.2 0).toNat - 48)

/-- What the tests print if all of them pass. -/
def passTexts : List (List UInt8) :=
  [ascii "err_neg_fd", ascii "err_big_fd", ascii "err_open_lots", ascii "err_open", ascii "err_unopened",
    ascii "err_vidmap", ascii "err_stdin_out", ascii "err_syscall_num"].map passText

/-- What the choice of a test is to print. -/
def report (select : Int) : List UInt8 :=
  if select = 0 then passTexts.flatten ++ allPassText
  else if 1 ≤ select then (passTexts[select.toNat - 1]?).getD invalidText
  else invalidText

def expected (line : Option (List UInt8)) : List UInt8 :=
  promptText ++
    match line with
    | none => []
    | some bytes => report ((bytes.headD 10).toNat - 48)

/-- What the tests ask of the image: a directory `.` that opens, and none of
the names that are to be missing. -/
structure Testable (fs : FsImage) : Prop where
  dot : ∃ d, readDentryByName fs (cString (ascii ".")) = some d ∧ tableOfType d.fileType ≠ none
  helloo : readDentryByName fs (cString (ascii "helloo")) = none
  shel : readDentryByName fs (cString (ascii "shel")) = none
  empty : readDentryByName fs (cString []) = none

section Tests

variable {fs : FsImage} {p : Int} {k : Kernel} {calls : List (UserCall × Answer)} {text before : List UInt8}
  {line : Option (List UInt8)} (addr : Addresses)

/-- In the middle of a test that has not failed, with no descriptor but the first two in use. -/
structure Clean (p : Int) (before : List UInt8) (line : Option (List UInt8)) (s : Int × (Nat → UInt8))
    (calls : List (UserCall × Answer)) (k : Kernel) : Prop where
  fail : s.1 = 0
  told : Told calls before line
  here : Equipped p (fun _ => false) k

/-- A test passes wherever its text is expected. -/
def Passes (fs : FsImage) (p : Int) (x : UserProgram Int) (text : List UInt8) : Prop :=
  ∀ before line calls k, before ++ text <+: expected line → Told calls before line → Equipped p (fun _ => false) k →
    Does fs p expected x
      (fun fail calls k => fail = 0 ∧ Told calls (before ++ text) line ∧ Equipped p (fun _ => false) k)
      calls k

theorem Clean.stable {s : Int × (Nat → UInt8)} {k' : Kernel} (clean : Clean p before line s calls k)
    (others : Bystander fs p k k') : Clean p before line s calls k' :=
  ⟨clean.fail, clean.told, clean.here.stable others⟩

theorem Clean.expectFail {q : (Nat → UInt8) → UserCall} {s : Int × (Nat → UInt8)}
    (refuses : ∀ buf, Refuses fs p (fun _ => false) (q buf)) (message : List UInt8) (fits : before <+: expected line)
    (clean : Clean p before line s calls k) :
    Does fs p expected (expectFail addr q message s) (Clean p before line) calls k := by
  refine ((refuses s.2).yields clean.told clean.here fits).bind fun r calls k ⟨value, told, here⟩ => ?_
  rw [if_neg (by rw [value]; decide)]
  exact Yields.ret (told.shows fits) ⟨clean.fail, told, here⟩ fun _ _ clean => clean.stable

/-- A message that is the end of a program. -/
theorem passes_tell (plain : 0 ∉ text) (short : text.length < 2 ^ 31) :
    Passes fs p (tell addr.text (cString text) >>= fun _ => pure 0) text := by
  intro before line calls k fits told here
  refine (told.tells here addr.text_ne (stringAt_cString plain (by omega)) short fits).bind
    fun _ calls k ⟨told, here⟩ => ?_
  exact Yields.ret (told.shows fits) ⟨rfl, told, here⟩
    fun _ _ ⟨zero, told, here⟩ others => ⟨zero, told, here.stable others⟩

/-- The end of a test that has not failed. -/
theorem Clean.verdict {name : List UInt8} {s : Int × (Nat → UInt8)} (plain : 0 ∉ passText name)
    (short : (passText name).length < 2 ^ 31) (fits : before ++ passText name <+: expected line)
    (clean : Clean p before line s calls k) :
    Does fs p expected (verdict addr name s) (fun fail calls k =>
      fail = 0 ∧ Told calls (before ++ passText name) line ∧ Equipped p (fun _ => false) k) calls k := by
  rw [Syserr.verdict, if_neg (not_not.mpr clean.fail), clean.fail]
  exact passes_tell addr plain short before line calls k fits clean.told clean.here

/-- A loop of calls that are all refused. -/
theorem Clean.rounds {q : Int → (Nat → UInt8) → UserCall} {l : List Int} {s : Int × (Nat → UInt8)}
    (refuses : ∀ i ∈ l, ∀ buf, Refuses fs p (fun _ => false) (q i buf)) (message : List UInt8)
    (fits : before <+: expected line) (clean : Clean p before line s calls k) :
    Does fs p expected (rounds l (fun s i => Syserr.expectFail addr (q i) message s) s) (Clean p before line)
      calls k := by
  refine Yields.rounds (I := fun _ => Clean p before line) (clean.told.shows fits) clean
    (fun _ _ _ _ _ clean => clean.stable)
    fun made i rest split s calls k _ clean => ?_
  have member : i ∈ l := by
    rw [split]
    exact List.mem_append_right _ (List.mem_cons_self ..)
  exact (clean.expectFail addr (refuses i member) message fits).mono fun _ _ _ clean => ⟨clean.told.shows fits, clean⟩

/-- Behind a program that comes to the middle of a test. -/
theorem Clean.next {R : UserProgram (Int × (Nat → UInt8))} {q : (Nat → UInt8) → UserCall} {message : List UInt8}
    (refuses : ∀ buf, Refuses fs p (fun _ => false) (q buf)) (fits : before <+: expected line)
    (first : Does fs p expected R (Clean p before line) calls k) :
    Does fs p expected (R >>= Syserr.expectFail addr q message) (Clean p before line) calls k :=
  first.bind fun _ _ _ clean => clean.expectFail addr refuses message fits

theorem Clean.loops {R : UserProgram (Int × (Nat → UInt8))} {q : Int → (Nat → UInt8) → UserCall} {l : List Int}
    {message : List UInt8} (refuses : ∀ i ∈ l, ∀ buf, Refuses fs p (fun _ => false) (q i buf))
    (fits : before <+: expected line) (first : Does fs p expected R (Clean p before line) calls k) :
    Does fs p expected (R >>= Program.rounds l fun s i => Syserr.expectFail addr (q i) message s)
      (Clean p before line) calls k :=
  first.bind fun _ _ _ clean => clean.rounds addr refuses message fits

theorem Clean.ends {R : UserProgram (Int × (Nat → UInt8))} {name : List UInt8} (plain : 0 ∉ passText name)
    (short : (passText name).length < 2 ^ 31) (fits : before ++ passText name <+: expected line)
    (first : Does fs p expected R (Clean p before line) calls k) :
    Does fs p expected (R >>= Syserr.verdict addr name) (fun fail calls k =>
      fail = 0 ∧ Told calls (before ++ passText name) line ∧ Equipped p (fun _ => false) k) calls k :=
  first.bind fun _ _ _ clean => clean.verdict addr plain short fits

/-- A test is entered clean. -/
theorem Passes.of_clean {x : UserProgram Int} (junk : Nat → UInt8)
    (runs : ∀ before line calls k, before <+: expected line → before ++ text <+: expected line →
      Clean p before line (0, junk) calls k → Does fs p expected x (fun fail calls k =>
        fail = 0 ∧ Told calls (before ++ text) line ∧ Equipped p (fun _ => false) k) calls k) : Passes fs p x text :=
  fun before line calls k fits told here =>
    runs before line calls k ((List.prefix_append _ _).trans fits) fits ⟨rfl, told, here⟩

variable (junk : Nat → UInt8)

theorem errFd_passes {fd : Int} {name : List UInt8} (bad : fd < 0 ∨ 8 < fd) (plain : 0 ∉ passText name)
    (short : (passText name).length < 2 ^ 31) : Passes fs p (errFd fd name addr junk) (passText name) := by
  refine .of_clean junk fun before line calls k soFar fits clean => ?_
  have badFd : BadFd (fun _ => false) fd := bad.imp_right Or.inl
  refine Clean.ends addr plain short fits ?_
  refine Clean.next addr (fun _ => .close (Or.inr badFd)) soFar ?_
  refine Clean.next addr (fun _ => .write badFd _ _ _) soFar ?_
  exact clean.expectFail addr (fun _ => .read badFd _ _) _ soFar

theorem errOpen_passes (ok : Testable fs) : Passes fs p (errOpen addr junk) (passText (ascii "err_open")) := by
  refine .of_clean junk fun before line calls k soFar fits clean => ?_
  refine Clean.ends addr (by decide) (by decide) fits ?_
  refine Clean.next addr (fun _ => .openFile ok.empty) soFar ?_
  refine Clean.next addr (fun _ => .openFile ok.shel) soFar ?_
  exact clean.expectFail addr (fun _ => .openFile ok.helloo) _ soFar

theorem errUnopened_passes : Passes fs p (errUnopened addr junk) (passText (ascii "err_unopened")) := by
  refine .of_clean junk fun before line calls k soFar fits clean => ?_
  have unused (i : Int) (member : i ∈ [(2 : Int), 3, 4, 5, 6, 7]) : BadFd (fun _ => false) i := by
    have inside : ∀ i ∈ [(2 : Int), 3, 4, 5, 6, 7], 2 ≤ i ∧ i < 8 := by decide
    exact Or.inr (Or.inr ⟨(inside i member).1, (inside i member).2, rfl⟩)
  have low : ∀ i ∈ [(0 : Int), 1, 2, 3, 4, 5, 6, 7], i < 2 ∨ i ∈ [(2 : Int), 3, 4, 5, 6, 7] := by decide
  refine Clean.ends addr (by decide) (by decide) fits ?_
  refine Clean.loops addr (fun i member _ => .write (unused i member) _ _ _) soFar ?_
  refine Clean.loops addr (fun i member _ => .read (unused i member) _ _) soFar ?_
  exact clean.rounds addr (fun i member _ => .close ((low i member).imp_right (unused i))) _ soFar

theorem errVidmap_passes : Passes fs p (errVidmap addr junk) (passText (ascii "err_vidmap")) := by
  refine .of_clean junk fun before line calls k soFar fits clean => ?_
  refine Clean.ends addr (by decide) (by decide) fits ?_
  refine Clean.next addr (fun _ => .vidmap (by decide)) soFar ?_
  exact clean.expectFail addr (fun _ => .vidmap (by decide)) _ soFar

theorem errStdinOut_passes : Passes fs p (errStdinOut addr junk) (passText (ascii "err_stdin_out")) := by
  refine .of_clean junk fun before line calls k soFar fits clean => ?_
  refine Clean.ends addr (by decide) (by decide) fits ?_
  refine Clean.next addr (fun _ => .readStdout _ _) soFar ?_
  exact clean.expectFail addr (fun _ => .writeStdin _ _ _) _ soFar

theorem errSyscallNum_passes : Passes fs p (errSyscallNum addr junk) (passText (ascii "err_syscall_num")) := by
  refine .of_clean junk fun before line calls k soFar fits clean => ?_
  refine Clean.ends addr (by decide) (by decide) fits ?_
  refine Clean.next addr (fun _ => .number (by decide)) soFar ?_
  refine Clean.next addr (fun _ => .number (by decide)) soFar ?_
  exact clean.expectFail addr (fun _ => .number (by decide)) _ soFar

/-- After some of the opens of the third test: `cnt` of them have failed. -/
structure Opened (p : Int) (before : List UInt8) (line : Option (List UInt8)) (opens : Nat) (cnt : Int)
    (calls : List (UserCall × Answer)) (k : Kernel) : Prop where
  count : cnt = if opens = 7 then 1 else 0
  told : Told calls before line
  here : Equipped p (fun i => decide (i < 2 + opens)) k

/-- Six descriptors are got, the seventh open fails. -/
theorem Opened.opens {opens : Nat} {cnt : Int} (ok : Testable fs) (fits : before <+: expected line) (less : opens < 7)
    (opened : Opened p before line opens cnt calls k) :
    Does fs p expected (ask (.sys (.openFile (ascii ".")))) (fun r =>
      Opened p before line (opens + 1) (if -1 = r.1 then cnt + 1 else cnt)) calls k := by
  obtain ⟨count, told, here⟩ := opened
  obtain ⟨d, found, typed⟩ := ok.dot
  rw [if_neg (by omega)] at count
  refine Yields.ask (told.shows fits) here (fun _ _ here => here.stable)
    (fun k _ running => Or.inl ⟨((k.sysOpen fs (ascii ".")).2, []), (k.sysOpen fs (ascii ".")).1, running, rfl⟩)
    (fun k a k' here served => ?_) fun _ _ _ ⟨count, told, here⟩ others => ⟨count, told, here.stable others⟩
  have next : Told ((.sys (.openFile (ascii ".")), a) :: calls) before line := told.call (fun _ => ⟨rfl, rfl⟩) a
  refine ⟨next.shows fits, ?_⟩
  obtain ⟨free, full⟩ := here.opens found typed served
  by_cases last : opens = 6
  · obtain ⟨failed, rfl⟩ := full fun i least most => by simp; omega
    refine ⟨?_, next, here.congr fun i lower upper => by simp; omega⟩
    rw [if_pos failed.symm, if_pos (by omega), count]
    rfl
  · obtain ⟨value, still⟩ := free (2 + opens) (by omega) (by omega) (by simp) fun i least less => by simp; omega
    refine ⟨?_, next, still.congr fun i lower upper => ?_⟩
    · rw [if_neg (by omega), if_neg (by omega), count]
    · rw [← Bool.decide_or]
      exact decide_eq_decide.mpr (by omega)

theorem openLots_yields (ok : Testable fs) (fits : before <+: expected line) (told : Told calls before line)
    (here : Equipped p (fun _ => false) k) :
    Does fs p expected openLots (Opened p before line 7) calls k := by
  have start : Opened p before line 0 0 calls k := ⟨rfl, told, here.congr fun i lower _ => by simp; omega⟩
  have stable (opens : Nat) (cnt : Int) (calls : List (UserCall × Answer)) (k k' : Kernel)
      (opened : Opened p before line opens cnt calls k) (others : Bystander fs p k k') :
      Opened p before line opens cnt calls k' :=
    ⟨opened.count, opened.told, opened.here.stable others⟩
  refine Yields.rounds (I := fun made => Opened p before line made.length) (told.shows fits) start
    (fun made => stable made.length) fun made m rest split cnt calls k _ opened => ?_
  have less : made.length < 7 := by
    have whole := congrArg List.length split
    rw [List.length_range, List.length_append, List.length_cons] at whole
    omega
  refine (opened.opens ok fits less).bind fun r calls k opened => ?_
  refine Yields.ret (opened.told.shows fits) ⟨opened.told.shows fits, ?_⟩ fun _ _ ⟨now, opened⟩ others =>
    ⟨now, stable _ _ _ _ _ opened others⟩
  rw [List.length_append, List.length_singleton]
  exact opened

theorem closeLots_yields (fits : before <+: expected line) (told : Told calls before line)
    (here : Equipped p (fun i => decide (2 ≤ i)) k) :
    Does fs p expected closeLots (fun _ calls k => Told calls before line ∧ Equipped p (fun _ => false) k) calls k := by
  have loop : Does fs p expected closeLots (fun _ calls k => Told calls before line ∧
      Equipped p (fun i => decide (2 + 6 ≤ i)) k) calls k := by
    refine Yields.rounds
      (I := fun made _ calls k => Told calls before line ∧ Equipped p (fun i => decide (2 + made.length ≤ i)) k)
      (told.shows fits) ⟨told, here⟩ (fun _ _ _ _ _ ⟨told, here⟩ others => ⟨told, here.stable others⟩)
      fun made i rest split _ calls k _ ⟨told, here⟩ => ?_
    have place : i = ((2 + made.length : Nat) : Int) ∧ made.length < 6 := by
      obtain ⟨same, less⟩ := round_place split
      have table : ∀ n < 6, [(2 : Int), 3, 4, 5, 6, 7][n]? = some ((2 + n : Nat) : Int) := by decide
      rw [table _ less, Option.some.injEq] at same
      exact ⟨same.symm, less⟩
    obtain ⟨rfl, less⟩ := place
    have closes : Does fs p expected (ask (.sys (.close ((2 + made.length : Nat) : Int)))) (fun _ calls k =>
        Told calls before line ∧ Equipped p (fun i => decide (2 + (made.length + 1) ≤ i)) k) calls k := by
      refine Yields.ask (told.shows fits) here (fun _ _ here => here.stable)
        (fun k _ running => Or.inl ⟨((k.sysClose _).2, []), (k.sysClose _).1, running, rfl⟩)
        (fun k a k' here served => ?_) fun _ _ _ ⟨told, here⟩ others => ⟨told, here.stable others⟩
      have next := told.call (q := .sys (.close ((2 + made.length : Nat) : Int))) (fun _ => ⟨rfl, rfl⟩) a
      refine ⟨next.shows fits, next, (here.closes (by omega) (by omega) served).congr fun i lower upper => ?_⟩
      rw [← decide_not, ← Bool.decide_and]
      exact decide_eq_decide.mpr (by omega)
    refine closes.bind fun _ calls k ⟨told, here⟩ => ?_
    refine Yields.ret (told.shows fits) ⟨told.shows fits, told, ?_⟩ fun _ _ ⟨now, told, here⟩ others =>
      ⟨now, told, here.stable others⟩
    rw [List.length_append, List.length_singleton]
    exact here
  exact loop.mono fun _ calls k ⟨told, here⟩ => ⟨told, here.congr fun i lower upper => by simp; omega⟩

theorem errOpenLots_passes (ok : Testable fs) : Passes fs p (errOpenLots addr) (passText (ascii "err_open_lots")) := by
  intro before line calls k fits told here
  have soFar : before <+: expected line := (List.prefix_append _ _).trans fits
  refine (openLots_yields ok soFar told here).bind fun cnt calls k opened => ?_
  have open_ : Equipped p (fun i => decide (2 ≤ i)) k :=
    opened.here.congr fun i lower upper => decide_eq_decide.mpr (by omega)
  refine (closeLots_yields soFar opened.told open_).bind fun _ calls k ⟨told, here⟩ => ?_
  have one : cnt = 1 := opened.count.trans rfl
  rw [if_pos one]
  exact passes_tell addr (by decide) (by decide) before line calls k fits told here

theorem tests_pass (ok : Testable fs) (junk : Nat → Nat → UInt8) :
    List.Forall₂ (Passes fs p) (tests addr junk) passTexts := by
  refine .cons ?_ (.cons ?_ (.cons ?_ (.cons ?_ (.cons ?_ (.cons ?_ (.cons ?_ (.cons ?_ .nil)))))))
  · exact errFd_passes addr _ (Or.inl (by decide)) (by decide) (by decide)
  · exact errFd_passes addr _ (Or.inr (by decide)) (by decide) (by decide)
  · exact errOpenLots_passes addr ok
  · exact errOpen_passes addr _ ok
  · exact errUnopened_passes addr _
  · exact errVidmap_passes addr _
  · exact errStdinOut_passes addr _
  · exact errSyscallNum_passes addr _

/-- Tests that pass one after the other. -/
theorem Passes.all {l : List (UserProgram Int)} {texts : List (List UInt8)} (pass : List.Forall₂ (Passes fs p) l texts)
    (fits : before ++ texts.flatten <+: expected line) (told : Told calls before line)
    (here : Equipped p (fun _ => false) k) :
    Does fs p expected (Program.rounds l (fun fail test => test >>= fun v => pure (fail + v)) 0) (fun fail calls k =>
      fail = 0 ∧ Told calls (before ++ texts.flatten) line ∧ Equipped p (fun _ => false) k) calls k := by
  induction pass generalizing before calls k with
  | nil =>
    rw [List.flatten_nil, List.append_nil] at fits ⊢
    exact Yields.ret (told.shows fits) ⟨rfl, told, here⟩
      fun _ _ ⟨zero, told, here⟩ others => ⟨zero, told, here.stable others⟩
  | @cons test text l texts passes _ ih =>
    rw [List.flatten_cons, ← List.append_assoc] at fits ⊢
    have soFar : before ++ text <+: expected line := (List.prefix_append _ _).trans fits
    have first : Does fs p expected (test >>= fun v => pure (0 + v)) (fun fail calls k =>
        fail = 0 ∧ Told calls (before ++ text) line ∧ Equipped p (fun _ => false) k) calls k := by
      refine (passes before line calls k soFar told here).bind fun v calls k ⟨zero, told, here⟩ => ?_
      refine Yields.ret (told.shows soFar) ⟨?_, told, here⟩ fun _ _ ⟨zero, told, here⟩ others =>
        ⟨zero, told, here.stable others⟩
      rw [zero]
      rfl
    refine first.bind fun fail calls k ⟨zero, told, here⟩ => ?_
    subst zero
    exact ih fits told here

theorem chosen_passes (ok : Testable fs) (junk : Nat → Nat → UInt8) (select : Int) :
    Passes fs p (chosen addr junk select) (report select) := by
  intro before line calls k fits told here
  have invalid (fits : before ++ invalidText <+: expected line) :=
    (passes_tell addr (by decide) (by decide) : Passes fs p _ _) before line calls k fits told here
  unfold chosen
  unfold report at fits ⊢
  by_cases all : select = 0
  · rw [if_pos all] at fits
    rw [if_pos all, if_pos all, ← List.append_assoc]
    rw [← List.append_assoc] at fits
    have soFar : before ++ passTexts.flatten <+: expected line := (List.prefix_append _ _).trans fits
    refine (Passes.all (tests_pass addr ok junk) soFar told here).bind fun fail calls k ⟨zero, told, here⟩ => ?_
    subst zero
    exact passes_tell addr (by decide) (by decide) _ line calls k fits told here
  rw [if_neg all] at fits
  rw [if_neg all, if_neg all]
  by_cases low : 1 ≤ select
  · rw [if_pos low] at fits
    rw [if_pos low, if_pos low]
    have pass : List.Forall₂ (Passes fs p) (tests addr junk) passTexts := tests_pass addr ok junk
    obtain ⟨length, passes⟩ := List.forall₂_iff_get.mp pass
    by_cases inside : select.toNat - 1 < (tests addr junk).length
    · rw [List.getElem?_eq_getElem (by rw [← length]; exact inside)] at fits
      rw [List.getElem?_eq_getElem inside, List.getElem?_eq_getElem (by rw [← length]; exact inside)]
      exact passes _ inside _ before line calls k fits told here
    · rw [List.getElem?_eq_none (by rw [← length]; omega)] at fits
      rw [List.getElem?_eq_none (by omega), List.getElem?_eq_none (by rw [← length]; omega)]
      exact invalid fits
  · rw [if_neg low] at fits
    rw [if_neg low, if_neg low]
    exact invalid fits

end Tests

/-- The whole program, from where it is entered. -/
theorem main_yields {fs : FsImage} {p : Int} {k : Kernel} (ok : Testable fs) (addr : Addresses) (junk : Nat → Nat → UInt8)
    (here : Equipped p (fun _ => false) k) :
    Does fs p expected (main addr junk) (fun v calls _ => v = 0 ∧ ∃ typed, Shell.Typed typed ∧
      Told calls (expected (some (typed ++ [10]))) (some (typed ++ [10]))) [] k := by
  refine here.prompts addr (by decide) (by decide) (by decide) (List.prefix_append _ _)
    (fun _ _ => List.prefix_append _ _) fun typed calls k whole told here => ?_
  rw [if_neg (by omega)]
  have cell : storeList (junk 0) 0 (typed ++ [10]) 0 = (typed ++ [10]).headD 10 := by
    have inside : 0 < (typed ++ [10]).length := by simp
    have stored : storeList (junk 0) 0 (typed ++ [10]) (0 + 0) = (typed ++ [10])[0] := storeList_within inside
    rw [stored]
    cases typed with
    | nil => rfl
    | cons => rfl
  rw [cell]
  refine (chosen_passes addr ok junk _ promptText (some (typed ++ [10])) calls k List.prefix_rfl told here).mono
    fun v calls k ⟨zero, told, _⟩ => ⟨zero, typed, whole, told⟩

section Bounds

variable (a : Addresses)

theorem expectFail_atMost (q : (Nat → UInt8) → UserCall) (message : List UInt8) (s : Int × (Nat → UInt8)) :
    AtMost 2 (expectFail a q message s) := by
  unfold expectFail
  refine AtMost.bind (m := 1) (n := 1) (AtMost.ask _) fun r => ?_
  split
  · exact AtMost.bind (n := 0) (AtMost.ask _) fun _ => .ret 0 _
  · exact .ret 1 _

theorem verdict_atMost (name : List UInt8) (s : Int × (Nat → UInt8)) : AtMost 1 (verdict a name s) := by
  unfold verdict
  split
  · exact tell_atMost _ _ _
  · exact tell_atMost _ _ _

theorem errOpenLots_atMost : AtMost 14 (errOpenLots a) := by
  have opens : AtMost (7 * 1) openLots :=
    AtMost.rounds (fun _ _ => AtMost.bind (n := 0) (AtMost.ask _) fun _ => .ret 0 _) (List.range 7) 0
  have closes : AtMost (6 * 1) closeLots :=
    AtMost.rounds (fun _ _ => AtMost.bind (n := 0) (AtMost.ask _) fun _ => .ret 0 _) [2, 3, 4, 5, 6, 7] ()
  refine AtMost.bind (n := 7) opens fun cnt => AtMost.bind (n := 1) closes fun _ => ?_
  split
  · exact tell_atMost _ _ _
  · exact tell_atMost _ _ _

theorem errFd_atMost (fd : Int) (name : List UInt8) (junk : Nat → UInt8) : AtMost 7 (errFd fd name a junk) :=
  (((expectFail_atMost a _ _ _).bind (n := 2) fun _ => expectFail_atMost a _ _ _).bind (n := 2) fun _ =>
    expectFail_atMost a _ _ _).bind (n := 1) fun _ => verdict_atMost a _ _

theorem tests_atMost (junk : Nat → Nat → UInt8) :
    List.Forall₂ (fun n x => AtMost n x) [7, 7, 14, 7, 41, 5, 5, 7] (tests a junk) := by
  have each (l : List Int) (q : Int → (Nat → UInt8) → UserCall) (message : List UInt8) (s : Int × (Nat → UInt8)) :
      AtMost (l.length * 2) (rounds l (fun s i => expectFail a (q i) message s) s) :=
    AtMost.rounds (fun _ _ => expectFail_atMost a _ _ _) _ _
  refine .cons ?_ (.cons ?_ (.cons ?_ (.cons ?_ (.cons ?_ (.cons ?_ (.cons ?_ (.cons ?_ .nil)))))))
  · exact errFd_atMost a _ _ _
  · exact errFd_atMost a _ _ _
  · exact errOpenLots_atMost a
  · exact (((expectFail_atMost a _ _ _).bind (n := 2) fun _ => expectFail_atMost a _ _ _).bind (n := 2) fun _ =>
      expectFail_atMost a _ _ _).bind (n := 1) fun _ => verdict_atMost a _ _
  · exact (((each [0, 1, 2, 3, 4, 5, 6, 7] _ _ _).bind (n := 12) fun _ => each [2, 3, 4, 5, 6, 7] _ _ _).bind (n := 12)
      fun _ => each [2, 3, 4, 5, 6, 7] _ _ _).bind (n := 1) fun _ => verdict_atMost a _ _
  · exact ((expectFail_atMost a _ _ _).bind (n := 2) fun _ => expectFail_atMost a _ _ _).bind (n := 1) fun _ =>
      verdict_atMost a _ _
  · exact ((expectFail_atMost a _ _ _).bind (n := 2) fun _ => expectFail_atMost a _ _ _).bind (n := 1) fun _ =>
      verdict_atMost a _ _
  · exact (((expectFail_atMost a _ _ _).bind (n := 2) fun _ => expectFail_atMost a _ _ _).bind (n := 2) fun _ =>
      expectFail_atMost a _ _ _).bind (n := 1) fun _ => verdict_atMost a _ _

/-- All tests together make at most as many calls as their sum. -/
theorem all_atMost {bounds : List Nat} {l : List (UserProgram Int)} (each : List.Forall₂ (fun n x => AtMost n x) bounds l)
    (fail : Int) : AtMost bounds.sum (rounds l (fun fail test => test >>= fun v => pure (fail + v)) fail) := by
  induction each generalizing fail with
  | nil => exact .ret 0 _
  | @cons n x bounds l bound _ ih =>
    rw [List.sum_cons]
    exact (bound.bind (n := 0) fun _ => .ret 0 _).bind fun fail => ih fail

theorem chosen_atMost (junk : Nat → Nat → UInt8) (select : Int) : AtMost 94 (chosen a junk select) := by
  have invalid : AtMost 94 (tell a.text (cString invalidText) >>= fun _ => (pure 0 : UserProgram Int)) :=
    (tell_atMost _ _ _).le (by decide)
  unfold chosen
  split
  · refine AtMost.bind (m := 93) (n := 1) (all_atMost (tests_atMost a junk) 0) fun fail => ?_
    split
    · exact tell_atMost _ _ _
    · exact tell_atMost _ _ _
  split
  · split
    · rename_i test found
      obtain ⟨inside, rfl⟩ := List.getElem?_eq_some_iff.mp found
      obtain ⟨length, bounds⟩ := List.forall₂_iff_get.mp (tests_atMost a junk)
      have bound := bounds (select.toNat - 1) (by rw [length]; exact inside) inside
      have small : ∀ n ∈ [7, 7, 14, 7, 41, 5, 5, 7], n ≤ 94 := by decide
      exact bound.le (small _ (List.get_mem _ _))
    · exact invalid
  · exact invalid

theorem main_atMost (junk : Nat → Nat → UInt8) : AtMost 96 (main a junk) := by
  refine AtMost.bind (m := 1) (n := 95) (AtMost.ask _) fun _ =>
    AtMost.bind (m := 1) (n := 94) (AtMost.ask _) fun r => ?_
  split
  · exact (tell_atMost _ _ _).le (by decide)
  · exact chosen_atMost a junk _

end Bounds

end Syserr

end UnixLite
