import UnixLite.RtcRate
import UnixLite.UserPrograms

namespace UnixLite

open Transition Store Program

/-- What the steps of others leave of the rate of a process. -/
theorem Others.rate {fs : FsImage} {p : Int} {k k' : Kernel} (others : Others fs p k k') (taken : k.pidArray p ≠ 0) :
    k'.processRtc p = k.processRtc p := by
  obtain ⟨l, move, notOwn⟩ := others
  obtain ⟨notStarted, notHalted, _⟩ := Others.apart move notOwn taken
  have notCall {act : Act} (own : k.curPid = p) (called : l.1 = act) (own' : act.isInterrupt = false) : False := by
    have interrupt := notOwn own
    rw [called, own'] at interrupt
    cases interrupt
  cases step_rtc p move with
  | kept _ _ rate _ => exact rate
  | opened own act _ _ _ _ => exact (notCall own act rfl).elim
  | closed own act _ _ _ => exact (notCall own act rfl).elim
  | written own act _ _ _ _ _ => exact (notCall own act rfl).elim
  | left halts _ _ =>
    rw [notHalted] at halts
    cases halts
  | started entered slot _ _ =>
    obtain ⟨next, _⟩ := step_entered move entered
    have own : some p = some k'.curPid := slot.symm.trans next
    rw [Option.some.injEq] at own
    obtain ⟨act, r⟩ := l
    cases r with
    | entered eip => simp [Starts, own] at notStarted
    | value | resumed | loaded => cases entered

theorem Bystander.rate {fs : FsImage} {p : Int} {k k' : Kernel} (others : Bystander fs p k k')
    (taken : k.pidArray p ≠ 0) : k'.processRtc p = k.processRtc p := by
  obtain ⟨o, move, notOwn⟩ := others.moves
  cases move with
  | @act l _ step =>
    refine Others.rate ⟨l, step, fun own => ?_⟩ taken
    obtain ⟨l', same, interrupt⟩ := notOwn own
    cases same
    exact interrupt
  | exception run =>
    have elsewhere : k.curPid ≠ p := by
      intro own
      obtain ⟨l, same, _⟩ := notOwn own
      cases same
    obtain ⟨k1, output, halt⟩ := exception_halts run
    have slots : k1.pidArray p = k.pidArray p := congrFun output.processes.pidArray p
    have rest : k'.processRtc p = k1.processRtc p :=
      Others.rate ⟨_, halt, fun own => absurd (output.curPid.symm.trans own) elsewhere⟩ (by rw [slots]; exact taken)
    exact rest.trans (congrFun output.processRtc p)

namespace PingPong

/-- Where the program has its array, its literals and its two words. -/
structure Places extends Addresses where
  retVal : Nat
  garbage : Nat

/-- `for (i = first; i < first + count; i++) buf[i] = ' ';` -/
def clear (first count : Nat) (buf : Nat → UInt8) : Nat → UInt8 :=
  (List.range' first count).foldl (fun buf i => Function.update buf i 32) buf

/-- The array behind its initialisation. -/
def walls (junk : Nat → UInt8) : Nat → UInt8 :=
  Function.update (Function.update (Function.update (Function.update (clear 0 81 junk) 80 0) 79 10) 78 124) 1 124

structure State where
  rtcFd : Int
  curchar : UInt8
  buf : Nat → UInt8

/-- `main` of ece391pingpong.c as far as `while(1)`. -/
def start (a : Places) (junk : Nat → UInt8) : UserProgram State :=
  ask (.sys (.openFile (ascii "rtc"))) >>= fun r =>
  ask (.sys (.write r.1 a.retVal (rateBytes 32) 4)) >>= fun _ =>
  pure ⟨r.1, 65, walls junk⟩

/-- The body of the loops over `j`. -/
def bounce (a : Places) (s : State) (j : Nat) : UserProgram State :=
  tell a.buf (Function.update (clear 2 76 s.buf) j s.curchar) >>= fun _ =>
  ask (.sys (.read s.rtcFd a.garbage 4)) >>= fun _ =>
  pure { s with buf := Function.update (clear 2 76 s.buf) j s.curchar }

/-- The body of `while(1)`. -/
def turn (a : Places) (s : State) : UserProgram State :=
  rounds (List.range' 2 76) (bounce a) s >>= rounds (List.range' 2 76).reverse (bounce a) >>= fun s =>
  pure { s with curchar := if s.curchar = 90 then 65 else s.curchar + 1 }

/-- A line of the screen with its character between the walls. -/
def line (j : Nat) (c : UInt8) : List UInt8 :=
  [32, 124] ++ (List.replicate (j - 2) 32 ++ c :: List.replicate (77 - j) 32) ++ [124, 10]

/-- Where the character is in line `i`, and which. -/
def column (i : Nat) : Nat := if i % 152 < 76 then i % 152 + 2 else 153 - i % 152

def letter (i : Nat) : UInt8 := UInt8.ofNat (65 + i / 152 % 26)

/-- The first `n` lines. -/
def frames (n : Nat) : List UInt8 := (List.range n).flatMap fun i => line (column i) (letter i)

/-- How often the program has waited for the rtc. -/
def waits (calls : List (UserCall × Answer)) : Nat :=
  calls.countP fun c =>
    match c.1 with
    | .sys (.read _ _ _) => true
    | _ => false

theorem clear_cells (first count : Nat) (buf : Nat → UInt8) (x : Nat) :
    clear first count buf x = if first ≤ x ∧ x < first + count then 32 else buf x := by
  unfold clear
  induction count generalizing first buf with
  | zero => rw [if_neg (by omega)]; rfl
  | succ count ih =>
    rw [List.range'_succ, List.foldl_cons, ih]
    by_cases behind : first + 1 ≤ x ∧ x < first + 1 + count
    · rw [if_pos behind, if_pos (by omega)]
    · rw [if_neg behind]
      by_cases here : x = first
      · rw [here, Function.update_self, if_pos (by omega)]
      · rw [Function.update_of_ne here, if_neg (by omega)]

/-- The array outside the inner portion. -/
structure Walled (buf : Nat → UInt8) : Prop where
  space : buf 0 = 32
  left : buf 1 = 124
  right : buf 78 = 124
  newline : buf 79 = 10
  ends : buf 80 = 0

theorem Walled.bounce {buf : Nat → UInt8} (walled : Walled buf) {j : Nat} (inside : 2 ≤ j ∧ j < 78) (c : UInt8) :
    Walled (Function.update (clear 2 76 buf) j c) := by
  have outside (x : Nat) (far : x < 2 ∨ 78 ≤ x) : Function.update (clear 2 76 buf) j c x = buf x := by
    rw [Function.update_of_ne (by omega), clear_cells, if_neg (by omega)]
  exact ⟨(outside 0 (by omega)).trans walled.space, (outside 1 (by omega)).trans walled.left,
    (outside 78 (by omega)).trans walled.right, (outside 79 (by omega)).trans walled.newline,
    (outside 80 (by omega)).trans walled.ends⟩

theorem line_length {j : Nat} (inside : 2 ≤ j ∧ j < 78) (c : UInt8) : (line j c).length = 80 := by
  simp only [line, List.length_append, List.length_cons, List.length_nil, List.length_replicate]
  omega

theorem Walled.string {buf : Nat → UInt8} (walled : Walled buf) {j : Nat} (inside : 2 ≤ j ∧ j < 78) {c : UInt8}
    (char : c ≠ 0) : stringAt (Function.update (clear 2 76 buf) j c) = line j c := by
  have next := walled.bounce inside c
  have length := line_length inside c
  refine StringAt.string ⟨fun i less => ?_, fun d member => ?_, ?_⟩ (by rw [length]; decide)
  · rw [length] at less
    rw [Nat.zero_add]
    have inner (low : 2 ≤ i) (high : i < 78) :
        Function.update (clear 2 76 buf) j c i = if i = j then c else 32 := by
      by_cases here : i = j
      · rw [here, Function.update_self, if_pos rfl]
      · rw [Function.update_of_ne here, clear_cells, if_pos (by omega), if_neg here]
    obtain low | ⟨low, high⟩ | rfl | rfl : i < 2 ∨ (2 ≤ i ∧ i < 78) ∨ i = 78 ∨ i = 79 := by omega
    · obtain rfl | rfl : i = 0 ∨ i = 1 := by omega
      · exact next.space
      · exact next.left
    · rw [inner low high]
      simp only [line, List.getElem_append, List.length_append, List.length_cons, List.length_nil, List.length_replicate,
        List.getElem_cons, List.getElem_replicate]
      rw [dif_pos (by omega), dif_neg (by omega)]
      obtain before | rfl | behind := Nat.lt_trichotomy i j
      · rw [if_neg (by omega), dif_pos (by omega)]
      · rw [if_pos rfl, dif_neg (by omega), dif_pos (by omega)]
      · rw [if_neg (by omega), dif_neg (by omega), dif_neg (by omega)]
    · rw [next.right]
      simp only [line, List.getElem_append, List.length_append, List.length_cons, List.length_nil, List.length_replicate,
        List.getElem_cons]
      rw [dif_neg (by omega), dif_pos (by omega)]
    · rw [next.newline]
      simp only [line, List.getElem_append, List.length_append, List.length_cons, List.length_nil, List.length_replicate,
        List.getElem_cons]
      rw [dif_neg (by omega), dif_neg (by omega), dif_pos (by omega)]
  · simp only [line, List.mem_append, List.mem_cons, List.mem_replicate, List.not_mem_nil, or_false] at member
    rintro rfl
    simp [char.symm] at member
  · rw [length]
    exact next.ends

theorem frames_succ (n : Nat) : frames (n + 1) = frames n ++ line (column n) (letter n) := by
  simp [frames, List.range_succ]

theorem letter_ne (i : Nat) : letter i ≠ 0 := by
  have plain : ∀ m < 26, UInt8.ofNat (65 + m) ≠ 0 := by decide
  exact plain _ (Nat.mod_lt _ (by decide))

theorem column_out {t m : Nat} (inside : m < 76) : column (152 * t + m) = 2 + m := by
  rw [column, Nat.mul_add_mod, Nat.mod_eq_of_lt (by omega), if_pos inside, Nat.add_comm]

theorem column_back {t m : Nat} (inside : m < 76) : column (152 * t + 76 + m) = 77 - m := by
  rw [column, Nat.add_assoc, Nat.mul_add_mod, Nat.mod_eq_of_lt (by omega), if_neg (by omega)]
  omega

theorem letter_turn {t m : Nat} (inside : m < 152) : letter (152 * t + m) = UInt8.ofNat (65 + t % 26) := by
  rw [letter, Nat.mul_add_div (by decide), Nat.div_eq_of_lt inside, Nat.add_zero]

/-- The next letter. -/
theorem letter_next (t : Nat) :
    (if UInt8.ofNat (65 + t % 26) = 90 then 65 else UInt8.ofNat (65 + t % 26) + 1) = UInt8.ofNat (65 + (t + 1) % 26) := by
  have table : ∀ m < 26, (if UInt8.ofNat (65 + m) = 90 then 65 else UInt8.ofNat (65 + m) + 1) =
      UInt8.ofNat (65 + (m + 1) % 26) := by decide
  rw [table _ (Nat.mod_lt t (by decide)), Nat.mod_add_mod]

/-- The image has the rtc. -/
def RtcThere (fs : FsImage) : Prop :=
  ∃ d, readDentryByName fs (cString (ascii "rtc")) = some d ∧ tableOfType d.fileType = some .rtcOpt

/-- The program has the rtc open as its only file. -/
structure Opened (p : Int) (k : Kernel) : Prop where
  here : Equipped p (fun i => decide (i = 2)) k
  rtc : (k.entry p 2).fileOpTablePtr = .rtcOpt

/-- It is open, at 32 Hz. -/
structure Beating (p : Int) (k : Kernel) : Prop extends Opened p k where
  rate : k.processRtc p = 32

section Kernels

variable {fs : FsImage} {p : Int} {k k' : Kernel} {a : Answer}

theorem Opened.stable (opened : Opened p k) (others : Bystander fs p k k') : Opened p k' := by
  obtain ⟨_, entry, _⟩ := others.spares opened.here.slot
  exact ⟨opened.here.stable others, by rw [entry]; exact opened.rtc⟩

theorem Beating.stable (beating : Beating p k) (others : Bystander fs p k k') : Beating p k' :=
  ⟨beating.toOpened.stable others, (others.rate beating.here.slot).trans beating.rate⟩

theorem Opened.used (opened : Opened p k) : (k.entry p 2).flags ≠ 0 :=
  (opened.here.others 2 (by decide) (by decide)).mpr rfl

theorem Opened.sysWrite (opened : Opened k.curPid k) (buf : Nat) (src : Nat → UInt8) (n : Word) :
    k.sysWrite 2 buf src n = .done (k.rtcWrite src) := by
  have inside : ¬ ((2 : Int) < 0 ∨ (2 : Int) > 8) := by decide
  have notLast : ¬ (2 : Int) = 8 := by decide
  unfold Kernel.sysWrite
  rw [if_neg inside, if_neg notLast]
  exact (if_neg opened.used).trans (congrArg (fun op : OpTable => op.write k buf src n) opened.rtc)

/-- Printing a line changes nothing about the rtc. -/
theorem Beating.tells (beating : Beating p k) {addr : Nat} {s : Nat → UInt8} {str : List UInt8} (place : addr ≠ 0)
    (string : stringAt s = str) (short : str.length < 2 ^ 31) (served : Serves fs p k (fdputs 1 addr s) a k') :
    bytesWritten (fdputs 1 addr s, a) = str ∧ Beating p k' := by
  obtain ⟨bytes, kept⟩ := beating.here.resident.puts place string short served
  have here := beating.here.kept served.slot.1 (fun i _ => by rw [kept]) fun i => by rw [kept]
  refine ⟨bytes, ⟨here, by rw [kept]; exact beating.rtc⟩, ?_⟩
  obtain ⟨rfl, move⟩ := served
  obtain ⟨v, call, _⟩ := step_write move
  rcases Kernel.sysWrite_rtc call with ⟨⟨_, member, _⟩, _⟩ | ⟨_, rates⟩
  · have table := (Fd.isRtc_iff.mp (Kernel.mem_rtcFds.mp member).2).2
    have screen := beating.here.stdout
    rw [show (1 : Int).toNat = 1 from rfl, screen] at table
    cases table
  · rw [rates]
    exact beating.rate

/-- A wait for the rtc. -/
theorem Beating.waits {buf : Nat} {n : Word} (beating : Beating p k) (served : Serves fs p k (.read 2 buf n) a k') :
    Beating p k' := by
  have slot := served.slot.1
  obtain ⟨rfl, move⟩ := served
  obtain ⟨v, out, call, _⟩ := step_read move
  have entries (i : Nat) : (k'.entry k.curPid i).flags = (k.entry k.curPid i).flags ∧
      (k'.entry k.curPid i).fileOpTablePtr = (k.entry k.curPid i).fileOpTablePtr := by
    rcases Kernel.sysRead_entry call k.curPid i with same | ⟨_, _, _, moved⟩
    · rw [same]
      exact ⟨rfl, rfl⟩
    · rw [moved]
      exact ⟨rfl, rfl⟩
  exact ⟨⟨beating.here.kept slot (fun i _ => (entries i).2) fun i => (entries i).1,
    (entries 2).2.trans beating.rtc⟩, by rw [(Kernel.sysRead_rtc call k.curPid).2]; exact beating.rate⟩

theorem Opened.canWait (opened : Opened p k) (running : k.curPid = p) (buf : Nat) (n : Word) :
    ∃ a k', Serves fs p k (.read 2 buf n) a k' := by
  subst running
  have call : k.sysRead fs (2 : Nat) buf n = _ := k.sysRead_used fs buf n (by decide) opened.used
  have reads {k' : Kernel} {r : Answer} (done : k.sysRead fs (2 : Nat) buf n = .done (k', r)) :
      ∃ a k', Serves fs k.curPid k (.read 2 buf n) a k' := by
    have done' : k.sysRead fs 2 buf n = .done (k', r) := done
    exact ⟨r, k', rfl, congrArg ReadReply.outcome done'⟩
  rw [opened.rtc] at call
  exact reads call

theorem opens (there : RtcThere fs) (here : Equipped p (fun _ => false) k)
    (served : Serves fs p k (.openFile (ascii "rtc")) a k') : a.1 = 2 ∧ Opened p k' := by
  obtain ⟨d, found, typed⟩ := there
  have free : (k.entry p 2).flags = 0 := here.unused (show (2 : Int) ≤ 2 by decide) (by decide) rfl
  obtain ⟨value, equipped⟩ := (here.opens found (by rw [typed]; simp) served).1 2 (by decide) (by decide) rfl
    fun i least less => by omega
  have next : Equipped p (fun i => decide (i = 2)) k' := equipped.congr fun i _ _ => Bool.or_false _
  rcases (served.opens (by decide) (by decide) free fun i least less => by omega).2 with
    ⟨missing, _⟩ | ⟨d', found', _, set⟩
  · rw [missing] at found
    cases found
  · rw [found] at found'
    cases found'
    rcases set with ⟨untyped, _⟩ | ⟨op, known, entries⟩
    · rw [untyped] at typed
      cases typed
    · rw [typed] at known
      cases known
      refine ⟨value, next, ?_⟩
      rw [entries, if_pos rfl]

end Kernels

/-- After `n` lines and as many waits. -/
structure Shown (n m : Nat) (calls : List (UserCall × Answer)) : Prop where
  text : said calls = frames n
  waited : waits calls = m

/-- Behind every line there is one wait. -/
def InTime (calls : List (UserCall × Answer)) : Prop :=
  ∃ n, said calls = frames n ∧ waits calls ≤ n ∧ n ≤ waits calls + 1

theorem Shown.inTime {n m : Nat} {calls : List (UserCall × Answer)} (shown : Shown n m calls) (least : m ≤ n)
    (most : n ≤ m + 1) : InTime calls :=
  ⟨n, shown.text, by rw [shown.waited]; exact least, by rw [shown.waited]; exact most⟩

/-- A call can be answered, and from the third on the rtc beats. -/
def Prompt (fs : FsImage) (p : Int) (calls : List (UserCall × Answer)) (k : Kernel) (q : UserCall) : Prop :=
  (k.curPid = p → ∃ a k', UserServes fs p k q a k') ∧ (2 ≤ calls.length → Beating p k)

/-- Before line `n`, in turn `t` of the endless loop. -/
structure At (p : Int) (n t : Nat) (s : State) (calls : List (UserCall × Answer)) (k : Kernel) : Prop where
  rtcFd : s.rtcFd = 2
  curchar : s.curchar = UInt8.ofNat (65 + t % 26)
  walled : Walled s.buf
  shown : Shown n n calls
  beating : Beating p k

section Rules

variable {fs : FsImage} {p : Int} {k k' : Kernel} {calls : List (UserCall × Answer)} {n t : Nat} {s : State}
  (a : Places)

abbrev Goes (fs : FsImage) (p : Int) {R : Type} (x : UserProgram R)
    (post : R → List (UserCall × Answer) → Kernel → Prop) (calls : List (UserCall × Answer)) (k : Kernel) : Prop :=
  Program.Yields (Bystander fs p) (UserServes fs p) InTime (Prompt fs p) x post calls k

theorem At.stable (at_ : At p n t s calls k) (others : Bystander fs p k k') : At p n t s calls k' :=
  { at_ with beating := at_.beating.stable others }

theorem At.inTime (at_ : At p n t s calls k) : InTime calls := at_.shown.inTime (Nat.le_refl n) (Nat.le_succ n)

/-- One line and its wait. -/
theorem At.bounce {j : Nat} (at_ : At p n t s calls k) (inside : 2 ≤ j ∧ j < 78) (place : column n = j)
    (char : letter n = UInt8.ofNat (65 + t % 26)) : Goes fs p (bounce a s j) (At p (n + 1) t) calls k := by
  obtain ⟨rtcFd, curchar, walled, shown, beating⟩ := at_
  have glyph : s.curchar ≠ 0 := by
    rw [curchar, ← char]
    exact letter_ne n
  have string := walled.string inside glyph
  have next : frames n ++ line j s.curchar = frames (n + 1) := by rw [frames_succ, place, char, curchar]
  have tells : Goes fs p (tell a.buf (Function.update (clear 2 76 s.buf) j s.curchar))
      (fun _ calls k => Shown (n + 1) n calls ∧ Beating p k) calls k := by
    refine Yields.ask (shown.inTime (Nat.le_refl n) (Nat.le_succ n)) beating (fun _ _ beating => beating.stable)
      (fun k beating => ⟨fun running => ?_, fun _ => beating⟩) (fun k r k' beating served => ?_)
      fun _ _ _ ⟨shown, beating⟩ others => ⟨shown, beating.stable others⟩
    · exact beating.here.resident.canWrite running _ _ _
    · obtain ⟨bytes, beating⟩ := beating.tells a.buf_ne string (by rw [line_length inside]; decide) served
      have shown' :
          Shown (n + 1) n ((.sys (fdputs 1 a.buf (Function.update (clear 2 76 s.buf) j s.curchar)), r) :: calls) :=
        ⟨by rw [said_cons, bytes, shown.text, next], shown.waited⟩
      exact ⟨shown'.inTime (Nat.le_succ n) (Nat.le_refl _), shown', beating⟩
  refine tells.bind fun _ calls k ⟨shown, beating⟩ => ?_
  have waits : Goes fs p (ask (.sys (.read s.rtcFd a.garbage 4)))
      (fun _ calls k => Shown (n + 1) (n + 1) calls ∧ Beating p k) calls k := by
    rw [rtcFd]
    refine Yields.ask (shown.inTime (Nat.le_succ n) (Nat.le_refl _)) beating (fun _ _ beating => beating.stable)
      (fun k beating => ⟨fun running => beating.canWait running _ _, fun _ => beating⟩) (fun k r k' beating served => ?_)
      fun _ _ _ ⟨shown, beating⟩ others => ⟨shown, beating.stable others⟩
    have shown' : Shown (n + 1) (n + 1) ((.sys (.read 2 a.garbage 4), r) :: calls) :=
      ⟨by rw [said_cons, shown.text]; exact List.append_nil _,
        by rw [PingPong.waits, List.countP_cons_of_pos rfl]; exact congrArg (· + 1) shown.waited⟩
    exact ⟨shown'.inTime (Nat.le_refl _) (Nat.le_succ _), shown', beating.waits served⟩
  refine waits.bind fun _ calls k ⟨shown, beating⟩ => ?_
  have at_ : At p (n + 1) t { s with buf := Function.update (clear 2 76 s.buf) j s.curchar } calls k :=
    ⟨rtcFd, curchar, walled.bounce inside _, shown, beating⟩
  exact Yields.ret at_.inTime at_ fun _ _ at_ others => at_.stable others

/-- One of the two loops, from column to column. -/
theorem At.loop {l : List Nat} (at_ : At p n t s calls k)
    (columns : ∀ m j, l[m]? = some j → (2 ≤ j ∧ j < 78) ∧ column (n + m) = j ∧
      letter (n + m) = UInt8.ofNat (65 + t % 26)) :
    Goes fs p (rounds l (PingPong.bounce a) s) (At p (n + l.length) t) calls k := by
  refine Yields.rounds (I := fun made => At p (n + made.length) t) at_.inTime at_
    (fun _ _ _ _ _ at_ others => at_.stable others) fun made j rest split s calls k _ at_ => ?_
  obtain ⟨inside, place, char⟩ := columns _ _ (round_place split).1
  refine (at_.bounce a inside place char).mono fun s calls k at_ => ⟨at_.inTime, ?_⟩
  rw [List.length_append, List.length_singleton, ← Nat.add_assoc]
  exact at_

/-- A whole turn. -/
theorem At.turn (at_ : At p (152 * t) t s calls k) : Goes fs p (turn a s) (At p (152 * (t + 1)) (t + 1)) calls k := by
  have out : Goes fs p (rounds (List.range' 2 76) (PingPong.bounce a) s) (At p (152 * t + 76) t) calls k := by
    refine at_.loop a fun m j place => ?_
    obtain ⟨inside, rfl⟩ := List.getElem?_eq_some_iff.mp place
    rw [List.length_range'] at inside
    rw [List.getElem_range', Nat.one_mul]
    exact ⟨by omega, column_out inside, letter_turn (by omega)⟩
  refine (out.bind (fun s calls k at_ => ?_)).bind fun s calls k (at_ : At p (152 * t + 76 + 76) t s calls k) => ?_
  · refine at_.loop a fun m j place => ?_
    obtain ⟨inside, rfl⟩ := List.getElem?_eq_some_iff.mp place
    rw [List.length_reverse, List.length_range'] at inside
    have within : m < (List.range' 2 76).reverse.length := by simpa using inside
    have back : (List.range' 2 76).reverse[m] = 77 - m := by
      rw [List.getElem_reverse, List.getElem_range', List.length_range']
      omega
    rw [back]
    exact ⟨by omega, column_back inside, by rw [Nat.add_assoc]; exact letter_turn (by omega)⟩
  · have next : At p (152 * (t + 1)) (t + 1)
        { s with curchar := if s.curchar = 90 then 65 else s.curchar + 1 } calls k := by
      obtain ⟨rtcFd, curchar, walled, shown, beating⟩ := at_
      exact ⟨rtcFd, by rw [curchar, letter_next], walled, shown, beating⟩
    exact Yields.ret next.inTime next fun _ _ at_ others => at_.stable others

end Rules

end PingPong

end UnixLite
