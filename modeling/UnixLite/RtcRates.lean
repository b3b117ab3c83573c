import UnixLite.RtcRate

namespace UnixLite

open Transition

/-- The last frequency that process `p` wrote since its first rtc descriptor
was opened, 2 before it writes one. Nothing opened since the boot gives 1024. -/
def lastRate (p : Int) : List Happening → Int
  | [] => 1024
  | e :: past =>
    if e.pre.rtcFds p = ∅ ∧ e.post.rtcFds p ≠ ∅ then 2 else (rtcWritten p e).getD (lastRate p past)

/-- What an event may do to the rate of process `p`. -/
structure RtcLaw (p : Int) (past : List Happening) (e : Happening) : Prop where
  held : e.post.rtcFds p ≠ ∅ → e.post.processRtc p = lastRate p (e :: past)
  released : e.post.rtcFds p = ∅ → e.post.processRtc p = 1024
  halted : Halts p e = true → e.post.processRtc p = 1024
  several : ∀ fd, e.act.1 = .close fd → e.post.rtcFds p ≠ ∅ →
    e.post.processRtc p = e.pre.processRtc p
  others : e.pre.curPid ≠ p → e.post.processRtc p = e.pre.processRtc p

namespace Kernel

/-- A process that leaves rtc descriptors open has the rate of one without. -/
def Settled (k : Kernel) (p : Int) : Prop := k.rtcFds p ≠ ∅ → k.processRtc p = 1024

instance Settled.decidable (k : Kernel) (p : Int) : Decidable (k.Settled p) :=
  inferInstanceAs (Decidable (k.rtcFds p ≠ ∅ → k.processRtc p = 1024))

/-- An open finds the first rate if the process holds an rtc descriptor, a
close finds the last one if it keeps another, and so does the halt of a base
shell, which closes none. -/
def KeepsOwnRate (fs : FsImage) (k : Kernel) : Act → Prop
  | .openFile name => k.opensRtc fs name = true → k.rtcFds k.curPid ≠ ∅ → k.processRtc k.curPid = 2
  | .close fd => k.closesRtc fd = true → (k.rtcFds k.curPid).erase fd.toNat ≠ ∅ →
    k.processRtc k.curPid = 1024
  | .halt _ _ => k.curPcb.parentPid = -1 → k.Settled k.curPid
  | _ => True

instance KeepsOwnRate.decidable (fs : FsImage) (k : Kernel) (act : Act) :
    Decidable (k.KeepsOwnRate fs act) :=
  match act with
  | .openFile name => inferInstanceAs (Decidable
      (k.opensRtc fs name = true → k.rtcFds k.curPid ≠ ∅ → k.processRtc k.curPid = 2))
  | .close fd => inferInstanceAs (Decidable
      (k.closesRtc fd = true → (k.rtcFds k.curPid).erase fd.toNat ≠ ∅ → k.processRtc k.curPid = 1024))
  | .halt _ _ => inferInstanceAs (Decidable (k.curPcb.parentPid = -1 → k.Settled k.curPid))
  | .execute _ _ | .tick _ _ | .key _ | .switchTo _ | .read _ _ _ | .write _ _ _ _ | .putc _
  | .vidStore _ _ => isTrue trivial

/-- The steps that leave every rate to its process. A program may not get the
slot of one that has left its rtc open and its rate behind. -/
def KeepsRates (fs : FsImage) (k : Kernel) (l : Act × Reply) : Prop :=
  k.KeepsOwnRate fs l.1 ∧ (l.2.isEntered = true → ∀ p ∈ k.slotFor l.1, k.Settled p)

instance KeepsRates.decidable (fs : FsImage) (k : Kernel) (l : Act × Reply) :
    Decidable (k.KeepsRates fs l) :=
  inferInstanceAs (Decidable (_ ∧ _))

end Kernel

theorem lastRate_opened {p : Int} {past : List Happening} {e : Happening} (before : e.pre.rtcFds p = ∅)
    (after : e.post.rtcFds p ≠ ∅) : lastRate p (e :: past) = 2 := if_pos ⟨before, after⟩

theorem lastRate_held {p : Int} {past : List Happening} {e : Happening} (before : e.pre.rtcFds p ≠ ∅) :
    lastRate p (e :: past) = (rtcWritten p e).getD (lastRate p past) :=
  if_neg fun both => before both.1

/-- Every process has the rate that its rtc descriptors call for. -/
structure Rated (past : List Happening) (k : Kernel) : Prop where
  held : ∀ p, k.rtcFds p ≠ ∅ → k.processRtc p = lastRate p past
  released : ∀ p, k.rtcFds p = ∅ → k.processRtc p = 1024

theorem Rated.settled {past : List Happening} {k : Kernel} (rated : Rated past k) {p : Int}
    (settled : k.Settled p) : k.processRtc p = 1024 := by
  by_cases none : k.rtcFds p = ∅
  · exact rated.released p none
  · exact settled none

theorem Rated.next {past : List Happening} {e : Happening} (law : ∀ p, RtcLaw p past e) :
    Rated (e :: past) e.post := ⟨fun p => (law p).held, fun p => (law p).released⟩

theorem halts_own {p : Int} {e : Happening} (halts : Halts p e = true) :
    e.pre.curPid = p ∧ ∃ status regs, e.act.1 = .halt status regs := by
  unfold Halts at halts
  split at halts
  · rename_i status regs act
    exact ⟨by simpa using halts, status, regs, act⟩
  · cases halts

/-- Where no rtc descriptor is left, the reset rate is all that the law asks. -/
theorem RtcLaw.emptied {p : Int} {past : List Happening} {e : Happening} (none : e.post.rtcFds p = ∅)
    (settled : e.post.processRtc p = 1024)
    (others : e.pre.curPid ≠ p → e.post.processRtc p = e.pre.processRtc p) : RtcLaw p past e :=
  ⟨fun open_ => absurd none open_, fun _ => settled, fun _ => settled,
    fun _ _ open_ => absurd none open_, others⟩

/-- A call of the process itself that neither halts nor closes. -/
theorem RtcLaw.called {p : Int} {past : List Happening} {e : Happening} (own : e.pre.curPid = p)
    (notHalt : ∀ status regs, e.act.1 ≠ .halt status regs) (notClose : ∀ fd, e.act.1 ≠ .close fd)
    (held : e.post.rtcFds p ≠ ∅ → e.post.processRtc p = lastRate p (e :: past))
    (released : e.post.rtcFds p = ∅ → e.post.processRtc p = 1024) : RtcLaw p past e := by
  refine ⟨held, released, fun halts => ?_, fun fd close => absurd close (notClose fd), fun other => absurd own other⟩
  rw [halts_false (Or.inl notHalt)] at halts
  cases halts

/-- A step that keeps the rates obeys the law. -/
theorem Rated.law {fs : FsImage} {past : List Happening} {e : Happening} (rated : Rated past e.pre)
    (keeps : e.pre.KeepsRates fs e.act) {p : Int}
    (files : Halts p e = true → ∀ i ∈ e.pre.rtcFds p, 2 ≤ i) (effect : RtcEffect fs p e) :
    RtcLaw p past e := by
  obtain ⟨keepsOwn, keepsSlot⟩ := keeps
  cases effect with
  | kept notWritten same rate base =>
    refine ⟨fun open_ => ?_, fun none => ?_, fun halts => ?_, fun _ _ _ => rate, fun _ => rate⟩
    · rw [same] at open_
      rw [rate, lastRate_held open_, notWritten]
      exact rated.held p open_
    · rw [same] at none
      rw [rate]
      exact rated.released p none
    · obtain ⟨own, status, regs, halt⟩ := halts_own halts
      rw [halt] at keepsOwn
      have settled := keepsOwn (base halts)
      rw [own] at settled
      rw [rate]
      exact rated.settled settled
  | opened own open_ opens _ more rate =>
    rw [open_] at keepsOwn
    have keepsOpen := keepsOwn opens
    rw [own] at keepsOpen
    refine .called own (by simp [open_]) (by simp [open_]) (fun after => ?_) fun none => ?_
    · by_cases before : e.pre.rtcFds p = ∅
      · rw [rate, lastRate_opened before after]
      · have notWritten : rtcWritten p e = none := rtcWritten_none (by simp [open_])
        rw [rate, lastRate_held before, notWritten, Option.getD_none, ← rated.held p before]
        exact (keepsOpen before).symm
    · rw [more] at none
      exact absurd none (Finset.insert_ne_empty _ _)
  | closed own close closes fewer rate =>
    rw [close] at keepsOwn
    have keepsClose := keepsOwn closes
    rw [own, ← fewer] at keepsClose
    have unchanged (after : e.post.rtcFds p ≠ ∅) : e.post.processRtc p = e.pre.processRtc p :=
      rate.trans (keepsClose after).symm
    refine ⟨fun after => ?_, fun _ => rate, fun _ => rate, fun _ _ => unchanged, fun other => absurd own other⟩
    have before : e.pre.rtcFds p ≠ ∅ := by
      intro none
      rw [none] at fewer
      exact after fewer
    have notWritten : rtcWritten p e = none := rtcWritten_none (by simp [close])
    rw [unchanged after, lastRate_held before, notWritten]
    exact rated.held p before
  | written own write writes _ before same rate =>
    refine .called own (by simp [write]) (by simp [write]) (fun _ => ?_) fun none => ?_
    · rw [rate, lastRate_held before, writes, Option.getD_some]
    · exact absurd (same.symm.trans none) before
  | left halts none rate =>
    have settled : e.post.processRtc p = 1024 := by
      rw [rate]
      by_cases before : e.pre.rtcFds p = ∅
      · rw [if_neg (by simp [before])]
        exact rated.released p before
      · obtain ⟨i, member⟩ := Finset.nonempty_iff_ne_empty.mpr before
        rw [if_pos ⟨i, member, files halts i member⟩]
    exact .emptied none settled fun other => absurd (halts_own halts).1 other
  | started entered slot none rate =>
    have settled : e.post.processRtc p = 1024 := by
      rw [rate]
      exact rated.settled (keepsSlot entered p slot)
    exact .emptied none settled fun _ => rate

/-- A step that obeys the law for every process keeps the rates. -/
theorem Rated.keeps {fs : FsImage} {past : List Happening} {k k' : Kernel} {l : Act × Reply}
    (rated : Rated past k) (move : Step fs k l k') (law : ∀ p, RtcLaw p past ⟨k, l, k'⟩) :
    k.KeepsRates fs l := by
  obtain ⟨act, r⟩ := l
  constructor
  · cases act with
    | openFile name =>
      intro opens before
      cases move
      rcases k.sysOpen_rtc fs name with ⟨_, ⟨fd, _, more⟩, rates⟩ | ⟨notOpens, _⟩
      · have held := (law k.curPid).held (by simp [more])
        rw [lastRate_held (e := ⟨k, _, _⟩) before, rtcWritten_none (by simp), Option.getD_none,
          ← rated.held _ before] at held
        simp only [rates, Function.update_self] at held
        exact held.symm
      · exact absurd opens (by simp [notOpens])
    | close fd =>
      intro closes after
      cases move
      rcases k.sysClose_rtc fd with ⟨_, fewer, rates⟩ | ⟨notCloses, _⟩
      · have several := (law k.curPid).several fd rfl
        simp only [fewer, rates, Function.update_self] at several
        exact (several after).symm
      · exact absurd closes (by simp [notCloses])
    | halt status regs =>
      intro orphan _
      have halted := (law k.curPid).halted (by simp [Halts])
      rcases step_halt move with ⟨child, _⟩ | ⟨_, restarted⟩
      · exact absurd orphan child
      · have rates : k'.processRtc = k.processRtc := by
          rcases Kernel.sysExecute_outcome restarted with ⟨prev, v, rfl, _⟩ | ⟨_, _, _, run⟩
          · rfl
          · exact run.processRtc
        rw [← rates]
        exact halted
    | execute | tick | key | switchTo | read | write | putc | vidStore => trivial
  · intro entered p slot _
    obtain ⟨found, none, rates⟩ := step_entered move entered
    obtain rfl : k'.curPid = p := Option.some.inj (found.symm.trans slot)
    rw [← rates]
    exact (law k'.curPid).released none

/-- The kernel's own call is one of `sys_execute`. -/
def StartupAct.call : StartupAct → Act
  | .start regs => .execute shell regs
  | .act a => a

/-- A step of the start-up as a step of the system. -/
def happening (e : StartupEvent) : Happening := ⟨e.pre.kernel, (e.act.1.call, e.act.2), e.post.kernel⟩

theorem Startup.step_call {fs : FsImage} {s s' : Startup} {l : StartupAct × Reply}
    (move : Startup.Step fs s l s') : UnixLite.Step fs s.kernel (l.1.call, l.2) s'.kernel := by
  rcases Startup.step_cases move with ⟨_, act, _, _, run⟩ | ⟨_, act, _, _, run⟩
  · rw [act]
    exact run
  · rw [act]
    exact run

/-- Only a program halts. -/
theorem Startup.step_halt {fs : FsImage} {s s' : Startup} {l : StartupAct × Reply}
    (move : Startup.Step fs s l s') {status : Word} {regs : Regs} (halt : l.1.call = .halt status regs) :
    s.phase = .process := by
  rcases Startup.step_cases move with ⟨_, act, _⟩ | ⟨a, act, able, _⟩
  · rw [act] at halt
    cases halt
  · rw [act] at halt
    obtain rfl : a = .halt status regs := halt
    rcases able with running | ⟨_, interrupt⟩
    · exact running
    · cases interrupt

/-- A system that has started nothing yet, or whose processes are known and do
not have the rtc under their first two descriptors. -/
inductive Crewed (s : Startup) : Prop
  | entry : s.phase = .entry → Unstarted s.kernel → Crewed s
  | process (pids : Set Int) : s.phase = .process → PidsKnown pids s.kernel →
      (∀ p ∈ pids, ∀ i ∈ s.kernel.rtcFds p, 2 ≤ i) → Crewed s

theorem RtcEffect.files {fs : FsImage} {p : Int} {e : Happening} (effect : RtcEffect fs p e)
    (before : ∀ i ∈ e.pre.rtcFds p, 2 ≤ i) : ∀ i ∈ e.post.rtcFds p, 2 ≤ i := by
  intro i member
  cases effect with
  | kept _ same =>
    rw [same] at member
    exact before i member
  | opened _ _ _ lower more =>
    rw [more] at member
    rcases Finset.mem_insert.mp member with rfl | old
    · exact lower
    · exact before i old
  | closed _ _ _ fewer =>
    rw [fewer] at member
    exact before i (Finset.mem_of_mem_erase member)
  | written _ _ _ _ _ same =>
    rw [same] at member
    exact before i member
  | left _ none =>
    rw [none] at member
    cases member
  | started _ _ none =>
    rw [none] at member
    cases member

theorem Crewed.step {fs : FsImage} {s s' : Startup} {l : StartupAct × Reply} (crewed : Crewed s)
    (present : ShellPresent fs) (move : Startup.Step fs s l s') : Crewed s' := by
  have fresh (entered : l.2.isEntered = true) : s'.kernel.rtcFds s'.kernel.curPid = ∅ :=
    (step_entered (Startup.step_call move) entered).2.1
  cases crewed with
  | entry waiting unstarted =>
    rcases unstarted.step waiting present move with ⟨still, idle⟩ | ⟨running, known, first, eip, entered⟩
    · exact .entry still idle
    · refine .process _ running known ?_
      rintro p ⟨lower, upper⟩ i member
      obtain rfl : p = s'.kernel.curPid := by omega
      rw [fresh (by rw [entered]; rfl)] at member
      cases member
  | process pids running known files =>
    rcases Startup.step_cases move with ⟨_, _, waiting, _⟩ | ⟨a, act, _, after, run⟩
    · exact absurd (waiting.symm.trans running) (by decide)
    · rw [running, process_next] at after
      obtain ⟨now, known, origin⟩ := known.step present run
      refine .process now after known fun p member => ?_
      rcases origin p member with old | starts
      · exact (step_rtc p run).files (files p old)
      · unfold Starts at starts
        split at starts
        · rename_i eip entered
          intro i member
          have empty := fresh (by rw [show l.2 = .entered eip from entered]; rfl)
          rw [eq_of_beq starts] at empty
          rw [empty] at member
          cases member
        · cases starts

/-- What the law relies on, with and without a shell to start. -/
structure RtcReady (fs : FsImage) (past : List StartupEvent) (s : Startup) : Prop where
  rated : Rated (past.map happening) s.kernel
  crewed : ShellPresent fs → Crewed s
  idle : ¬ ShellPresent fs → s.phase ≠ .process

namespace RtcReady

variable {fs : FsImage} {past : List StartupEvent} {s s' : Startup} {l : StartupAct × Reply}

theorem files (ready : RtcReady fs past s) (move : Startup.Step fs s l s') {p : Int}
    (halts : Halts p (happening ⟨s, l, s'⟩) = true) : ∀ i ∈ s.kernel.rtcFds p, 2 ≤ i := by
  obtain ⟨own, _, _, halt⟩ := halts_own halts
  have running := Startup.step_halt move halt
  have present : ShellPresent fs := not_not.mp fun absent => ready.idle absent running
  cases ready.crewed present with
  | entry waiting => exact absurd (waiting.symm.trans running) (by decide)
  | process pids _ known files =>
    rw [← own]
    exact files _ known.current

theorem law_iff (ready : RtcReady fs past s) (move : Startup.Step fs s l s') :
    (∀ p, RtcLaw p (past.map happening) (happening ⟨s, l, s'⟩)) ↔
      s.kernel.KeepsRates fs (l.1.call, l.2) := by
  have run := Startup.step_call move
  constructor
  · exact ready.rated.keeps run
  · intro keeps p
    exact ready.rated.law keeps (ready.files move) (step_rtc p run)

theorem step (ready : RtcReady fs past s) (move : Startup.Step fs s l s')
    (keeps : s.kernel.KeepsRates fs (l.1.call, l.2)) : RtcReady fs (⟨s, l, s'⟩ :: past) s' where
  rated := Rated.next ((ready.law_iff move).mpr keeps)
  crewed present := (ready.crewed present).step present move
  idle absent running := absent (Startup.entered_present move (ready.idle absent) running)

theorem entry (fs : FsImage) (pcbs : Int → Pcb) (ram : Nat → UInt8) (ptFrame ptUserFrame : BitVec 20) :
    RtcReady fs [] ⟨entryState pcbs ram ptFrame ptUserFrame, .entry⟩ where
  rated := ⟨fun _ _ => rfl, fun _ _ => rfl⟩
  crewed _ := .entry rfl (entry_unstarted pcbs ram ptFrame ptUserFrame)
  idle _ := by simp

end RtcReady

/-- From the boot on, every process has the rate it last wrote, 2 until it
writes one and 1024 with no rtc open, and no one else changes it, exactly when
every step keeps the rates. -/
theorem rtc_rates {fs : FsImage} {pcbs : Int → Pcb} {ram : Nat → UInt8} {ptFrame ptUserFrame : BitVec 20}
    {history : List StartupEvent} {s : Startup}
    (run : Run (Startup.Step fs) ⟨entryState pcbs ram ptFrame ptUserFrame, .entry⟩ history s) :
    (∀ past e, (e :: past) <:+ history → ∀ p, RtcLaw p (past.map happening) (happening e)) ↔
      ∀ e ∈ history, e.pre.kernel.KeepsRates fs (e.act.1.call, e.act.2) :=
  run.good_iff_allowed (RtcReady fs) (fun past e => ∀ p, RtcLaw p (past.map happening) (happening e))
    (fun s l => s.kernel.KeepsRates fs (l.1.call, l.2)) (RtcReady.entry fs pcbs ram ptFrame ptUserFrame)
    fun _ _ _ _ ready move => ⟨ready.law_iff move, ready.step move⟩

/-- `"rtc"` -/
def rtcName : List UInt8 := [114, 116, 99]

/-- A shell opens the rtc, writes 32 and closes it. -/
theorem rtc_rates_sample : ∃ history s, Run (Startup.Step sampleImage) sampleStartup history s ∧
    history.length = 4 ∧
      ∀ past e, (e :: past) <:+ history → ∀ p, RtcLaw p (past.map happening) (happening e) := by
  have computed : (Startup.performAll sampleImage [.start ⟨0, 0⟩, .act (.openFile rtcName),
      .act (.write 2 1 (rateBytes 32) 4), .act (.close 2)] sampleStartup).map (fun r => (r.1.length,
        decide (∀ e ∈ r.1, e.pre.kernel.KeepsRates sampleImage (e.act.1.call, e.act.2)))) =
      some (4, true) := by
    decide +kernel
  obtain ⟨r, done, values⟩ := Option.map_eq_some_iff.mp computed
  simp only [Prod.mk.injEq, decide_eq_true_eq] at values
  have run := Startup.performAll_run done
  exact ⟨r.1, r.2, run, values.1, (rtc_rates run).mpr values.2⟩

/-- It opens the rtc twice, writes 32 and closes one of the two: 1024 is left. -/
theorem rtc_rates_closed : ¬ ∀ (fs : FsImage) (pcbs : Int → Pcb) (ram : Nat → UInt8)
    (ptFrame ptUserFrame : BitVec 20) (history : List StartupEvent) (s : Startup),
    Run (Startup.Step fs) ⟨entryState pcbs ram ptFrame ptUserFrame, .entry⟩ history s →
      ∀ past e, (e :: past) <:+ history → ∀ p, RtcLaw p (past.map happening) (happening e) := by
  intro law
  have computed : (Startup.performAll sampleImage [.start ⟨0, 0⟩, .act (.openFile rtcName),
      .act (.openFile rtcName), .act (.write 2 1 (rateBytes 32) 4), .act (.close 3)] sampleStartup).map
        (fun r => (r.2.kernel.rtcFds 0, r.2.kernel.processRtc 0, lastRate 0 (r.1.map happening))) =
      some ({2}, 1024, 32) := by
    decide +kernel
  obtain ⟨⟨history, s⟩, done, values⟩ := Option.map_eq_some_iff.mp computed
  simp only [Prod.mk.injEq] at values
  obtain ⟨descriptors, rate, last⟩ := values
  have run : Run (Startup.Step sampleImage) sampleStartup history s := Startup.performAll_run done
  have lawful := law _ _ _ _ _ _ _ run
  cases run with
  | start => exact absurd last (by decide)
  | next _ _ =>
    have held := (lawful _ _ List.suffix_rfl 0).held
    simp only [happening, descriptors, rate] at held
    have same := (held (by decide)).trans last
    exact absurd same (by decide)

end UnixLite
