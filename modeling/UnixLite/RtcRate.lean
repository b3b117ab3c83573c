import UnixLite.RtcBounds
import UnixLite.Blinking
import Mathlib.Algebra.Ring.Divisibility.Basic
import Mathlib.Algebra.Ring.Int.Defs

namespace UnixLite

open Transition

/-- The system with the tick counters of `rtc.c`. -/
structure Rtc where
  startup : Startup
  countRtc : Word
  terminalRtcCount : Fin 3 → Word

/-- A step of the system, the store after which `rtc_read` waits, or the
interrupt of the RTC. -/
inductive RtcAct
  | sys (a : StartupAct)
  | rtcWait
  | rtcTick

def RtcAct.isTick : RtcAct → Bool
  | .rtcTick => true
  | .sys _ | .rtcWait => false

/-- Whether the flag of a terminal is cleared: its counter is a multiple of the
period of its process. There is no result where a division faults. -/
def rtcDue (curFreq : Int) (count : Word) : Option Bool :=
  if curFreq = 0 then none
  else
    let period := (1024 : Int).tdiv curFreq
    if period = 0 ∨ (period = -1 ∧ count.toInt = -2147483648) then none
    else some (count.toInt.tmod period = 0)

namespace Rtc

abbrev kernel (s : Rtc) : Kernel := s.startup.kernel

def update (s : Rtc) (f : Kernel → Kernel) : Rtc := { s with startup := ⟨f s.kernel, s.startup.phase⟩ }

/-- The rate of the active process of terminal `i`. -/
def rate (s : Rtc) (i : Fin 3) : Int := s.kernel.processRtc (s.kernel.terminals i).activePid

def setWait (s : Rtc) (i : Fin 3) (wait : Int) : Rtc :=
  s.update fun k => { k with terminalRtcWait := Function.update k.terminalRtcWait i wait }

/-- The body of the loop of `rtc_handler`. -/
def countTerminal (s : Rtc) (i : Fin 3) : Option Rtc :=
  let count := s.terminalRtcCount i + 1
  (rtcDue (s.rate i) count).map fun due =>
    let s := { s with terminalRtcCount := Function.update s.terminalRtcCount i count }
    if due then s.setWait i 0 else s

/-- The cursor goes on and off every half second. -/
def flicker (s : Rtc) : Rtc :=
  let s := if s.countRtc.toInt.tmod 1024 = 0 then s.update Kernel.putCursor else s
  if s.countRtc.toInt.tmod 512 = 0 ∧ s.countRtc.toInt.tmod 1024 ≠ 0 then s.update Kernel.remCursor else s

def rtcHandler (s : Rtc) : Option Rtc :=
  ([0, 1, 2].foldlM countTerminal { s with countRtc := s.countRtc + 1 }).map flicker

def perform (fs : FsImage) (s : Rtc) : RtcAct → Option Rtc
  | .sys a => (s.startup.perform fs a).map fun r => { s with startup := r.1 }
  | .rtcWait => if s.startup.phase = .process then some (s.setWait s.kernel.ta 1) else none
  | .rtcTick => if s.startup.phase = .spinning then none else s.rtcHandler

def Step (fs : FsImage) (s : Rtc) (a : RtcAct) (s' : Rtc) : Prop := s.perform fs a = some s'

end Rtc

/-- What an RTC interrupt leaves as it is. -/
structure RtcFrame (s s' : Rtc) : Prop where
  phase : s'.startup.phase = s.startup.phase
  processes : SameProcesses s.kernel s'.kernel
  processRtc : s'.kernel.processRtc = s.kernel.processRtc

theorem RtcFrame.refl (s : Rtc) : RtcFrame s s := ⟨rfl, SameProcesses.refl _, rfl⟩

theorem RtcFrame.trans {a b c : Rtc} (first : RtcFrame a b) (second : RtcFrame b c) : RtcFrame a c :=
  ⟨second.phase.trans first.phase, first.processes.trans second.processes,
    second.processRtc.trans first.processRtc⟩

theorem RtcFrame.rate {s s' : Rtc} (frame : RtcFrame s s') (i : Fin 3) : s'.rate i = s.rate i := by
  rw [Rtc.rate, Rtc.rate, frame.processRtc, frame.processes.activePid]

namespace Rtc

/-- What the loop body does to the counter and the flag of its terminal. -/
structure Counted (i : Fin 3) (s s' : Rtc) : Prop where
  frame : RtcFrame s s'
  counts : s'.terminalRtcCount = Function.update s.terminalRtcCount i (s.terminalRtcCount i + 1)
  due : ∃ due, rtcDue (s.rate i) (s.terminalRtcCount i + 1) = some due ∧
    s'.kernel.terminalRtcWait =
      if due then Function.update s.kernel.terminalRtcWait i 0 else s.kernel.terminalRtcWait

theorem countTerminal_counted {s s' : Rtc} {i : Fin 3} (run : s.countTerminal i = some s') :
    Counted i s s' := by
  obtain ⟨due, decided, same⟩ := Option.map_eq_some_iff.mp run
  cases due with
  | true =>
    cases same
    refine ⟨⟨rfl, ?_, rfl⟩, rfl, true, decided, rfl⟩
    constructor <;> intros <;> rfl
  | false =>
    cases same
    exact ⟨⟨rfl, SameProcesses.refl _, rfl⟩, rfl, false, decided, rfl⟩

theorem update_frame (s : Rtc) {f : Kernel → Kernel} (quiet : TtyOnly s.kernel (f s.kernel)) :
    RtcFrame s (s.update f) := ⟨rfl, quiet.processes, quiet.processRtc⟩

theorem flicker_frame (s : Rtc) : RtcFrame s s.flicker ∧
    s.flicker.terminalRtcCount = s.terminalRtcCount ∧
    s.flicker.kernel.terminalRtcWait = s.kernel.terminalRtcWait := by
  unfold flicker
  extract_lets s1
  have on : RtcFrame s s1 ∧ s1.terminalRtcCount = s.terminalRtcCount ∧
      s1.kernel.terminalRtcWait = s.kernel.terminalRtcWait := by
    by_cases second : s.countRtc.toInt.tmod 1024 = 0
    · rw [show s1 = s.update Kernel.putCursor from if_pos second]
      exact ⟨s.update_frame (s.kernel.setConsole_ttyOnly _ _), rfl, rfl⟩
    · rw [show s1 = s from if_neg second]
      exact ⟨RtcFrame.refl s, rfl, rfl⟩
  obtain ⟨frame, counts, waits⟩ := on
  split
  · exact ⟨frame.trans (s1.update_frame (s1.kernel.setConsole_ttyOnly _ _)), counts, waits⟩
  · exact ⟨frame, counts, waits⟩

/-- What the handler does to terminal `i`. -/
structure TickedAt (s s' : Rtc) (i : Fin 3) : Prop where
  count : s'.terminalRtcCount i = s.terminalRtcCount i + 1
  due : ∃ due, rtcDue (s.rate i) (s.terminalRtcCount i + 1) = some due ∧
    s'.kernel.terminalRtcWait i = if due then 0 else s.kernel.terminalRtcWait i

theorem Counted.own {i : Fin 3} {s s' : Rtc} (body : Counted i s s') : TickedAt s s' i := by
  refine ⟨by simp [body.counts], ?_⟩
  obtain ⟨due, decided, waits⟩ := body.due
  refine ⟨due, decided, ?_⟩
  rw [waits]
  cases due <;> simp

theorem Counted.other {i j : Fin 3} {s s' : Rtc} (body : Counted i s s') (ne : j ≠ i) :
    s'.terminalRtcCount j = s.terminalRtcCount j ∧
      s'.kernel.terminalRtcWait j = s.kernel.terminalRtcWait j := by
  refine ⟨by simp [body.counts, ne], ?_⟩
  obtain ⟨due, _, waits⟩ := body.due
  rw [waits]
  cases due <;> simp [ne]

/-- The loop counts for each of its terminals once. -/
theorem loop_ticked {terms : List (Fin 3)} (distinct : terms.Nodup) {s s' : Rtc}
    (run : terms.foldlM countTerminal s = some s') : RtcFrame s s' ∧
      (∀ i ∈ terms, TickedAt s s' i) ∧
      ∀ i, i ∉ terms → s'.terminalRtcCount i = s.terminalRtcCount i ∧
        s'.kernel.terminalRtcWait i = s.kernel.terminalRtcWait i := by
  induction terms generalizing s with
  | nil =>
    cases run
    exact ⟨RtcFrame.refl _, by simp, fun _ _ => ⟨rfl, rfl⟩⟩
  | cons j rest ih =>
    rw [List.foldlM_cons] at run
    obtain ⟨s1, first, later⟩ := Option.bind_eq_some_iff.mp run
    obtain ⟨fresh, distinct⟩ := List.nodup_cons.mp distinct
    have body := countTerminal_counted first
    obtain ⟨frame, inside, outside⟩ := ih distinct later
    refine ⟨body.frame.trans frame, ?_, ?_⟩
    · intro i member
      by_cases here : i = j
      · subst here
        obtain ⟨count, wait⟩ := outside i fresh
        obtain ⟨due, decided, own⟩ := body.own.due
        exact ⟨count.trans body.own.count, due, decided, wait.trans own⟩
      · obtain ⟨counts, waits⟩ := body.other here
        have ticked := inside i (List.mem_of_ne_of_mem here member)
        obtain ⟨due, decided, own⟩ := ticked.due
        rw [body.frame.rate, counts] at decided
        rw [waits] at own
        exact ⟨by rw [ticked.count, counts], due, decided, own⟩
    · intro i absent
      have other : i ≠ j := fun same => absent (same ▸ List.mem_cons_self ..)
      obtain ⟨counts, waits⟩ := body.other other
      obtain ⟨counts', waits'⟩ := outside i fun member => absent (List.mem_cons_of_mem _ member)
      exact ⟨counts'.trans counts, waits'.trans waits⟩

theorem rtcHandler_ticked {s s' : Rtc} (run : s.rtcHandler = some s') :
    RtcFrame s s' ∧ ∀ i, TickedAt s s' i := by
  obtain ⟨s1, loop, rfl⟩ := Option.map_eq_some_iff.mp run
  obtain ⟨looped, inside, _⟩ := loop_ticked (by decide) loop
  obtain ⟨frame, counts, waits⟩ := s1.flicker_frame
  refine ⟨RtcFrame.trans ⟨looped.phase, looped.processes, looped.processRtc⟩ frame, fun i => ?_⟩
  have ticked := inside i (by revert i; decide)
  obtain ⟨due, decided, own⟩ := ticked.due
  exact ⟨(congrFun counts i).trans ticked.count, due, decided, (congrFun waits i).trans own⟩

/-- Inversion of a step. -/
theorem step_cases {fs : FsImage} {s s' : Rtc} {a : RtcAct} (move : Step fs s a s') :
    (∃ b r, a = .sys b ∧ Startup.Step fs s.startup (b, r) s'.startup ∧
      s'.terminalRtcCount = s.terminalRtcCount) ∨
    (a = .rtcWait ∧ s' = s.setWait s.kernel.ta 1) ∨
    (a = .rtcTick ∧ RtcFrame s s' ∧ ∀ i, TickedAt s s' i) := by
  cases a with
  | sys b =>
    obtain ⟨r, run, same⟩ := Option.map_eq_some_iff.mp move
    cases same
    exact Or.inl ⟨b, r.2, rfl, run, rfl⟩
  | rtcWait =>
    simp only [Step, perform] at move
    split at move
    · cases move
      exact Or.inr (Or.inl ⟨rfl, rfl⟩)
    · cases move
  | rtcTick =>
    simp only [Step, perform] at move
    split at move
    · cases move
    · exact Or.inr (Or.inr ⟨rfl, rtcHandler_ticked move⟩)

/-- A step that is no tick leaves the counters alone. -/
theorem Step.counts {fs : FsImage} {s s' : Rtc} {a : RtcAct} (move : Step fs s a s')
    (notTick : a.isTick = false) : s'.terminalRtcCount = s.terminalRtcCount := by
  rcases step_cases move with ⟨_, _, _, _, same⟩ | ⟨_, rfl⟩ | ⟨rfl, _⟩
  · exact same
  · rfl
  · cases notTick

theorem Step.ticked {fs : FsImage} {s s' : Rtc} {a : RtcAct} (move : Step fs s a s')
    (tick : a.isTick = true) (i : Fin 3) : TickedAt s s' i := by
  rcases step_cases move with ⟨_, _, rfl, _⟩ | ⟨rfl, _⟩ | ⟨_, _, ticked⟩
  · cases tick
  · cases tick
  · exact ticked i

end Rtc

namespace Rtc

end Rtc

/-- The word at `buf` for a rate below 256. -/
def rateBytes (freq : UInt8) (i : Nat) : UInt8 := if i = 0 then freq else 0

end UnixLite
