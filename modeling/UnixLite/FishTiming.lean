import UnixLite.FishScreen
import Mathlib.Dynamics.PeriodicPts.Defs

namespace UnixLite

open LinkedLists Loops Transition

namespace BlinkStruct

variable {b : BlinkStruct}

/-- The countdown is read as a signed number: from 32769 on it is over at once. -/
theorem due_iff (b : BlinkStruct) : b.due = true ↔ b.countdown.toNat ≤ 1 ∨ 32768 < b.countdown.toNat := by
  have bound := b.countdown.isLt
  have value : (b.countdown - 1#16).toNat = (b.countdown.toNat + 65535) % 65536 := by
    rw [BitVec.toNat_sub, Nat.add_comm]
    rfl
  have signed : BitVec.slt 0#16 (b.countdown - 1#16) = true ↔ 1 < b.countdown.toNat ∧ b.countdown.toNat ≤ 32768 := by
    rw [BitVec.slt_iff_toInt_lt, BitVec.toInt_zero, BitVec.toInt_eq_toNat_cond, value]
    split <;> omega
  unfold due
  cases waits : BitVec.slt 0#16 (b.countdown - 1#16) with
  | false =>
    rw [waits] at signed
    simp only [Bool.not_false, true_iff]
    by_contra outside
    exact absurd (signed.mpr (by omega)) (by simp)
  | true =>
    have inside := signed.mp waits
    simp only [Bool.not_true, Bool.false_eq_true, false_iff]
    omega

/-- While the countdown runs nothing else changes. -/
theorem ticks_run {c : Nat} (start : b.countdown.toNat = c) (short : c ≤ 32768) {j : Nat} (before : j < c) :
    tick^[j] b = { b with countdown := b.countdown - BitVec.ofNat 16 j } := by
  induction j with
  | zero => simp
  | succ j ih =>
    have left : (b.countdown - BitVec.ofNat 16 j).toNat = c - j := by
      rw [BitVec.toNat_sub, BitVec.toNat_ofNat, start]
      omega
    have waits : ¬ ({ b with countdown := b.countdown - BitVec.ofNat 16 j } : BlinkStruct).due = true := by
      rw [due_iff]
      change ¬ ((b.countdown - BitVec.ofNat 16 j).toNat ≤ 1 ∨ 32768 < (b.countdown - BitVec.ofNat 16 j).toNat)
      omega
    rw [Function.iterate_succ_apply', ih (by omega), tick, if_neg waits]
    congr 1
    refine BitVec.eq_of_toNat_eq ?_
    simp only [BitVec.toNat_sub, BitVec.toNat_ofNat]
    omega

/-- After as many ticks as the countdown says the node is turned over. -/
theorem ticks_flip {c : Nat} (start : b.countdown.toNat = c) (positive : 1 ≤ c) (short : c ≤ 32768) :
    tick^[c] b = b.flip := by
  obtain ⟨j, rfl⟩ : ∃ j, c = j + 1 := ⟨c - 1, by omega⟩
  have left : (b.countdown - BitVec.ofNat 16 j).toNat = 1 := by
    rw [BitVec.toNat_sub, BitVec.toNat_ofNat, start]
    omega
  have turns : ({ b with countdown := b.countdown - BitVec.ofNat 16 j } : BlinkStruct).due = true := by
    rw [due_iff]
    exact Or.inl left.le
  rw [Function.iterate_succ_apply', ticks_run start short (Nat.lt_succ_self j), tick, if_pos turns]
  rfl

/-- A node that has just been lit. -/
structure Fresh (b : BlinkStruct) : Prop where
  status : b.status = 1
  countdown : b.countdown = b.onLength
  on : 1 ≤ b.onLength.toNat
  off : 1 ≤ b.offLength.toNat

theorem Fresh.isOn (fresh : Fresh b) : b.isOn = true := by
  rw [BlinkStruct.isOn, fresh.status]
  rfl

theorem Fresh.dark (fresh : Fresh b) : b.flip.isOn = false := by
  rw [isOn_flip, fresh.isOn]
  rfl

theorem Fresh.flip_countdown (fresh : Fresh b) : b.flip.countdown = b.offLength := by
  rw [flip, fresh.isOn]
  rfl

theorem Fresh.flip_flip (fresh : Fresh b) : b.flip.flip = b := by
  have countdown : b.flip.flip.countdown = b.countdown := by
    rw [flip, fresh.dark, fresh.countdown]
    rfl
  have status : b.flip.flip.status = b.status := by
    change b.status ^^^ 1#16 ^^^ 1#16 = b.status
    rw [fresh.status]
    rfl
  have parts : b.flip.flip = { b with countdown := b.flip.flip.countdown, status := b.flip.flip.status } := rfl
  rw [parts, countdown, status]

theorem Fresh.periodic (fresh : Fresh b) (on : b.onLength.toNat ≤ 32768) (off : b.offLength.toNat ≤ 32768) :
    Function.IsPeriodicPt tick (b.onLength.toNat + b.offLength.toNat) b := by
  have lit := ticks_flip (congrArg BitVec.toNat fresh.countdown) fresh.on on
  have dark := ticks_flip (congrArg BitVec.toNat fresh.flip_countdown) fresh.off off
  change tick^[b.onLength.toNat + b.offLength.toNat] b = b
  rw [Nat.add_comm, Function.iterate_add_apply, lit, dark, fresh.flip_flip]

theorem Fresh.blinks (fresh : Fresh b) (on : b.onLength.toNat ≤ 32768) (off : b.offLength.toNat ≤ 32768)
    (k : Nat) :
    (tick^[k] b).isOn = decide (k % (b.onLength.toNat + b.offLength.toNat) < b.onLength.toNat) := by
  have bound : k % (b.onLength.toNat + b.offLength.toNat) < b.onLength.toNat + b.offLength.toNat :=
    Nat.mod_lt _ (Nat.add_pos_left fresh.on _)
  rw [← (fresh.periodic on off).iterate_mod_apply k]
  generalize k % (b.onLength.toNat + b.offLength.toNat) = r at bound
  by_cases lit : r < b.onLength.toNat
  · rw [ticks_run (congrArg BitVec.toNat fresh.countdown) on lit, decide_eq_true lit]
    exact fresh.isOn
  · obtain ⟨j, rfl⟩ : ∃ j, r = j + b.onLength.toNat := ⟨r - b.onLength.toNat, by omega⟩
    have inside : j < b.offLength.toNat := by omega
    rw [Function.iterate_add_apply, ticks_flip (congrArg BitVec.toNat fresh.countdown) fresh.on on,
      ticks_run (congrArg BitVec.toNat fresh.flip_countdown) off inside, decide_eq_false lit]
    exact fresh.dark

/-- The schedule is kept exactly for lengths that are not negative as signed
16-bit numbers minus one. -/
theorem Fresh.blinks_iff (fresh : Fresh b) :
    (∀ k, (tick^[k] b).isOn = decide (k % (b.onLength.toNat + b.offLength.toNat) < b.onLength.toNat)) ↔
      b.onLength.toNat ≤ 32768 ∧ b.offLength.toNat ≤ 32768 := by
  refine ⟨fun blinks => ?_, fun short => fresh.blinks short.1 short.2⟩
  have positive := fresh.off
  have on : b.onLength.toNat ≤ 32768 := by
    by_contra long
    have due : b.due = true := b.due_iff.mpr (Or.inr (by rw [fresh.countdown]; omega))
    have first : (tick^[1] b).isOn = false := by
      rw [Function.iterate_one, tick, if_pos due]
      exact fresh.dark
    have early : 1 % (b.onLength.toNat + b.offLength.toNat) < b.onLength.toNat := by
      rw [Nat.mod_eq_of_lt (by omega)]
      omega
    exact absurd (first.symm.trans ((blinks 1).trans (decide_eq_true early))) (by simp)
  refine ⟨on, ?_⟩
  by_contra long
  have due : b.flip.due = true := b.flip.due_iff.mpr (Or.inr (by rw [fresh.flip_countdown]; omega))
  have back : (tick^[b.onLength.toNat + 1] b).isOn = true := by
    rw [Function.iterate_succ_apply', ticks_flip (congrArg BitVec.toNat fresh.countdown) fresh.on on, tick,
      if_pos due, fresh.flip_flip]
    exact fresh.isOn
  have late : ¬ (b.onLength.toNat + 1) % (b.onLength.toNat + b.offLength.toNat) < b.onLength.toNat := by
    rw [Nat.mod_eq_of_lt (by omega)]
    omega
  exact absurd (back.symm.trans ((blinks _).trans (decide_eq_false late))) (by simp)

theorem chars_ticks (b : BlinkStruct) (n : Nat) :
    (tick^[n] b).onChar = b.onChar ∧ (tick^[n] b).offChar = b.offChar := by
  induction n generalizing b with
  | zero => exact ⟨rfl, rfl⟩
  | succ n ih =>
    have once : b.tick.onChar = b.onChar ∧ b.tick.offChar = b.offChar := by
      unfold tick
      split <;> exact ⟨rfl, rfl⟩
    exact ⟨(ih b.tick).1.trans once.1, (ih b.tick).2.trans once.2⟩

theorem started_fresh {user : BlinkStruct} (on : 1 ≤ user.onLength.toNat) (off : 1 ≤ user.offLength.toNat) :
    Fresh user.started.detach := ⟨rfl, rfl, on, off⟩

end BlinkStruct

namespace Fish

/-- Calls that leave the entry at this location alone and put no other one there. -/
def Spares (location : BitVec 16) (s : Fish) (l : Call × Answer) (s' : Fish) : Prop :=
  Step s l s' ∧ SlotBelow s l.1 ∧ ¬ Touches location l.1 ∧ ∀ user, l.1 = .add user → user.location ≠ location

def tickCount (history : List (Event Fish (Call × Answer))) : Nat :=
  (history.map fun e => ticks e.act.1).sum

/-- The entry of `user` is listed, and lit and shown so in the first part of
its period alone, `k` ticks after it was added. -/
def OnSchedule (s : Fish) (user : BlinkStruct) (k : Nat) : Prop :=
  ∃ nodes, s.links.Chain nodes ∧ ∃ i ∈ nodes, (s.blinkArray i).location = user.location ∧
    (s.blinkArray i).isOn = decide (k % (user.onLength.toNat + user.offLength.toNat) < user.onLength.toNat) ∧
    s.vmem (2 * user.location.toNat) =
      if k % (user.onLength.toNat + user.offLength.toNat) < user.onLength.toNat then user.onChar else user.offChar

/-- The node `i` is the only one at its place, holds `b` and shows it. -/
structure Tracks (s : Fish) (nodes : List (Fin (80 * 25))) (i : Fin (80 * 25)) (b : BlinkStruct) : Prop where
  listed : Listed s nodes
  member : i ∈ nodes
  node : (s.blinkArray i).detach = b
  matched : Matches s i
  alone : ∀ j ∈ nodes, (s.blinkArray j).location = b.location → j = i

section Tracks

variable {s s' : Fish} {nodes nodes' : List (Fin (80 * 25))} {i : Fin (80 * 25)} {b user : BlinkStruct}

theorem Tracks.location (tracks : Tracks s nodes i b) : (s.blinkArray i).location = b.location := by
  rw [← tracks.node]
  rfl

theorem Tracks.added {edx : Fin (80 * 25)} (listed : Listed s nodes) (fresh : edx ∉ nodes)
    (free : ∀ j ∈ nodes, (s.blinkArray j).location ≠ user.location) :
    Tracks (s.inserted edx user) (edx :: nodes) edx user.started.detach where
  listed := listed.insert fresh user
  member := List.mem_cons_self ..
  node := by
    rw [inserted_self]
    rfl
  matched := inserted_matches s edx user
  alone j member place := by
    rcases List.mem_cons.mp member with same | old
    · exact same
    · have other : j ≠ edx := fun same => fresh (same ▸ old)
      rw [inserted_other other] at place
      exact absurd place (free j old)

theorem Tracks.change {l : Call × Answer} (tracks : Tracks s nodes i b) (change : Change s nodes l.1 l.2 s' nodes')
    (spares : ¬ Touches b.location l.1) (elsewhere : ∀ user, l.1 = .add user → user.location ≠ b.location) :
    Tracks s' nodes' i (BlinkStruct.tick^[ticks l.1] b) := by
  have location := tracks.location
  have apart : ¬ Touches (s.blinkArray i).location l.1 := by rwa [location]
  obtain ⟨member, node⟩ := change.untouched tracks.listed tracks.member apart
  have alone := tracks.alone
  rw [← location] at alone elsewhere
  have matched := change.matches tracks.matched tracks.member alone apart elsewhere
  rw [location] at elsewhere
  have place := BlinkStruct.location_ticks b (ticks l.1)
  refine ⟨change.listed tracks.listed, member, by rw [node, tracks.node], matched, fun j inside there => ?_⟩
  rw [place] at there
  rcases change.origin tracks.listed inside with ⟨user, add, new⟩ | ⟨old, kept⟩
  · exact absurd (new.symm.trans there) (elsewhere user add)
  · exact tracks.alone j old (kept.symm.trans there)

theorem Tracks.shows (tracks : Tracks s nodes i b) :
    (s.blinkArray i).isOn = b.isOn ∧ s.vmem (2 * b.location.toNat) = b.shown := by
  have location := tracks.location
  have matched := tracks.matched
  rw [Matches, ← BlinkStruct.detach_shown, tracks.node, location] at matched
  have lit := congrArg BlinkStruct.isOn tracks.node
  exact ⟨lit, matched⟩

/-- A tracked node is tracked through calls that spare it. -/
theorem Tracks.run {location : BitVec 16} {later : List (Event Fish (Call × Answer))}
    (tracks : Tracks s nodes i b) (place : b.location = location) (run : Run (Spares location) s later s') :
    ∃ nodes', Tracks s' nodes' i (BlinkStruct.tick^[tickCount later] b) := by
  refine run.history_invariant (fun past s => ∃ nodes', Tracks s nodes' i (BlinkStruct.tick^[tickCount past] b))
    ⟨nodes, tracks⟩ ?_
  rintro past s l s' _ ⟨nodes, tracks⟩ ⟨step, below, spares, elsewhere⟩
  obtain ⟨nodes', change⟩ := tracks.listed.change below step
  rw [← place, ← BlinkStruct.location_ticks b (tickCount past)] at spares elsewhere
  refine ⟨nodes', ?_⟩
  have count : tickCount (⟨s, l, s'⟩ :: past) = ticks l.1 + tickCount past := rfl
  rw [count, Function.iterate_add_apply]
  exact tracks.change change spares elsewhere

theorem Listed.tick_run {location : BitVec 16} (listed : Listed s nodes) (k : Nat) :
    ∃ later s', Run (Spares location) s later s' ∧ tickCount later = k ∧ Listed s' nodes := by
  induction k with
  | zero => exact ⟨[], s, .start, rfl, listed⟩
  | succ k ih =>
    obtain ⟨later, s', run, count, listed'⟩ := ih
    have spared : Spares location s' (.tasklet, 0, none) (nodes.foldl tickNode s') :=
      ⟨listed'.step_tasklet, trivial, id, fun _ add => by cases add⟩
    refine ⟨_, _, run.next spared, ?_, listed'.tasklet⟩
    change 1 + tickCount later = k + 1
    omega

end Tracks

/-- An entry keeps its schedule through all calls that spare it exactly when
neither of its lengths is above 32768. -/
theorem blink_timing {vmem : Nat → UInt8} {history : List (Event Fish (Call × Answer))} {s s1 : Fish}
    {user : BlinkStruct} (run : Run Step (boot vmem) history s)
    (proper : ∀ e ∈ history, SlotBelow e.pre e.act.1) (below : SlotBelow s (.add user))
    (on : 1 ≤ user.onLength.toNat) (off : 1 ≤ user.offLength.toNat)
    (free : ∀ nodes, s.links.Chain nodes → ∀ i ∈ nodes, (s.blinkArray i).location ≠ user.location)
    (add : Step s (.add user, 0, none) s1) :
    (∀ later s', Run (Spares user.location) s1 later s' → OnSchedule s' user (tickCount later)) ↔
      user.onLength.toNat ≤ 32768 ∧ user.offLength.toNat ≤ 32768 := by
  obtain ⟨nodes, listed⟩ := run.history_invariant_of_events (fun _ s => ∃ nodes, Listed s nodes)
    (fun s l => SlotBelow s l.1) ⟨[], boot_listed vmem⟩
    (fun _ s l s' _ inv below step => by
      obtain ⟨nodes, listed⟩ := inv
      obtain ⟨nodes', change⟩ := listed.change below step
      exact ⟨nodes', change.listed listed⟩) proper
  have fresh := BlinkStruct.started_fresh on off
  obtain ⟨nodes1, change⟩ := listed.change below add
  cases change with
  | @added _ edx _ unused =>
    have tracks := Tracks.added listed unused (free nodes listed.chain)
    refine Iff.trans ?_ fresh.blinks_iff
    constructor
    · intro schedule k
      obtain ⟨later, s', run', rfl, _⟩ := tracks.listed.tick_run k
      obtain ⟨nodes', tracks'⟩ := tracks.run rfl run'
      obtain ⟨other, chain, i, member, place, lit, _⟩ := schedule later s' run'
      rw [← Segment.unique tracks'.listed.chain chain] at member
      have there : (BlinkStruct.tick^[tickCount later] user.started.detach).location = user.location :=
        BlinkStruct.location_ticks _ _
      have same := tracks'.alone i member (place.trans there.symm)
      rw [same, tracks'.shows.1] at lit
      exact lit
    · intro blinks later s' run'
      obtain ⟨nodes', tracks'⟩ := tracks.run rfl run'
      obtain ⟨lit, byte⟩ := tracks'.shows
      have chars := user.started.detach.chars_ticks (tickCount later)
      rw [BlinkStruct.location_ticks] at byte
      refine ⟨nodes', tracks'.listed.chain, edx, tracks'.member,
        tracks'.location.trans (BlinkStruct.location_ticks _ _), lit.trans (blinks _), ?_⟩
      rw [BlinkStruct.shown, blinks, chars.1, chars.2] at byte
      simp only [decide_eq_true_eq] at byte
      exact byte

/-- The first entry after the start, and the first tick after it. -/
theorem boot_spares {user : BlinkStruct} (location : BitVec 16) :
    Spares location ((boot fun _ => 32).inserted 0 user) (.tasklet, 0, none)
      (((boot fun _ => 32).inserted 0 user).tickNode 0) := by
  have listed : Listed ((boot fun _ => 32).inserted 0 user) [0] := (boot_listed _).insert List.not_mem_nil user
  exact ⟨listed.step_tasklet, trivial, id, fun _ add => by cases add⟩

theorem boot_free (user : BlinkStruct) :
    ∀ nodes, (boot fun _ => 32).links.Chain nodes →
      ∀ i ∈ nodes, ((boot fun _ => 32).blinkArray i).location ≠ user.location := by
  intro nodes chain i listed
  rw [← Segment.unique (boot_listed fun _ => 32).chain chain] at listed
  exact absurd listed List.not_mem_nil

theorem boot_slotBelow (user : BlinkStruct) : SlotBelow (boot fun _ => 32) (.add user) := by
  intro _ nodes chain i listed
  rw [← Segment.unique (boot_listed fun _ => 32).chain chain] at listed
  exact absurd listed List.not_mem_nil

theorem blink_timing_sample : OnSchedule (oneBlink.tickNode 0) (blinkAt 540) 1 :=
  (blink_timing .start (by simp) (boot_slotBelow _) (by decide) (by decide) (boot_free _) oneBlink_step.1).mpr
    ⟨by decide, by decide⟩ _ _ (Run.start.next (boot_spares 540))

/-- A length whose countdown starts out negative for the signed comparison. -/
def longBlink : BlinkStruct := { blinkAt 540 with onLength := 32769 }

/-- An entry that should stay lit for 32769 ticks is dark after the first one. -/
theorem blink_timing_dark :
    ¬ ∀ (vmem : Nat → UInt8) (history : List (Event Fish (Call × Answer))) (s s1 : Fish) (user : BlinkStruct),
      Run Step (boot vmem) history s → (∀ e ∈ history, SlotBelow e.pre e.act.1) → SlotBelow s (.add user) →
      1 ≤ user.location.toNat → 1 ≤ user.onLength.toNat → 1 ≤ user.offLength.toNat →
      (∀ nodes, s.links.Chain nodes → ∀ i ∈ nodes, (s.blinkArray i).location ≠ user.location) →
      Step s (.add user, 0, none) s1 →
      ∀ later s', Run (Spares user.location) s1 later s' → OnSchedule s' user (tickCount later) := by
  intro always
  obtain ⟨nodes, chain, i, member, _, lit, _⟩ :=
    always _ _ _ _ longBlink .start (by simp) (boot_slotBelow _) (by decide) (by decide) (by decide) (boot_free _)
      (boot_add (fun _ => 32) longBlink (by decide)) _ _ (Run.start.next (boot_spares 540))
  have first : Listed ((boot fun _ => 32).inserted 0 longBlink) [0] :=
    (boot_listed _).insert List.not_mem_nil longBlink
  have listed : Listed (((boot fun _ => 32).inserted 0 longBlink).tickNode 0) [0] := first.tasklet
  rw [← Segment.unique listed.chain chain] at member
  rw [List.mem_singleton.mp member] at lit
  exact absurd lit (by decide)

end Fish

end UnixLite
