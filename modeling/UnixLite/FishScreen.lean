import UnixLite.FishLists

namespace UnixLite

open LinkedLists Loops Transition

namespace BlinkStruct

def timing (b : BlinkStruct) : BitVec 16 × BitVec 16 × BitVec 16 × BitVec 16 :=
  (b.onLength, b.offLength, b.countdown, b.status)

theorem detach_shown (b : BlinkStruct) : b.detach.shown = b.shown := rfl

theorem tick_shown_due {b : BlinkStruct} (due : b.due = true) : b.tick.shown = b.flip.shown := by
  rw [tick, if_pos due]

theorem tick_shown_waits {b : BlinkStruct} (waits : ¬ b.due = true) : b.tick.shown = b.shown := by
  rw [tick, if_neg waits]
  rfl

/-- Nodes with the same timing keep it. -/
theorem timing_ticks {b src : BlinkStruct} (same : b.timing = src.timing) (n : Nat) :
    (tick^[n] b).timing = (tick^[n] src).timing := by
  induction n generalizing b src with
  | zero => exact same
  | succ n ih =>
    refine ih ?_
    simp only [timing, Prod.mk.injEq] at same
    obtain ⟨on, off, countdown, status⟩ := same
    have due : b.due = src.due := by rw [due, due, countdown]
    have lit : b.isOn = src.isOn := by rw [isOn, isOn, status]
    unfold tick
    rw [due]
    split
    · simp only [timing, flip, lit, on, off, status]
    · simp only [timing, on, off, countdown, status]

theorem location_ticks (b : BlinkStruct) (n : Nat) : (tick^[n] b).location = b.location := by
  induction n generalizing b with
  | zero => rfl
  | succ n ih => exact (ih b.tick).trans b.tick_location

theorem shown_follow (b src : BlinkStruct) :
    (b.follow src).shown = if src.isOn then b.onChar else b.offChar := rfl

end BlinkStruct

namespace Fish

/-- `cmovl` after `testb $0x1` never moves. -/
theorem lessFlags_testb (x : BitVec 8) : lessFlags (testb 1 x) = false := by
  have clear : (1#8 &&& x).msb = false := by
    rw [BitVec.msb_and]
    rfl
  simp [lessFlags, testb, clear]

/-- The byte at the node's place is what the node should show. -/
def Matches (s : Fish) (i : Fin (80 * 25)) : Prop :=
  s.vmem (2 * (s.blinkArray i).location.toNat) = (s.blinkArray i).shown

section Matches

variable {s s' : Fish} {nodes : List (Fin (80 * 25))} {i j : Fin (80 * 25)}

theorem Matches.congr (matched : Matches s j) (node : (s'.blinkArray j).detach = (s.blinkArray j).detach)
    (byte : s'.vmem (2 * (s.blinkArray j).location.toNat) = s.vmem (2 * (s.blinkArray j).location.toNat)) :
    Matches s' j := by
  have place := congrArg BlinkStruct.location node
  have shown := congrArg BlinkStruct.shown node
  change (s'.blinkArray j).location = (s.blinkArray j).location at place
  rw [BlinkStruct.detach_shown, BlinkStruct.detach_shown] at shown
  rw [Matches, place, shown, byte]
  exact matched

theorem poke_elsewhere {s : Fish} {a b : BitVec 16} (other : a ≠ b) (cl : UInt8) :
    (s.mp1Poke (2 * a.toNat) cl).vmem (2 * b.toNat) = s.vmem (2 * b.toNat) := by
  refine Function.update_of_ne (fun same => other ?_) _ _
  exact BitVec.eq_of_toNat_eq (by omega)

theorem inserted_matches (s : Fish) (edx : Fin (80 * 25)) (user : BlinkStruct) :
    Matches (s.inserted edx user) edx := by
  have lit : ({ user.started with next := s.mp1ListHead } : BlinkStruct).isOn = true := user.isOn_started
  rw [Matches, inserted_self, BlinkStruct.shown, lit]
  exact Function.update_self ..

theorem Matches.inserted (matched : Matches s j) {edx : Fin (80 * 25)} {user : BlinkStruct} (other : j ≠ edx)
    (apart : (s.blinkArray j).location ≠ user.location) : Matches (s.inserted edx user) j :=
  matched.congr (congrArg BlinkStruct.detach (inserted_other other s user)) (poke_elsewhere apart.symm _)

theorem Matches.unlinked (matched : Matches s j) {before : List (Fin (80 * 25))} (other : j ≠ i) :
    Matches (s.unlinked before i) j := by
  refine matched.congr (unlinked_detach other) ?_
  unfold Fish.unlinked
  cases Links.placeAfter .head before <;> rfl

theorem Matches.synced (matched : Matches s j) {esi edi : Fin (80 * 25)} (other : j ≠ edi)
    (apart : (s.blinkArray j).location ≠ (s.blinkArray edi).location) : Matches (s.syncNodes esi edi) j :=
  matched.congr (congrArg BlinkStruct.detach (syncNodes_other other s esi)) (poke_elsewhere apart.symm _)

/-- SYNC always draws the character of the dark phase. -/
theorem synced_matches_iff (s : Fish) (esi edi : Fin (80 * 25)) :
    Matches (s.syncNodes esi edi) edi ↔
      ((s.blinkArray esi).isOn = false ∨ (s.blinkArray edi).onChar = (s.blinkArray edi).offChar) := by
  have byte : (s.syncNodes esi edi).vmem (2 * (s.blinkArray edi).location.toNat) = (s.blinkArray edi).offChar := by
    refine (Function.update_self ..).trans ?_
    rw [lessFlags_testb]
    rfl
  have place : ((s.blinkArray edi).follow (s.blinkArray esi)).location = (s.blinkArray edi).location := rfl
  rw [Matches, syncNodes_self, place, byte, BlinkStruct.shown_follow]
  cases (s.blinkArray esi).isOn with
  | false => simp
  | true => simp [eq_comm]

theorem tickNode_matches (matched : Matches s i) : Matches (s.tickNode i) i := by
  have node : (s.tickNode i).blinkArray i = (s.blinkArray i).tick := by
    rw [tickNode_blinkArray, Function.update_self]
  rw [Matches, node, BlinkStruct.tick_location, tickNode_eq]
  by_cases due : (s.blinkArray i).due = true
  · rw [if_pos due, BlinkStruct.tick_shown_due due]
    exact Function.update_self ..
  · rw [if_neg due, BlinkStruct.tick_shown_waits due]
    exact matched

theorem Matches.tickNode (matched : Matches s j) (other : j ≠ i)
    (apart : (s.blinkArray j).location ≠ (s.blinkArray i).location) : Matches (s.tickNode i) j := by
  have node : (s.tickNode i).blinkArray j = s.blinkArray j := by
    rw [tickNode_blinkArray, Function.update_of_ne other]
  refine matched.congr (congrArg BlinkStruct.detach node) ?_
  rw [tickNode_eq]
  split
  · exact poke_elsewhere apart.symm _
  · rfl

theorem tickNode_location (s : Fish) (i j : Fin (80 * 25)) :
    ((s.tickNode i).blinkArray j).location = (s.blinkArray j).location := by
  rw [tickNode_blinkArray]
  by_cases here : j = i
  · rw [here, Function.update_self, BlinkStruct.tick_location]
  · rw [Function.update_of_ne here]

theorem Matches.ticked (matched : Matches s j)
    (apart : ∀ i ∈ nodes, (s.blinkArray i).location = (s.blinkArray j).location → i = j) :
    Matches (nodes.foldl Fish.tickNode s) j := by
  induction nodes generalizing s with
  | nil => exact matched
  | cons i nodes ih =>
    obtain ⟨here, later⟩ := List.forall_mem_cons.mp apart
    have kept : Matches (s.tickNode i) j := by
      by_cases same : j = i
      · subst same
        exact tickNode_matches matched
      · exact matched.tickNode same fun place => same (here place.symm).symm
    refine ih kept fun k member place => later k member ?_
    rwa [tickNode_location, tickNode_location] at place

end Matches

/-- The locations of the list are pairwise different and in 1..1999. -/
structure Apart (s : Fish) (nodes : List (Fin (80 * 25))) : Prop where
  distinct : ∀ i ∈ nodes, ∀ j ∈ nodes, (s.blinkArray i).location = (s.blinkArray j).location → i = j
  inside : ∀ i ∈ nodes, 1 ≤ (s.blinkArray i).location.toNat ∧ (s.blinkArray i).location.toNat ≤ 1999

/-- A call after which the listed locations are so. -/
def StepApart (s : Fish) (l : Call × Answer) (s' : Fish) : Prop :=
  Step s l s' ∧ ∀ nodes, s'.links.Chain nodes → Apart s' nodes

/-- Every node of the list shows what its status says. -/
def Shows (s : Fish) : Prop := ∀ nodes, s.links.Chain nodes → ∀ i ∈ nodes, Matches s i

/-- A SYNC whose source is dark, or whose target looks the same in both phases. -/
def DrawsRight (s : Fish) : Call → Prop
  | .sync arg => ∀ nodes, s.links.Chain nodes → ∀ i ∈ nodes, ∀ j ∈ nodes,
      (s.blinkArray i).location = syncFirst arg → (s.blinkArray j).location = syncSecond arg →
      (s.blinkArray i).isOn = false ∨ (s.blinkArray j).onChar = (s.blinkArray j).offChar
  | _ => True

/-- The list is proper, its locations apart and its nodes show what they should. -/
structure Shown (s : Fish) (nodes : List (Fin (80 * 25))) : Prop where
  listed : Listed s nodes
  apart : Apart s nodes
  shown : ∀ i ∈ nodes, Matches s i

section Shown

variable {s s' : Fish} {nodes nodes' : List (Fin (80 * 25))} {c : Call} {a : Answer}

theorem Apart.slotBelow (apart : Apart s nodes) (listed : Listed s nodes) (c : Call) : SlotBelow s c := by
  cases c with
  | add user =>
    intro _ other chain i member zero
    rw [← Segment.unique listed.chain chain] at member
    have positive := (apart.inside i member).1
    rw [zero] at positive
    exact absurd positive (by decide)
  | remove _ | find _ | sync _ | tasklet => trivial

theorem find_location {location : BitVec 16} {i : Fin (80 * 25)}
    (found : (nodes.find? fun i => (s.blinkArray i).isAt location) = some i) :
    i ∈ nodes ∧ (s.blinkArray i).location = location := by
  have passes := List.find?_some found
  exact ⟨List.mem_of_find?_eq_some found, BlinkStruct.isAt_iff.mp passes⟩

theorem Apart.find (apart : Apart s nodes) {i : Fin (80 * 25)} {location : BitVec 16} (member : i ∈ nodes)
    (place : (s.blinkArray i).location = location) :
    (nodes.find? fun i => (s.blinkArray i).isAt location) = some i := by
  cases found : nodes.find? fun i => (s.blinkArray i).isAt location with
  | none =>
    exact absurd (BlinkStruct.isAt_iff.mpr place) (List.find?_eq_none.mp found i member)
  | some j =>
    obtain ⟨listed, there⟩ := find_location found
    rw [apart.distinct i member j listed (place.trans there.symm)]

/-- A call that draws right leaves every node showing what it should. -/
theorem Shown.change (inv : Shown s nodes) (change : Change s nodes c a s' nodes') (apart : Apart s' nodes')
    (draws : DrawsRight s c) : Shown s' nodes' := by
  refine ⟨change.listed inv.listed, apart, fun j member => ?_⟩
  cases change with
  | @added user edx _ fresh =>
    rcases List.mem_cons.mp member with rfl | old
    · exact inserted_matches _ _ _
    · have other : j ≠ edx := fun same => fresh (same ▸ old)
      refine (inv.shown j old).inserted other fun place => other ?_
      refine apart.distinct j member edx (List.mem_cons_self ..) ?_
      rw [inserted_other other, inserted_self, place]
      rfl
  | @removed arg before after i split =>
    subst split
    have old : j ∈ before ++ i :: after := List.perm_middle.mem_iff.mpr (List.mem_cons_of_mem _ member)
    exact (inv.shown j old).unlinked (inv.listed.around member)
  | @synced arg esi edi source target =>
    obtain ⟨first, here⟩ := find_location source
    obtain ⟨second, there⟩ := find_location target
    by_cases same : j = edi
    · subst same
      exact (synced_matches_iff s esi j).mpr (draws nodes inv.listed.chain esi first j second here there)
    · exact (inv.shown j member).synced same fun place => same (inv.apart.distinct j member edi second place)
  | ticked =>
    exact (inv.shown j member).ticked fun i other place => inv.apart.distinct i other j member place
  | invalid _ | full _ | absent _ | unknown _ | found _ | noSource _ | noTarget _ _ => exact inv.shown j member

/-- A call after which every node shows what it should has drawn right. -/
theorem Shown.draws (inv : Shown s nodes) (change : Change s nodes c a s' nodes') (shows : Shows s') :
    DrawsRight s c := by
  have listed := change.listed inv.listed
  cases c with
  | sync arg =>
    intro other chain i first j second here there
    rw [← Segment.unique inv.listed.chain chain] at first second
    cases change with
    | noSource missing => exact absurd (missing.symm.trans (inv.apart.find first here)) (by simp)
    | noTarget _ missing => exact absurd (missing.symm.trans (inv.apart.find second there)) (by simp)
    | synced source target =>
      obtain rfl := Option.some.inj (source.symm.trans (inv.apart.find first here))
      obtain rfl := Option.some.inj (target.symm.trans (inv.apart.find second there))
      exact (synced_matches_iff s _ _).mp (shows nodes listed.chain _ second)
  | add _ | remove _ | find _ | tasklet => trivial

end Shown

/-- REMOVE of the entry at this location, or SYNC of another one onto it. -/
def Touches (location : BitVec 16) : Call → Prop
  | .remove arg => arg.setWidth 16 = location
  | .sync arg => syncSecond arg = location
  | _ => False

def ticks : Call → Nat
  | .tasklet => 1
  | _ => 0

/-- A node that a call does not touch stays on the list and is only counted down. -/
theorem Change.untouched {s s' : Fish} {nodes nodes' : List (Fin (80 * 25))} {c : Call} {a : Answer}
    {j : Fin (80 * 25)} (change : Change s nodes c a s' nodes') (listed : Listed s nodes) (member : j ∈ nodes)
    (apart : ¬ Touches (s.blinkArray j).location c) :
    j ∈ nodes' ∧ (s'.blinkArray j).detach = BlinkStruct.tick^[ticks c] (s.blinkArray j).detach := by
  cases change with
  | @added user edx _ fresh =>
    have other : j ≠ edx := fun same => fresh (same ▸ member)
    exact ⟨List.mem_cons_of_mem _ member, congrArg BlinkStruct.detach (inserted_other other s user)⟩
  | @removed arg before after i split passes =>
    subst split
    have other : j ≠ i := by
      rintro rfl
      exact apart (BlinkStruct.isAt_iff.mp passes).symm
    refine ⟨?_, unlinked_detach other⟩
    rcases List.mem_cons.mp (List.perm_middle.mem_iff.mp member) with same | kept
    · exact absurd same other
    · exact kept
  | @synced arg esi edi _ target =>
    have other : j ≠ edi := by
      rintro rfl
      exact apart (find_location target).2.symm
    exact ⟨member, congrArg BlinkStruct.detach (syncNodes_other other s esi)⟩
  | ticked =>
    refine ⟨member, ?_⟩
    rw [foldl_tickNode_blinkArray s (Segment.nodup listed.chain), if_pos member, BlinkStruct.detach_tick]
    rfl
  | invalid _ | full _ | absent _ | unknown _ | found _ | noSource _ | noTarget _ _ => exact ⟨member, rfl⟩

theorem location_of_ticks {b b' : BlinkStruct} {n : Nat} (ticked : b'.detach = BlinkStruct.tick^[n] b.detach) :
    b'.location = b.location := by
  have place := congrArg BlinkStruct.location ticked
  rw [BlinkStruct.location_ticks] at place
  exact place

/-- A node of the new list is the one just added or was there before. -/
theorem Change.origin {s s' : Fish} {nodes nodes' : List (Fin (80 * 25))} {c : Call} {a : Answer}
    {j : Fin (80 * 25)} (change : Change s nodes c a s' nodes') (listed : Listed s nodes) (member : j ∈ nodes') :
    (∃ user, c = .add user ∧ (s'.blinkArray j).location = user.location) ∨
      (j ∈ nodes ∧ (s'.blinkArray j).location = (s.blinkArray j).location) := by
  cases change with
  | @added user edx _ fresh =>
    rcases List.mem_cons.mp member with rfl | old
    · refine Or.inl ⟨user, rfl, ?_⟩
      rw [inserted_self]
      rfl
    · have other : j ≠ edx := fun same => fresh (same ▸ old)
      exact Or.inr ⟨old, congrArg BlinkStruct.location (inserted_other other s user)⟩
  | @removed arg before after i split =>
    subst split
    have same : ((s.unlinked before i).blinkArray j).detach = (s.blinkArray j).detach :=
      unlinked_detach (listed.around member)
    have place := congrArg BlinkStruct.location same
    exact Or.inr ⟨List.perm_middle.mem_iff.mpr (List.mem_cons_of_mem _ member), place⟩
  | @synced arg esi edi => exact Or.inr ⟨member, s.syncNodes_location esi edi j⟩
  | ticked =>
    refine Or.inr ⟨member, ?_⟩
    rw [foldl_tickNode_blinkArray s (Segment.nodup listed.chain), if_pos member, BlinkStruct.tick_location]
  | invalid _ | full _ | absent _ | unknown _ | found _ | noSource _ | noTarget _ _ => exact Or.inr ⟨member, rfl⟩

/-- A node alone at its place that a call does not touch goes on showing what it should. -/
theorem Change.matches {s s' : Fish} {nodes nodes' : List (Fin (80 * 25))} {c : Call} {a : Answer}
    {j : Fin (80 * 25)} (change : Change s nodes c a s' nodes') (matched : Matches s j) (member : j ∈ nodes)
    (alone : ∀ i ∈ nodes, (s.blinkArray i).location = (s.blinkArray j).location → i = j)
    (spares : ¬ Touches (s.blinkArray j).location c)
    (elsewhere : ∀ user, c = .add user → user.location ≠ (s.blinkArray j).location) : Matches s' j := by
  cases change with
  | @added user edx _ fresh =>
    have other : j ≠ edx := fun same => fresh (same ▸ member)
    exact matched.inserted other (elsewhere user rfl).symm
  | @removed arg before after i split passes =>
    refine matched.unlinked ?_
    rintro rfl
    exact spares (BlinkStruct.isAt_iff.mp passes).symm
  | @synced arg esi edi _ target =>
    obtain ⟨second, there⟩ := find_location target
    have apart : (s.blinkArray j).location ≠ (s.blinkArray edi).location := by
      rw [there]
      exact fun same => spares same.symm
    exact matched.synced (fun same => apart (congrArg (fun i => (s.blinkArray i).location) same)) apart
  | ticked => exact matched.ticked alone
  | invalid _ | full _ | absent _ | unknown _ | found _ | noSource _ | noTarget _ _ => exact matched

/-- After a SYNC of `arg` that nothing has undone since, its two nodes have the
same timing. -/
def InStep (past : List (Event Fish (Call × Answer))) (s : Fish) (nodes : List (Fin (80 * 25))) : Prop :=
  ∀ later e earlier arg, past = later ++ e :: earlier → e.act = (.sync arg, 0, none) →
    (∀ x ∈ later, ¬ Touches (syncFirst arg) x.act.1 ∧ ¬ Touches (syncSecond arg) x.act.1) →
    ∃ i ∈ nodes, ∃ j ∈ nodes, (s.blinkArray i).location = syncFirst arg ∧
      (s.blinkArray j).location = syncSecond arg ∧ (s.blinkArray j).timing = (s.blinkArray i).timing

theorem InStep.change {s s' : Fish} {nodes nodes' : List (Fin (80 * 25))} {l : Call × Answer}
    {past : List (Event Fish (Call × Answer))} (inStep : InStep past s nodes) (listed : Listed s nodes)
    (change : Change s nodes l.1 l.2 s' nodes') : InStep (⟨s, l, s'⟩ :: past) s' nodes' := by
  intro later e earlier arg split synced untouched
  cases later with
  | nil =>
    cases split
    obtain ⟨c, a⟩ := l
    cases synced
    cases change with
    | @synced _ esi edi source target =>
      obtain ⟨first, here⟩ := find_location source
      obtain ⟨second, there⟩ := find_location target
      refine ⟨esi, first, edi, second, (s.syncNodes_location esi edi esi).trans here,
        (s.syncNodes_location esi edi edi).trans there, ?_⟩
      by_cases same : esi = edi
      · rw [same]
      · rw [syncNodes_other same, syncNodes_self]
        rfl
  | cons x later =>
    obtain ⟨rfl, rfl⟩ := List.cons.inj split
    obtain ⟨now, before⟩ := List.forall_mem_cons.mp untouched
    obtain ⟨i, first, j, second, here, there, same⟩ := inStep later e earlier arg rfl synced before
    rw [← here, ← there] at now
    obtain ⟨first', i'⟩ := change.untouched listed first now.1
    obtain ⟨second', j'⟩ := change.untouched listed second now.2
    refine ⟨i, first', j, second', ?_, ?_, ?_⟩
    · exact (location_of_ticks i').trans here
    · exact (location_of_ticks j').trans there
    · have detached : (s.blinkArray j).detach.timing = (s.blinkArray i).detach.timing := same
      have timed := BlinkStruct.timing_ticks detached (ticks l.1)
      rw [← i', ← j'] at timed
      exact timed

/-- The node's place shows its lit character. -/
def ShowsOn (s : Fish) (i : Fin (80 * 25)) : Prop :=
  s.vmem (2 * (s.blinkArray i).location.toNat) = (s.blinkArray i).onChar

theorem Matches.showsOn {s : Fish} {i : Fin (80 * 25)} (matched : Matches s i) :
    ShowsOn s i ↔ ((s.blinkArray i).isOn = true ∨ (s.blinkArray i).onChar = (s.blinkArray i).offChar) := by
  rw [ShowsOn, matched, BlinkStruct.shown]
  cases (s.blinkArray i).isOn with
  | false => simp [eq_comm]
  | true => simp

theorem Shown.step {s s' : Fish} {nodes : List (Fin (80 * 25))} {l : Call × Answer} (inv : Shown s nodes)
    (step : StepApart s l s') :
    ∃ nodes', Change s nodes l.1 l.2 s' nodes' ∧ Listed s' nodes' ∧ Apart s' nodes' := by
  obtain ⟨nodes', change⟩ := inv.listed.change (inv.apart.slotBelow inv.listed _) step.1
  have listed := change.listed inv.listed
  exact ⟨nodes', change, listed, step.2 nodes' listed.chain⟩

theorem boot_shown (vmem : Nat → UInt8) : Shown (boot vmem) [] where
  listed := boot_listed vmem
  apart := ⟨by simp, by simp⟩
  shown := by simp

/-- Every listed node shows what its status says exactly as long as every SYNC
draws right. The places of a SYNC then blink together until one of them is
changed, unless just one of them looks the same in both phases. -/
theorem blink_shows {vmem : Nat → UInt8} {history : List (Event Fish (Call × Answer))} {s : Fish}
    (run : Run StepApart (boot vmem) history s) :
    ((∀ e ∈ history, Shows e.post) ↔ ∀ e ∈ history, DrawsRight e.pre e.act.1) ∧
      ((∀ e ∈ history, DrawsRight e.pre e.act.1) →
        ∀ later e past arg, history = later ++ e :: past → e.act = (.sync arg, 0, none) →
          (∀ x ∈ later, ¬ Touches (syncFirst arg) x.act.1 ∧ ¬ Touches (syncSecond arg) x.act.1) →
          ∃ nodes, s.links.Chain nodes ∧ ∃ i ∈ nodes, ∃ j ∈ nodes, (s.blinkArray i).location = syncFirst arg ∧
            (s.blinkArray j).location = syncSecond arg ∧
            (((s.blinkArray i).onChar = (s.blinkArray i).offChar ↔
                (s.blinkArray j).onChar = (s.blinkArray j).offChar) → (ShowsOn s j ↔ ShowsOn s i))) := by
  have start : ∃ nodes, Shown (boot vmem) nodes ∧ InStep [] (boot vmem) nodes :=
    ⟨[], boot_shown vmem, fun _ _ _ _ split => absurd split (by simp)⟩
  have preserved (past : List (Event Fish (Call × Answer))) (s : Fish) (l : Call × Answer) (s' : Fish)
      (inv : ∃ nodes, Shown s nodes ∧ InStep past s nodes) (draws : DrawsRight s l.1) (step : StepApart s l s') :
      ∃ nodes, Shown s' nodes ∧ InStep (⟨s, l, s'⟩ :: past) s' nodes := by
    obtain ⟨nodes, shown, inStep⟩ := inv
    obtain ⟨nodes', change, _, apart⟩ := shown.step step
    exact ⟨nodes', shown.change change apart draws, inStep.change shown.listed change⟩
  constructor
  · refine run.each_iff_allowed (fun past s => ∃ nodes, Shown s nodes ∧ InStep past s nodes)
      (fun e => Shows e.post) (fun s l => DrawsRight s l.1) start ?_
    intro past s l s' inv step
    refine ⟨⟨fun shows => ?_, fun draws => ?_⟩, fun draws => preserved past s l s' inv draws step⟩
    · obtain ⟨nodes, shown, _⟩ := inv
      obtain ⟨nodes', change, _, _⟩ := shown.step step
      exact shown.draws change shows
    · obtain ⟨nodes, shown, _⟩ := preserved past s l s' inv draws step
      intro other chain
      rw [← Segment.unique shown.listed.chain chain]
      exact shown.shown
  · intro draws later e past arg split synced untouched
    obtain ⟨nodes, shown, inStep⟩ := run.history_invariant_of_events
      (fun past s => ∃ nodes, Shown s nodes ∧ InStep past s nodes) (fun s l => DrawsRight s l.1) start
      (fun past s l s' _ inv draws step => preserved past s l s' inv draws step) draws
    obtain ⟨i, first, j, second, here, there, same⟩ := inStep later e past arg split synced untouched
    refine ⟨nodes, shown.listed.chain, i, first, j, second, here, there, fun alike => ?_⟩
    have status : (s.blinkArray j).status = (s.blinkArray i).status := congrArg (fun t => t.2.2.2) same
    have lit : (s.blinkArray j).isOn = (s.blinkArray i).isOn := by
      rw [BlinkStruct.isOn, BlinkStruct.isOn, status]
    rw [(shown.shown i first).showsOn, (shown.shown j second).showsOn, lit, alike]

theorem slot_zero : 0 < 80 * 25 := by decide

theorem slot_one : 1 < 80 * 25 := by decide

/-- One entry after the start, and a second one. -/
def oneBlink : Fish := (boot fun _ => 32).inserted ⟨0, slot_zero⟩ (blinkAt 540)

def twoBlinks : Fish := oneBlink.inserted ⟨1, slot_one⟩ (blinkAt 541)

theorem oneBlink_listed : Listed oneBlink [0] := (boot_listed _).insert List.not_mem_nil _

theorem twoBlinks_listed : Listed twoBlinks [1, 0] := oneBlink_listed.insert (by decide) _

theorem pair_apart {s : Fish} (first : (s.blinkArray 0).location = 540)
    (second : (s.blinkArray 1).location = 541) : Apart s [1, 0] := by
  refine ⟨fun i inList j inList' place => ?_, fun i inList => ?_⟩
  · rcases List.mem_pair.mp inList with rfl | rfl
    · rcases List.mem_pair.mp inList' with rfl | rfl
      · rfl
      · rw [first, second] at place
        exact absurd place (by decide)
    · rcases List.mem_pair.mp inList' with rfl | rfl
      · rw [first, second] at place
        exact absurd place (by decide)
      · rfl
  · rcases List.mem_pair.mp inList with rfl | rfl
    · rw [second]
      decide
    · rw [first]
      decide

theorem oneBlink_step : StepApart (boot fun _ => 32) (.add (blinkAt 540), 0, none) oneBlink := by
  refine ⟨boot_add _ _ (by decide), fun nodes chain => ?_⟩
  rw [← Segment.unique oneBlink_listed.chain chain]
  refine ⟨fun i first j second _ => ?_, fun i member => ?_⟩
  · rw [List.mem_singleton.mp first, List.mem_singleton.mp second]
  · rw [List.mem_singleton.mp member]
    decide

theorem twoBlinks_step : StepApart oneBlink (.add (blinkAt 541), 0, none) twoBlinks := by
  refine ⟨?_, fun nodes chain => ?_⟩
  · have slot : oneBlink.mp1Malloc = some 1 := by
      refine Fin.find?_eq_some_iff.mpr ⟨by decide, fun j below => ?_⟩
      obtain rfl : j = 0 := Fin.ext (Nat.lt_one_iff.mp below)
      decide
    have done := step_add (s := oneBlink) (blinkAt 541)
    rwa [mp1IoctlAdd_some (by decide) slot] at done
  · rw [← Segment.unique twoBlinks_listed.chain chain]
    exact pair_apart (by decide) (by decide)

theorem blink_shows_sample : Shows twoBlinks := by
  have run := (Run.start.next oneBlink_step).next twoBlinks_step
  refine (blink_shows run).1.mpr ?_ _ (List.mem_cons_self ..)
  intro e member
  simp only [List.mem_cons, List.not_mem_nil, or_false] at member
  rcases member with rfl | rfl
  · exact trivial
  · exact trivial

/-- The second entry is made to follow the first while that one is lit. -/
theorem blink_shows_dark :
    ¬ ∀ (vmem : Nat → UInt8) (history : List (Event Fish (Call × Answer))) (s : Fish),
      Run StepApart (boot vmem) history s → ∀ e ∈ history, Shows e.post := by
  intro always
  have listed : Listed (twoBlinks.syncNodes 0 1) [1, 0] := twoBlinks_listed.sync 0 (List.mem_cons_self ..)
  have step : StepApart twoBlinks (.sync 0x021C021D, 0, none) (twoBlinks.syncNodes 0 1) := by
    refine ⟨twoBlinks_listed.step_sync_some (by decide +kernel) (by decide +kernel), fun nodes chain => ?_⟩
    rw [← Segment.unique listed.chain chain]
    exact pair_apart (by decide) (by decide)
  have run := ((Run.start.next oneBlink_step).next twoBlinks_step).next step
  have shows := always _ _ _ run _ (List.mem_cons_self ..) [1, 0] listed.chain 1 (List.mem_cons_self ..)
  exact absurd ((synced_matches_iff _ _ _).mp shows) (by decide +kernel)

end Fish

end UnixLite
