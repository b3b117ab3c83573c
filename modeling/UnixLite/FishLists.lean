import UnixLite.Fish
import Mathlib.Data.Fintype.Card
import Mathlib.Data.List.FinRange
import Mathlib.Data.List.Perm.Subperm

namespace UnixLite

open LinkedLists Loops Transition

/-- `f` is applied to the first element that passes the test. -/
def updateFirst {α : Type*} (test : α → Bool) (f : α → α) : List α → List α
  | [] => []
  | a :: rest => if test a then f a :: rest else a :: updateFirst test f rest

theorem updateFirst_append {α : Type*} {test : α → Bool} {f : α → α} {before after : List α} {a : α}
    (fails : ∀ b ∈ before, ¬ test b = true) (passes : test a = true) :
    updateFirst test f (before ++ a :: after) = before ++ f a :: after := by
  induction before with
  | nil => simp [updateFirst, passes]
  | cons b before ih =>
    obtain ⟨here, later⟩ := List.forall_mem_cons.mp fails
    simp [updateFirst, here, ih later]

theorem mem_updateFirst {α : Type*} {test : α → Bool} {f : α → α} {l : List α} {a : α}
    (member : a ∈ updateFirst test f l) : a ∈ l ∨ ∃ b ∈ l, a = f b := by
  induction l with
  | nil => cases member
  | cons b rest ih =>
    unfold updateFirst at member
    split at member
    · rcases List.mem_cons.mp member with rfl | later
      · exact Or.inr ⟨b, List.mem_cons_self .., rfl⟩
      · exact Or.inl (List.mem_cons_of_mem _ later)
    · rcases List.mem_cons.mp member with rfl | later
      · exact Or.inl (List.mem_cons_self ..)
      · rcases ih later with same | ⟨c, there, same⟩
        · exact Or.inl (List.mem_cons_of_mem _ same)
        · exact Or.inr ⟨c, List.mem_cons_of_mem _ there, same⟩

namespace BlinkStruct

def isAt (location : BitVec 16) (b : BlinkStruct) : Bool := b.location == location

theorem isAt_iff {location : BitVec 16} {b : BlinkStruct} : b.isAt location = true ↔ b.location = location :=
  beq_iff_eq

theorem detach_tick (b : BlinkStruct) : b.tick.detach = b.detach.tick := by
  have same : b.detach.due = b.due := rfl
  unfold tick
  rw [same]
  split <;> rfl

end BlinkStruct

namespace Fish

/-- What a call does to the entries it is about, newest first and without their
links, and what it answers. -/
def onEntries (entries : List BlinkStruct) : Call → List BlinkStruct × Answer
  | .add user =>
    if user.location.toNat < 80 * 25 ∧ entries.length < 80 * 25 then
      (user.started.detach :: entries, 0, none)
    else (entries, -1, none)
  | .remove arg =>
    if (entries.find? (BlinkStruct.isAt (arg.setWidth 16))).isSome then
      (entries.eraseP (BlinkStruct.isAt (arg.setWidth 16)), 0, none)
    else (entries, -1, none)
  | .find user =>
    match entries.find? (BlinkStruct.isAt user.location) with
    | none => (entries, -1, none)
    | some b => (entries, 0, some b)
  | .sync arg =>
    match entries.find? (BlinkStruct.isAt (syncFirst arg)) with
    | none => (entries, -1, none)
    | some src =>
      if (entries.find? (BlinkStruct.isAt (syncSecond arg))).isSome then
        (updateFirst (BlinkStruct.isAt (syncSecond arg)) (·.follow src) entries, 0, none)
      else (entries, -1, none)
  | .tasklet => (entries.map BlinkStruct.tick, 0, none)

/-- The entries that were accepted and not removed yet, after these calls. -/
def entries : List (Event Fish (Call × Answer)) → List BlinkStruct
  | [] => []
  | e :: past => (onEntries (entries past) e.act.1).1

/-- The list ends after the nodes `nodes`, and every other slot is zeroed. -/
structure Listed (s : Fish) (nodes : List (Fin (80 * 25))) : Prop where
  chain : s.links.Chain nodes
  free : ∀ i, i ∉ nodes → s.blinkArray i = .zero

def contents (s : Fish) (nodes : List (Fin (80 * 25))) : List BlinkStruct :=
  nodes.map fun i => (s.blinkArray i).detach

section Calls

variable {s s' : Fish} {nodes : List (Fin (80 * 25))}

theorem mp1FindHelper_mono {fuel more : Nat} {location : BitVec 16} {r : Option (Fin (80 * 25))}
    (found : s.mp1FindHelper fuel location = some r) (enough : fuel ≤ more) :
    s.mp1FindHelper more location = some r :=
  loop_mono found enough

theorem perform_mono {fuel more : Nat} {c : Call} {r : Fish × Answer} (done : s.perform fuel c = some r)
    (enough : fuel ≤ more) : s.perform more c = some r := by
  cases c with
  | add user => exact done
  | remove arg =>
    obtain ⟨result, removed, rfl⟩ := Option.map_eq_some_iff.mp done
    refine Option.map_eq_some_iff.mpr ⟨result, ?_, rfl⟩
    unfold mp1IoctlRemove at removed ⊢
    split at removed
    · cases removed
    · rename_i helper
      rw [mp1FindHelper_mono helper enough]
      exact removed
    · rename_i eax helper
      rw [mp1FindHelper_mono helper enough]
      split at removed
      · rename_i edx seek
        dsimp only
        rw [loop_mono seek enough]
        exact removed
      · cases removed
  | find user =>
    obtain ⟨result, found, rfl⟩ := Option.map_eq_some_iff.mp done
    refine Option.map_eq_some_iff.mpr ⟨result, ?_, rfl⟩
    unfold mp1IoctlFind at found ⊢
    split at found
    · cases found
    all_goals
      rename_i helper
      rw [mp1FindHelper_mono helper enough]
      exact found
  | sync arg =>
    obtain ⟨result, synced, rfl⟩ := Option.map_eq_some_iff.mp done
    refine Option.map_eq_some_iff.mpr ⟨result, ?_, rfl⟩
    unfold mp1IoctlSync at synced ⊢
    split at synced
    · cases synced
    · rename_i helper
      rw [mp1FindHelper_mono helper enough]
      exact synced
    · rename_i esi helper
      rw [mp1FindHelper_mono helper enough]
      dsimp only
      split at synced
      · cases synced
      all_goals
        rename_i second
        rw [mp1FindHelper_mono second enough]
        exact synced
  | tasklet =>
    obtain ⟨result, ticked, rfl⟩ := Option.map_eq_some_iff.mp done
    exact Option.map_eq_some_iff.mpr ⟨result, loop_mono ticked enough, rfl⟩

/-- A call has one outcome. -/
theorem Step.unique {c : Call} {a a' : Answer} {s'' : Fish} (step : Step s (c, a) s')
    (other : Step s (c, a') s'') : a' = a ∧ s'' = s' := by
  obtain ⟨fuel, done⟩ := step
  obtain ⟨fuel', done'⟩ := other
  have here := perform_mono done (Nat.le_max_left fuel fuel')
  have there := perform_mono done' (Nat.le_max_right fuel fuel')
  have same := Option.some.inj (there.symm.trans here)
  exact ⟨congrArg Prod.snd same, congrArg Prod.fst same⟩

theorem step_add (user : BlinkStruct) :
    Step s (.add user, (s.mp1IoctlAdd user).2, none) (s.mp1IoctlAdd user).1 := ⟨0, rfl⟩

theorem Listed.helper (listed : Listed s nodes) {location : BitVec 16} {r : Option (Fin (80 * 25))}
    (found : (nodes.find? fun i => (s.blinkArray i).isAt location) = r) :
    ∃ fuel, s.mp1FindHelper fuel location = some r := by
  rw [← found]
  exact listed.chain.search _

/-- Two searches of one list, with one fuel for both. -/
theorem Listed.helpers (listed : Listed s nodes) {first second : BitVec 16} {r r' : Option (Fin (80 * 25))}
    (found : (nodes.find? fun i => (s.blinkArray i).isAt first) = r)
    (found' : (nodes.find? fun i => (s.blinkArray i).isAt second) = r') :
    ∃ fuel, s.mp1FindHelper fuel first = some r ∧ s.mp1FindHelper fuel second = some r' := by
  obtain ⟨fuel, helper⟩ := listed.helper found
  obtain ⟨fuel', helper'⟩ := listed.helper found'
  exact ⟨max fuel fuel', mp1FindHelper_mono helper (Nat.le_max_left fuel fuel'),
    mp1FindHelper_mono helper' (Nat.le_max_right fuel fuel')⟩

theorem Listed.step_tasklet (listed : Listed s nodes) :
    Step s (.tasklet, 0, none) (nodes.foldl tickNode s) := by
  have path : Segment (fun i => (s.blinkArray i).next) s.mp1ListHead nodes none := listed.chain
  obtain ⟨fuel, done⟩ := path.visit (fun s i => (s.blinkArray i).next) tickNode tickNode_next
  exact ⟨fuel, Option.map_eq_some_iff.mpr ⟨_, done, rfl⟩⟩

theorem Listed.step_find_none (listed : Listed s nodes) {user : BlinkStruct}
    (missing : (nodes.find? fun i => (s.blinkArray i).isAt user.location) = none) :
    Step s (.find user, -1, none) s := by
  obtain ⟨fuel, helper⟩ := listed.helper missing
  exact ⟨fuel, by rw [perform, mp1IoctlFind, helper]; rfl⟩

theorem Listed.step_find_some (listed : Listed s nodes) {user : BlinkStruct} {i : Fin (80 * 25)}
    (found : (nodes.find? fun i => (s.blinkArray i).isAt user.location) = some i) :
    Step s (.find user, 0, some (s.blinkArray i)) s := by
  obtain ⟨fuel, helper⟩ := listed.helper found
  exact ⟨fuel, by rw [perform, mp1IoctlFind, helper]; rfl⟩

theorem Listed.step_remove_none (listed : Listed s nodes) {arg : Word}
    (missing : (nodes.find? fun i => (s.blinkArray i).isAt (arg.setWidth 16)) = none) :
    Step s (.remove arg, -1, none) s := by
  obtain ⟨fuel, helper⟩ := listed.helper missing
  exact ⟨fuel, by rw [perform, mp1IoctlRemove, helper]; rfl⟩

/-- The state after the node after `before` is taken off the list. -/
def unlinked (s : Fish) (before : List (Fin (80 * 25))) (i : Fin (80 * 25)) : Fish :=
  (s.setLink (s.blinkArray i).next (Links.placeAfter .head before)).mp1Free i

theorem Listed.step_remove_some {before after : List (Fin (80 * 25))} {i : Fin (80 * 25)}
    (listed : Listed s (before ++ i :: after)) {arg : Word}
    (found : ((before ++ i :: after).find? fun i => (s.blinkArray i).isAt (arg.setWidth 16)) = some i) :
    Step s (.remove arg, 0, none) (s.unlinked before i) := by
  obtain ⟨fuel, helper⟩ := listed.helper found
  obtain ⟨fuel', seek⟩ := listed.chain.seek
  refine ⟨max fuel fuel', ?_⟩
  have helper := mp1FindHelper_mono helper (Nat.le_max_left fuel fuel')
  have seek := loop_mono seek (Nat.le_max_right fuel fuel')
  rw [perform, mp1IoctlRemove, helper]
  dsimp only
  rw [seek]
  rfl

theorem Listed.step_sync_source (listed : Listed s nodes) {arg : Word}
    (missing : (nodes.find? fun i => (s.blinkArray i).isAt (syncFirst arg)) = none) :
    Step s (.sync arg, -1, none) s := by
  obtain ⟨fuel, helper⟩ := listed.helper missing
  exact ⟨fuel, by rw [perform, mp1IoctlSync, helper]; rfl⟩

theorem Listed.step_sync_target (listed : Listed s nodes) {arg : Word}
    (missing : (nodes.find? fun i => (s.blinkArray i).isAt (syncSecond arg)) = none) :
    Step s (.sync arg, -1, none) s := by
  cases source : nodes.find? fun i => (s.blinkArray i).isAt (syncFirst arg) with
  | none => exact listed.step_sync_source source
  | some esi =>
    obtain ⟨fuel, helper, second⟩ := listed.helpers source missing
    refine ⟨fuel, ?_⟩
    rw [perform, mp1IoctlSync, helper]
    dsimp only
    rw [second]
    rfl

theorem Listed.step_sync_some (listed : Listed s nodes) {arg : Word} {esi edi : Fin (80 * 25)}
    (source : (nodes.find? fun i => (s.blinkArray i).isAt (syncFirst arg)) = some esi)
    (target : (nodes.find? fun i => (s.blinkArray i).isAt (syncSecond arg)) = some edi) :
    Step s (.sync arg, 0, none) (s.syncNodes esi edi) := by
  obtain ⟨fuel, helper, second⟩ := listed.helpers source target
  refine ⟨fuel, ?_⟩
  rw [perform, mp1IoctlSync, helper]
  dsimp only
  rw [second]
  rfl

theorem foldl_tickNode_mp1ListHead (s : Fish) (nodes : List (Fin (80 * 25))) :
    (nodes.foldl tickNode s).mp1ListHead = s.mp1ListHead := by
  induction nodes generalizing s with
  | nil => rfl
  | cons i nodes ih => exact (ih _).trans (s.tickNode_mp1ListHead i)

/-- A tick counts every node of the list down once and leaves the other slots. -/
theorem foldl_tickNode_blinkArray (s : Fish) {nodes : List (Fin (80 * 25))} (distinct : nodes.Nodup)
    (j : Fin (80 * 25)) :
    (nodes.foldl tickNode s).blinkArray j = if j ∈ nodes then (s.blinkArray j).tick else s.blinkArray j := by
  induction nodes generalizing s with
  | nil => rfl
  | cons i nodes ih =>
    obtain ⟨once, rest⟩ := List.nodup_cons.mp distinct
    rw [List.foldl_cons, ih _ rest, tickNode_blinkArray]
    by_cases here : j = i
    · subst here
      rw [if_neg once, if_pos (List.mem_cons_self ..), Function.update_self]
    · simp only [Function.update_of_ne here, List.mem_cons, here, false_or]

theorem Listed.tasklet (listed : Listed s nodes) : Listed (nodes.foldl tickNode s) nodes := by
  have distinct := Segment.nodup listed.chain
  constructor
  · have head := foldl_tickNode_mp1ListHead s nodes
    unfold Links.Chain links
    rw [head]
    refine Segment.congr listed.chain fun i member => ?_
    change ((nodes.foldl tickNode s).blinkArray i).next = (s.blinkArray i).next
    rw [foldl_tickNode_blinkArray s distinct, if_pos member, BlinkStruct.tick_next]
  · intro i off
    rw [foldl_tickNode_blinkArray s distinct, if_neg off]
    exact listed.free i off

theorem Listed.tasklet_contents (listed : Listed s nodes) :
    contents (nodes.foldl tickNode s) nodes = (contents s nodes).map BlinkStruct.tick := by
  unfold contents
  rw [List.map_map]
  refine List.map_congr_left fun i member => ?_
  rw [foldl_tickNode_blinkArray s (Segment.nodup listed.chain), if_pos member]
  exact BlinkStruct.detach_tick _

theorem syncNodes_self (s : Fish) (esi edi : Fin (80 * 25)) :
    (s.syncNodes esi edi).blinkArray edi = (s.blinkArray edi).follow (s.blinkArray esi) :=
  Function.update_self ..

theorem syncNodes_other {edi j : Fin (80 * 25)} (other : j ≠ edi) (s : Fish) (esi : Fin (80 * 25)) :
    (s.syncNodes esi edi).blinkArray j = s.blinkArray j :=
  Function.update_of_ne other ..

/-- A SYNC moves no node. -/
theorem syncNodes_location (s : Fish) (esi edi j : Fin (80 * 25)) :
    ((s.syncNodes esi edi).blinkArray j).location = (s.blinkArray j).location := by
  by_cases here : j = edi
  · rw [here, syncNodes_self]
    rfl
  · rw [syncNodes_other here]

theorem Listed.sync (listed : Listed s nodes) (esi : Fin (80 * 25)) {edi : Fin (80 * 25)} (member : edi ∈ nodes) :
    Listed (s.syncNodes esi edi) nodes := by
  constructor
  · refine Segment.congr listed.chain fun i _ => ?_
    change ((s.syncNodes esi edi).blinkArray i).next = (s.blinkArray i).next
    by_cases here : i = edi
    · rw [here, syncNodes_self]
      rfl
    · rw [syncNodes_other here]
  · intro i off
    have other : i ≠ edi := fun same => off (same ▸ member)
    exact (syncNodes_other other s esi).trans (listed.free i off)

theorem links_setLink (s : Fish) (p : Option (Fin (80 * 25))) (place : Place (Fin (80 * 25))) :
    (s.setLink p place).links = s.links.set p place := by
  cases place with
  | head => rfl
  | after i =>
    unfold links Links.set setLink setNode
    congr 1
    funext j
    exact Function.apply_update (fun _ => BlinkStruct.next) s.blinkArray i _ j

/-- A stored link changes no node otherwise. -/
theorem setLink_detach (s : Fish) (p : Option (Fin (80 * 25))) (place : Place (Fin (80 * 25)))
    (j : Fin (80 * 25)) : ((s.setLink p place).blinkArray j).detach = (s.blinkArray j).detach := by
  cases place with
  | head => rfl
  | after i =>
    have kept := Function.apply_update (fun _ => BlinkStruct.detach) s.blinkArray i { s.blinkArray i with next := p } j
    exact kept.trans (congrFun (Function.update_eq_self i fun j => (s.blinkArray j).detach) j)

theorem setLink_blinkArray {s : Fish} {p : Option (Fin (80 * 25))} {place : Place (Fin (80 * 25))}
    {j : Fin (80 * 25)} (other : place ≠ .after j) : (s.setLink p place).blinkArray j = s.blinkArray j := by
  cases place with
  | head => rfl
  | after i =>
    have apart : j ≠ i := fun same => other (same ▸ rfl)
    exact Function.update_of_ne apart _ _

/-- The nodes around one are others. -/
theorem Listed.around {before after : List (Fin (80 * 25))} {i j : Fin (80 * 25)}
    (listed : Listed s (before ++ i :: after)) (member : j ∈ before ++ after) : j ≠ i := by
  have distinct := Segment.nodup listed.chain
  rw [List.nodup_middle] at distinct
  rintro rfl
  exact (List.nodup_cons.mp distinct).1 member

theorem Listed.unlink {before after : List (Fin (80 * 25))} {i : Fin (80 * 25)}
    (listed : Listed s (before ++ i :: after)) : Listed (s.unlinked before i) (before ++ after) := by
  have chain := listed.chain.unlink
  constructor
  · have same := s.links_setLink (s.blinkArray i).next (Links.placeAfter .head before)
    change (s.links.set (s.blinkArray i).next _).Chain _ at chain
    rw [← same] at chain
    refine Segment.congr chain fun j member => ?_
    exact congrArg BlinkStruct.next (Function.update_of_ne (listed.around member) _ _)
  · intro j off
    by_cases here : j = i
    · subst here
      exact Function.update_self ..
    · have offBefore : j ∉ before ++ i :: after := by
        simp only [List.mem_append, List.mem_cons, not_or] at off ⊢
        exact ⟨off.1, here, off.2⟩
      have place : Links.placeAfter .head before ≠ .after j := fun same =>
        off (List.mem_append.mpr (Or.inl (Links.mem_of_placeAfter same)))
      exact (Function.update_of_ne here _ _).trans ((setLink_blinkArray place).trans (listed.free j offBefore))

theorem unlinked_detach {before : List (Fin (80 * 25))} {i j : Fin (80 * 25)} (other : j ≠ i) :
    ((s.unlinked before i).blinkArray j).detach = (s.blinkArray j).detach := by
  have kept := s.setLink_detach (s.blinkArray i).next (Links.placeAfter .head before) j
  exact (congrArg BlinkStruct.detach (Function.update_of_ne other _ _)).trans kept

/-- The state after the structure of an ADD is put into the slot `edx`. -/
def inserted (s : Fish) (edx : Fin (80 * 25)) (user : BlinkStruct) : Fish :=
  (({ s.setNode edx { user.started with next := s.mp1ListHead } with mp1ListHead := some edx } : Fish).mp1Poke
    (2 * user.location.toNat) user.onChar)

theorem inserted_self (s : Fish) (edx : Fin (80 * 25)) (user : BlinkStruct) :
    (s.inserted edx user).blinkArray edx = { user.started with next := s.mp1ListHead } :=
  Function.update_self ..

theorem inserted_other {edx j : Fin (80 * 25)} (other : j ≠ edx) (s : Fish) (user : BlinkStruct) :
    (s.inserted edx user).blinkArray j = s.blinkArray j :=
  Function.update_of_ne other ..

theorem mp1IoctlAdd_some {user : BlinkStruct} {edx : Fin (80 * 25)} (valid : user.location.toNat < 80 * 25)
    (slot : s.mp1Malloc = some edx) : s.mp1IoctlAdd user = (s.inserted edx user, 0) := by
  rw [mp1IoctlAdd, if_neg (Nat.not_le.mpr valid), slot]
  rfl

theorem mp1IoctlAdd_none {user : BlinkStruct} (refused : user.location.toNat < 80 * 25 → s.mp1Malloc = none) :
    s.mp1IoctlAdd user = (s, -1) := by
  rw [mp1IoctlAdd]
  split
  · rfl
  · rename_i valid
    rw [refused (Nat.not_le.mp valid)]

theorem Listed.insert (listed : Listed s nodes) {edx : Fin (80 * 25)} (fresh : edx ∉ nodes)
    (user : BlinkStruct) : Listed (s.inserted edx user) (edx :: nodes) := by
  have links : (s.inserted edx user).links = ⟨some edx, Function.update s.links.next edx s.links.head⟩ := by
    unfold links inserted setNode mp1Poke
    congr 1
    funext j
    exact Function.apply_update (fun _ => BlinkStruct.next) s.blinkArray edx _ j
  constructor
  · rw [links]
    exact listed.chain.insert fresh
  · intro i off
    obtain ⟨other, offBefore⟩ := not_or.mp (fun member => off (List.mem_cons.mpr member))
    exact (inserted_other other s user).trans (listed.free i offBefore)

theorem Listed.insert_contents {edx : Fin (80 * 25)} (fresh : edx ∉ nodes) (user : BlinkStruct) :
    contents (s.inserted edx user) (edx :: nodes) = user.started.detach :: contents s nodes := by
  unfold contents
  rw [List.map_cons]
  congr 1
  · rw [inserted_self]
    rfl
  · refine List.map_congr_left fun j member => ?_
    have other : j ≠ edx := fun same => fresh (same ▸ member)
    rw [inserted_other other]

theorem mp1Malloc_location {edx : Fin (80 * 25)} (slot : s.mp1Malloc = some edx) :
    (s.blinkArray edx).location = 0 ∧ ∀ j < edx, (s.blinkArray j).location ≠ 0 := by
  obtain ⟨zero, lowest⟩ := Fin.find?_eq_some_iff.mp slot
  exact ⟨by simpa using zero, fun j below => by simpa using lowest j below⟩

/-- With a slot off the list below every listed node at location 0,
`mp1_malloc` hands out a slot off the list. -/
theorem Listed.mp1Malloc_fresh (listed : Listed s nodes)
    (below : ∀ i ∈ nodes, (s.blinkArray i).location = 0 → ∃ j < i, j ∉ nodes) {edx : Fin (80 * 25)}
    (slot : s.mp1Malloc = some edx) : edx ∉ nodes := by
  intro member
  obtain ⟨zero, lowest⟩ := mp1Malloc_location slot
  obtain ⟨j, under, off⟩ := below edx member zero
  refine lowest j under ?_
  rw [listed.free j off]
  rfl

theorem Listed.mp1Malloc_none (listed : Listed s nodes) (full : s.mp1Malloc = none) :
    nodes.length = 80 * 25 := by
  have all (i : Fin (80 * 25)) : i ∈ nodes := by
    by_contra off
    have used := Fin.find?_eq_none_iff.mp full i
    rw [listed.free i off] at used
    exact absurd used (by decide)
  have most := (Segment.nodup listed.chain).length_le_card
  have least := ((List.nodup_finRange (80 * 25)).subperm fun i _ => all i).length_le
  rw [Fintype.card_fin] at most
  rw [List.length_finRange] at least
  exact Nat.le_antisymm most least

theorem Listed.room (listed : Listed s nodes) {edx : Fin (80 * 25)} (fresh : edx ∉ nodes) :
    nodes.length < 80 * 25 := by
  have more := (List.nodup_cons.mpr ⟨fresh, Segment.nodup listed.chain⟩).length_le_card
  rwa [Fintype.card_fin] at more

/-- An ADD finds a slot off the list below every listed node at location 0. -/
def SlotBelow (s : Fish) : Call → Prop
  | .add user => user.location.toNat < 80 * 25 → ∀ nodes, s.links.Chain nodes →
      ∀ i ∈ nodes, (s.blinkArray i).location = 0 → ∃ j < i, j ∉ nodes
  | _ => True

/-- What the answer says once the link of a reported structure is erased. -/
def erased (a : Answer) : Answer := (a.1, a.2.map BlinkStruct.detach)

theorem find_contents (s : Fish) (nodes : List (Fin (80 * 25))) (location : BitVec 16) :
    (contents s nodes).find? (BlinkStruct.isAt location) =
      (nodes.find? fun i => (s.blinkArray i).isAt location).map fun i => (s.blinkArray i).detach :=
  List.find?_map ..

/-- The first node that passes a test, with the nodes before it. -/
theorem find_split {test : Fin (80 * 25) → Bool} {i : Fin (80 * 25)} (found : nodes.find? test = some i) :
    ∃ before after, nodes = before ++ i :: after ∧ test i = true ∧ ∀ j ∈ before, ¬ test j = true := by
  obtain ⟨passes, before, after, split, fails⟩ := List.find?_eq_some_iff_append.mp found
  exact ⟨before, after, split, passes, fun j member => by simpa using fails j member⟩

theorem find_first {test : Fin (80 * 25) → Bool} {before after : List (Fin (80 * 25))} {i : Fin (80 * 25)}
    (passes : test i = true) (fails : ∀ j ∈ before, ¬ test j = true) :
    (before ++ i :: after).find? test = some i :=
  List.find?_eq_some_iff_append.mpr ⟨passes, before, after, rfl, fun j early => by simpa using fails j early⟩

theorem contents_split (s : Fish) (before after : List (Fin (80 * 25))) (i : Fin (80 * 25)) :
    contents s (before ++ i :: after) = contents s before ++ (s.blinkArray i).detach :: contents s after := by
  rw [contents, List.map_append, List.map_cons]
  rfl

theorem contents_fails {before : List (Fin (80 * 25))} {location : BitVec 16}
    (fails : ∀ j ∈ before, ¬ (s.blinkArray j).isAt location = true) :
    ∀ b ∈ contents s before, ¬ b.isAt location = true := by
  intro b member
  obtain ⟨j, early, rfl⟩ := List.mem_map.mp member
  exact fails j early

theorem Listed.unlink_contents {before after : List (Fin (80 * 25))} {i : Fin (80 * 25)}
    (listed : Listed s (before ++ i :: after)) {location : BitVec 16}
    (passes : (s.blinkArray i).isAt location = true)
    (fails : ∀ j ∈ before, ¬ (s.blinkArray j).isAt location = true) :
    (contents s (before ++ i :: after)).eraseP (BlinkStruct.isAt location) =
      contents (s.unlinked before i) (before ++ after) := by
  have kept : contents (s.unlinked before i) (before ++ after) = contents s (before ++ after) :=
    List.map_congr_left fun j member => unlinked_detach (listed.around member)
  have here : (s.blinkArray i).detach.isAt location = true := passes
  rw [kept, contents_split, List.eraseP_append_right _ (contents_fails fails), List.eraseP_cons_of_pos here]
  exact List.map_append.symm

theorem Listed.sync_contents {before after : List (Fin (80 * 25))} {edi : Fin (80 * 25)}
    (listed : Listed s (before ++ edi :: after)) (esi : Fin (80 * 25)) {location : BitVec 16}
    (passes : (s.blinkArray edi).isAt location = true)
    (fails : ∀ j ∈ before, ¬ (s.blinkArray j).isAt location = true) :
    contents (s.syncNodes esi edi) (before ++ edi :: after) =
      updateFirst (BlinkStruct.isAt location) (·.follow (s.blinkArray esi).detach)
        (contents s (before ++ edi :: after)) := by
  have other (j : Fin (80 * 25)) (member : j ∈ before ++ after) :
      (s.syncNodes esi edi).blinkArray j = s.blinkArray j :=
    syncNodes_other (listed.around member) s esi
  have here : (s.blinkArray edi).detach.isAt location = true := passes
  have early : contents (s.syncNodes esi edi) before = contents s before :=
    List.map_congr_left fun j member => by rw [other j (List.mem_append_left _ member)]
  have late : contents (s.syncNodes esi edi) after = contents s after :=
    List.map_congr_left fun j member => by rw [other j (List.mem_append_right _ member)]
  rw [contents_split, contents_split, updateFirst_append (contents_fails fails) here, early, late, syncNodes_self]
  rfl

/-- What a call answers and makes of the state and of its list. -/
inductive Change (s : Fish) (nodes : List (Fin (80 * 25))) :
    Call → Answer → Fish → List (Fin (80 * 25)) → Prop
  | invalid {user : BlinkStruct} : ¬ user.location.toNat < 80 * 25 → Change s nodes (.add user) (-1, none) s nodes
  | full {user : BlinkStruct} : nodes.length = 80 * 25 → Change s nodes (.add user) (-1, none) s nodes
  | added {user : BlinkStruct} {edx : Fin (80 * 25)} : user.location.toNat < 80 * 25 → edx ∉ nodes →
      Change s nodes (.add user) (0, none) (s.inserted edx user) (edx :: nodes)
  | absent {arg : Word} : (nodes.find? fun i => (s.blinkArray i).isAt (arg.setWidth 16)) = none →
      Change s nodes (.remove arg) (-1, none) s nodes
  | removed {arg : Word} {before after : List (Fin (80 * 25))} {i : Fin (80 * 25)} : nodes = before ++ i :: after →
      (s.blinkArray i).isAt (arg.setWidth 16) = true →
      (∀ j ∈ before, ¬ (s.blinkArray j).isAt (arg.setWidth 16) = true) →
      Change s nodes (.remove arg) (0, none) (s.unlinked before i) (before ++ after)
  | unknown {user : BlinkStruct} : (nodes.find? fun i => (s.blinkArray i).isAt user.location) = none →
      Change s nodes (.find user) (-1, none) s nodes
  | found {user : BlinkStruct} {i : Fin (80 * 25)} :
      (nodes.find? fun i => (s.blinkArray i).isAt user.location) = some i →
      Change s nodes (.find user) (0, some (s.blinkArray i)) s nodes
  | noSource {arg : Word} : (nodes.find? fun i => (s.blinkArray i).isAt (syncFirst arg)) = none →
      Change s nodes (.sync arg) (-1, none) s nodes
  | noTarget {arg : Word} {esi : Fin (80 * 25)} :
      (nodes.find? fun i => (s.blinkArray i).isAt (syncFirst arg)) = some esi →
      (nodes.find? fun i => (s.blinkArray i).isAt (syncSecond arg)) = none →
      Change s nodes (.sync arg) (-1, none) s nodes
  | synced {arg : Word} {esi edi : Fin (80 * 25)} :
      (nodes.find? fun i => (s.blinkArray i).isAt (syncFirst arg)) = some esi →
      (nodes.find? fun i => (s.blinkArray i).isAt (syncSecond arg)) = some edi →
      Change s nodes (.sync arg) (0, none) (s.syncNodes esi edi) nodes
  | ticked : Change s nodes .tasklet (0, none) (nodes.foldl tickNode s) nodes

theorem Listed.changes (listed : Listed s nodes) {c : Call} (below : SlotBelow s c) :
    ∃ a s' nodes', Step s (c, a) s' ∧ Change s nodes c a s' nodes' := by
  cases c with
  | add user =>
    have done := step_add (s := s) user
    by_cases valid : user.location.toNat < 80 * 25
    · cases slot : s.mp1Malloc with
      | none =>
        rw [mp1IoctlAdd_none fun _ => slot] at done
        exact ⟨_, _, _, done, .full (listed.mp1Malloc_none slot)⟩
      | some edx =>
        rw [mp1IoctlAdd_some valid slot] at done
        exact ⟨_, _, _, done, .added valid (listed.mp1Malloc_fresh (below valid nodes listed.chain) slot)⟩
    · rw [mp1IoctlAdd_none fun inside => absurd inside valid] at done
      exact ⟨_, _, _, done, .invalid valid⟩
  | remove arg =>
    cases found : nodes.find? fun i => (s.blinkArray i).isAt (arg.setWidth 16) with
    | none => exact ⟨_, _, _, listed.step_remove_none found, .absent found⟩
    | some i =>
      obtain ⟨before, after, rfl, passes, fails⟩ := find_split found
      exact ⟨_, _, _, listed.step_remove_some found, .removed rfl passes fails⟩
  | find user =>
    cases found : nodes.find? fun i => (s.blinkArray i).isAt user.location with
    | none => exact ⟨_, _, _, listed.step_find_none found, .unknown found⟩
    | some i => exact ⟨_, _, _, listed.step_find_some found, .found found⟩
  | sync arg =>
    cases source : nodes.find? fun i => (s.blinkArray i).isAt (syncFirst arg) with
    | none => exact ⟨_, _, _, listed.step_sync_source source, .noSource source⟩
    | some esi =>
      cases target : nodes.find? fun i => (s.blinkArray i).isAt (syncSecond arg) with
      | none => exact ⟨_, _, _, listed.step_sync_target target, .noTarget source target⟩
      | some edi => exact ⟨_, _, _, listed.step_sync_some source target, .synced source target⟩
  | tasklet => exact ⟨_, _, _, listed.step_tasklet, .ticked⟩

theorem Listed.change {c : Call} {a : Answer} (listed : Listed s nodes) (below : SlotBelow s c)
    (step : Step s (c, a) s') : ∃ nodes', Change s nodes c a s' nodes' := by
  obtain ⟨a', after, nodes', does, change⟩ := listed.changes below
  obtain ⟨rfl, rfl⟩ := does.unique step
  exact ⟨nodes', change⟩

section Change

variable {c : Call} {a : Answer} {nodes' : List (Fin (80 * 25))}

theorem Change.listed (change : Change s nodes c a s' nodes') (listed : Listed s nodes) : Listed s' nodes' := by
  cases change with
  | added _ fresh => exact listed.insert fresh _
  | removed split => exact (split ▸ listed).unlink
  | synced _ target => exact listed.sync _ (List.mem_of_find?_eq_some target)
  | ticked => exact listed.tasklet
  | invalid _ | full _ | absent _ | unknown _ | found _ | noSource _ | noTarget _ _ => exact listed

/-- A call does to the list what it does to the entries. -/
theorem Change.onEntries (change : Change s nodes c a s' nodes') (listed : Listed s nodes) :
    onEntries (contents s nodes) c = (contents s' nodes', erased a) := by
  cases change with
  | invalid refused =>
    rw [Fish.onEntries, if_neg fun both => refused both.1]
    rfl
  | full crowded =>
    have noRoom : ¬ (contents s nodes).length < 80 * 25 := by
      rw [contents, List.length_map, crowded]
      exact Nat.lt_irrefl _
    rw [Fish.onEntries, if_neg fun both => noRoom both.2]
    rfl
  | added valid fresh =>
    have room : (contents s nodes).length < 80 * 25 := by
      rw [contents, List.length_map]
      exact listed.room fresh
    rw [Fish.onEntries, if_pos ⟨valid, room⟩, Listed.insert_contents fresh]
    rfl
  | absent missing =>
    rw [Fish.onEntries, find_contents, missing]
    rfl
  | removed split passes fails =>
    subst split
    rw [Fish.onEntries, find_contents, find_first passes fails, ← listed.unlink_contents passes fails]
    rfl
  | unknown missing =>
    rw [Fish.onEntries, find_contents, missing]
    rfl
  | found first =>
    rw [Fish.onEntries, find_contents, first]
    rfl
  | noSource missing =>
    rw [Fish.onEntries, find_contents, missing]
    rfl
  | noTarget source missing =>
    rw [Fish.onEntries, find_contents, source, find_contents, missing]
    rfl
  | synced source target =>
    obtain ⟨before, after, rfl, passes, fails⟩ := find_split target
    rw [Fish.onEntries, find_contents, source, find_contents, target, listed.sync_contents _ passes fails]
    rfl
  | ticked =>
    rw [Fish.onEntries, listed.tasklet_contents]
    rfl

end Change

/-- Without a free slot below a listed node at location 0, `mp1_malloc` hands
out a slot of the list. -/
theorem Listed.taken (listed : Listed s nodes) {c : Call} (none_below : ¬ SlotBelow s c) :
    ∃ user, c = .add user ∧ user.location.toNat < 80 * 25 ∧ ∃ edx ∈ nodes, s.mp1Malloc = some edx := by
  cases c with
  | add user =>
    simp only [SlotBelow, not_forall] at none_below
    obtain ⟨valid, other, chain, i, member, zero, occupied⟩ := none_below
    rw [← Segment.unique listed.chain chain] at member occupied
    refine ⟨user, rfl, valid, ?_⟩
    cases slot : s.mp1Malloc with
    | none =>
      have used := Fin.find?_eq_none_iff.mp slot i
      simp [zero] at used
    | some edx =>
      refine ⟨edx, ?_, rfl⟩
      obtain ⟨_, lowest⟩ := mp1Malloc_location slot
      rcases lt_trichotomy edx i with lower | rfl | higher
      · by_contra off
        exact occupied ⟨edx, lower, off⟩
      · exact member
      · exact absurd zero (lowest i higher)
  | remove _ | find _ | sync _ | tasklet => exact absurd trivial none_below

/-- In a state with a proper list every call returns. -/
theorem Listed.returns (listed : Listed s nodes) (c : Call) : ∃ a s', Step s (c, a) s' := by
  by_cases below : SlotBelow s c
  · obtain ⟨a, s', _, step, _⟩ := listed.changes below
    exact ⟨a, s', step⟩
  · obtain ⟨user, rfl, _⟩ := listed.taken below
    exact ⟨_, _, step_add user⟩

end Calls

/-- What a call makes of the list: it is finite, its nodes are different slots
and hold the entries accepted and not removed; the answer is the one these
entries give; `mp1_malloc` hands out no slot of the list; and whatever call
comes next will return. -/
structure Kept (past : List (Event Fish (Call × Answer))) (e : Event Fish (Call × Answer)) : Prop where
  listed : ∃ nodes, e.post.links.Chain nodes ∧ nodes.Nodup ∧ contents e.post nodes = entries (e :: past)
  answer : erased e.act.2 = (onEntries (entries past) e.act.1).2
  fresh : ∀ user, e.act.1 = .add user → user.location.toNat < 80 * 25 → ∀ edx, e.pre.mp1Malloc = some edx →
    ∀ nodes, e.pre.links.Chain nodes → edx ∉ nodes
  returns : ∀ c, ∃ a s', Step e.post (c, a) s'

theorem Listed.kept {s s' : Fish} {nodes : List (Fin (80 * 25))} {l : Call × Answer}
    {past : List (Event Fish (Call × Answer))} (listed : Listed s nodes) (holds : contents s nodes = entries past)
    (below : SlotBelow s l.1) (step : Step s l s') :
    Kept past ⟨s, l, s'⟩ ∧ ∃ nodes', Listed s' nodes' ∧ contents s' nodes' = entries (⟨s, l, s'⟩ :: past) := by
  obtain ⟨c, a⟩ := l
  obtain ⟨nodes', change⟩ := listed.change below step
  have listed' := change.listed listed
  have result := change.onEntries listed
  rw [holds] at result
  have same : contents s' nodes' = entries (⟨s, (c, a), s'⟩ :: past) := (congrArg Prod.fst result).symm
  refine ⟨⟨⟨nodes', listed'.chain, Segment.nodup listed'.chain, same⟩, (congrArg Prod.snd result).symm, ?_,
    listed'.returns⟩, nodes', listed', same⟩
  rintro user rfl valid edx slot other chain
  rw [← Segment.unique listed.chain chain]
  exact listed.mp1Malloc_fresh (below valid nodes listed.chain) slot

theorem boot_listed (vmem : Nat → UInt8) : Listed (boot vmem) [] := ⟨.stop, fun _ _ => rfl⟩

/-- Every first call returns, and the list keeps its integrity exactly as long
as no ADD finds a listed node at location 0 with no free slot below it: that
slot would be handed out again. -/
theorem list_integrity {vmem : Nat → UInt8} {history : List (Event Fish (Call × Answer))} {s : Fish}
    (run : Run Step (boot vmem) history s) :
    (∀ c, ∃ a s', Step (boot vmem) (c, a) s') ∧
      ((∀ past e, (e :: past) <:+ history → Kept past e) ↔ ∀ e ∈ history, SlotBelow e.pre e.act.1) := by
  refine ⟨(boot_listed vmem).returns, ?_⟩
  refine run.good_iff_allowed (fun past s => ∃ nodes, Listed s nodes ∧ contents s nodes = entries past) Kept
    (fun s l => SlotBelow s l.1) ⟨[], boot_listed vmem, rfl⟩ ?_
  rintro past s l s' ⟨nodes, listed, holds⟩ step
  refine ⟨⟨fun kept => ?_, fun below => (listed.kept holds below step).1⟩,
    fun below => (listed.kept holds below step).2⟩
  by_contra none_below
  obtain ⟨user, call, valid, edx, member, slot⟩ := listed.taken none_below
  exact kept.fresh user call valid edx slot nodes listed.chain member

/-- An entry is where it was, or where the ADD that made it said. -/
theorem onEntries_location {entries : List BlinkStruct} {c : Call} {b : BlinkStruct}
    (member : b ∈ (onEntries entries c).1) :
    (∃ old ∈ entries, b.location = old.location) ∨ ∃ user, c = .add user ∧ b.location = user.location := by
  cases c with
  | add user =>
    simp only [onEntries] at member
    split at member
    · rcases List.mem_cons.mp member with rfl | old
      · exact Or.inr ⟨user, rfl, rfl⟩
      · exact Or.inl ⟨b, old, rfl⟩
    · exact Or.inl ⟨b, member, rfl⟩
  | remove arg =>
    simp only [onEntries] at member
    split at member
    · exact Or.inl ⟨b, List.mem_of_mem_eraseP member, rfl⟩
    · exact Or.inl ⟨b, member, rfl⟩
  | find user =>
    simp only [onEntries] at member
    split at member <;> exact Or.inl ⟨b, member, rfl⟩
  | sync arg =>
    simp only [onEntries] at member
    split at member
    · exact Or.inl ⟨b, member, rfl⟩
    · split at member
      · rcases mem_updateFirst member with old | ⟨old, there, rfl⟩
        · exact Or.inl ⟨b, old, rfl⟩
        · exact Or.inl ⟨old, there, rfl⟩
      · exact Or.inl ⟨b, member, rfl⟩
  | tasklet =>
    obtain ⟨old, there, rfl⟩ := List.mem_map.mp member
    exact Or.inl ⟨old, there, old.tick_location⟩

/-- Where no ADD is for location 0 the condition always holds. -/
theorem slots_below {vmem : Nat → UInt8} {history : List (Event Fish (Call × Answer))} {s : Fish}
    (run : Run Step (boot vmem) history s)
    (off : ∀ e ∈ history, ∀ user, e.act.1 = .add user → user.location ≠ 0) :
    ∀ e ∈ history, SlotBelow e.pre e.act.1 := by
  have all : (∀ e ∈ history, SlotBelow e.pre e.act.1) ∧ (∀ b ∈ entries history, b.location ≠ 0) ∧
      ∃ nodes, Listed s nodes ∧ contents s nodes = entries history := by
    induction run with
    | start => exact ⟨by simp, by simp [entries], [], boot_listed vmem, rfl⟩
    | @next past s l s' _ step ih =>
      obtain ⟨earlier, placed, nodes, listed, holds⟩ := ih fun e member => off e (List.mem_cons_of_mem _ member)
      -- a listed node at location 0 would be an entry there
      have below : SlotBelow s l.1 := by
        unfold SlotBelow
        split
        · intro _ others chain i member corner
          rw [Segment.unique chain listed.chain] at member
          have entry : (s.blinkArray i).detach ∈ entries past := holds ▸ List.mem_map_of_mem member
          exact absurd corner (placed (s.blinkArray i).detach entry)
        · trivial
      refine ⟨List.forall_mem_cons.mpr ⟨below, earlier⟩, fun b member => ?_, (listed.kept holds below step).2⟩
      rcases onEntries_location member with ⟨old, there, same⟩ | ⟨user, add, same⟩
      · rw [same]
        exact placed old there
      · rw [same]
        exact off _ (List.mem_cons_self ..) user add
  exact all.1

/-- A structure for an ADD. -/
def blinkAt (location : BitVec 16) : BlinkStruct := ⟨location, 73, 77, 7, 6, 0, 0, none⟩

theorem boot_mp1Malloc (vmem : Nat → UInt8) : (boot vmem).mp1Malloc = some 0 :=
  Fin.find?_eq_some_iff.mpr ⟨rfl, fun _ below => absurd below (Nat.not_lt_zero _)⟩

/-- The first ADD after the start. -/
theorem boot_add (vmem : Nat → UInt8) (user : BlinkStruct) (valid : user.location.toNat < 80 * 25) :
    Step (boot vmem) (.add user, 0, none) ((boot vmem).inserted 0 user) := by
  have done := step_add (s := boot vmem) user
  rwa [mp1IoctlAdd_some valid (boot_mp1Malloc vmem)] at done

/-- The sample's list after two ADDs. -/
def twoAdded : Fish := ((boot fun _ => 32).inserted 0 (blinkAt 540)).inserted 1 (blinkAt 541)

theorem twoAdded_run : ∃ history, Run Step (boot fun _ => 32) history twoAdded ∧ history.map (fun e => e.act.1) =
    [.add (blinkAt 541), .add (blinkAt 540)] := by
  have slot : ((boot fun _ => 32).inserted 0 (blinkAt 540)).mp1Malloc = some 1 := by
    refine Fin.find?_eq_some_iff.mpr ⟨by decide, fun j below => ?_⟩
    obtain rfl : j = 0 := Fin.ext (Nat.lt_one_iff.mp below)
    decide
  have added := @step_add ((boot fun _ => 32).inserted 0 (blinkAt 540)) (blinkAt 541)
  rw [mp1IoctlAdd_some (by decide) slot] at added
  exact ⟨_, (Run.start.next (boot_add (fun _ => 32) (blinkAt 540) (by decide))).next added, rfl⟩

theorem twoAdded_listed : Listed twoAdded [1, 0] :=
  ((boot_listed fun _ => 32).insert List.not_mem_nil (blinkAt 540)).insert (by decide) (blinkAt 541)

/-- Two entries are added, both tick, and the newer one is removed. -/
theorem list_integrity_sample : ∃ (history : List (Event Fish (Call × Answer))) (s : Fish),
    Run Step (boot fun _ => 32) history s ∧
      history.map (fun e => e.act.1) = [.remove 541, .tasklet, .add (blinkAt 541), .add (blinkAt 540)] ∧
      ∀ past e, (e :: past) <:+ history → Kept past e := by
  obtain ⟨past, run, calls⟩ := twoAdded_run
  have ticked := twoAdded_listed.tasklet
  have removed := @Listed.step_remove_some _ [] [0] 1 ticked 541 (by decide)
  have run := (run.next twoAdded_listed.step_tasklet).next removed
  refine ⟨_, _, run, congrArg _ (congrArg _ calls), (list_integrity run).2.mpr (slots_below run ?_)⟩
  intro e member user add
  have called := List.mem_map_of_mem (f := fun e => e.act.1) member
  rw [List.map_cons, List.map_cons, calls, add] at called
  simp only [List.mem_cons] at called
  rcases called with other | other | same | same | none
  · cases other
  · cases other
  · cases same
    decide
  · cases same
    decide
  · cases none
/-- An entry is added at location 0 and another one after it: the second takes
the slot of the first, which is on the list. -/
theorem list_integrity_taken :
    ¬ ∀ (vmem : Nat → UInt8) (history : List (Event Fish (Call × Answer))) (s : Fish),
      Run Step (boot vmem) history s → ∀ past e, (e :: past) <:+ history → Kept past e := by
  intro always
  have run := (Run.start.next (boot_add (fun _ => 32) (blinkAt 0) (by decide))).next (step_add (blinkAt 5))
  have kept := always _ _ _ run _ _ List.suffix_rfl
  have first : Listed ((boot fun _ => 32).inserted 0 (blinkAt 0)) [0] :=
    (boot_listed fun _ => 32).insert List.not_mem_nil (blinkAt 0)
  have slot : ((boot fun _ => 32).inserted 0 (blinkAt 0)).mp1Malloc = some 0 :=
    Fin.find?_eq_some_iff.mpr ⟨rfl, fun _ below => absurd below (Nat.not_lt_zero _)⟩
  exact kept.fresh (blinkAt 5) rfl (by decide) 0 slot [0] first.chain (List.mem_cons_self ..)

end Fish

end UnixLite
