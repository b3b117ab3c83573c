import UnixLite.ForestRuns

namespace UnixLite

open Transition

/-- A process between the `sti` of `halt_helper` and the end of its stack:
its slot is free, but its PCB is still to be read. -/
structure Dying where
  pid : Int
  status : Word

/-- The kernel, and for each terminal the process that is leaving there. -/
structure Halting where
  kernel : Kernel
  dying : Fin 3 → Option Dying

/-- The steps of the system with `halt_helper` taken apart at its `sti`. -/
inductive HaltAct
  | tick (regs execRegs : Regs)
  | execute (command : List UInt8) (regs : Regs)
  | enter (status : Word) (regs : Regs)
  | leave
  | other (act : Act)

/-- The acts that are neither a tick nor a call of `execute` or `halt`. -/
def Act.isOther : Act → Bool
  | .tick _ _ | .execute _ _ | .halt _ _ => false
  | _ => true

namespace Halting

/-- One step. The process that leaves on a terminal does nothing else there;
interrupts come at any time, and with a tick another terminal runs. -/
def perform (fs : FsImage) (s : Halting) : HaltAct → Option (Halting × Reply)
  | .tick regs execRegs =>
    (UnixLite.perform fs s.kernel (.tick regs execRegs)).map fun r => ({ s with kernel := r.1 }, r.2)
  | .execute command regs =>
    match s.dying s.kernel.ta with
    | some _ => none
    | none =>
      (UnixLite.perform fs s.kernel (.execute command regs)).map fun r => ({ s with kernel := r.1 }, r.2)
  | .enter status regs =>
    match s.dying s.kernel.ta with
    | some _ => none
    | none =>
      match s.kernel.haltHelper fs status regs with
      | .resumed k _ _ => some (⟨k, Function.update s.dying s.kernel.ta
          (some ⟨s.kernel.curPid, status⟩)⟩, .value 0 [])
      | .restarted r => r.outcome.map fun r => ({ s with kernel := r.1 }, r.2)
  | .leave =>
    match s.dying s.kernel.ta with
    | some d => some ({ s with dying := Function.update s.dying s.kernel.ta none },
        .resumed (s.kernel.pcb d.pid).ebp d.status)
    | none => none
  | .other act =>
    if act.isOther then
      (UnixLite.perform fs s.kernel act).map fun r => ({ s with kernel := r.1 }, r.2)
    else none

def Step (fs : FsImage) (s : Halting) (l : HaltAct × Reply) (s' : Halting) : Prop :=
  s.perform fs l.1 = some (s', l.2)

/-- The acts performed one after the other, with the steps recorded. -/
def performAll (fs : FsImage) (acts : List HaltAct) (first : Halting) :
    Option (List (Event Halting (HaltAct × Reply)) × Halting) :=
  replay (fun s act => (s.perform fs act).map fun r => ((act, r.2), r.1)) acts ([], first)

theorem performAll_run {fs : FsImage} {acts : List HaltAct} {first : Halting}
    {result : List (Event Halting (HaltAct × Reply)) × Halting}
    (done : performAll fs acts first = some result) : Run (Step fs) first result.1 result.2 :=
  replay_run_answers .start done

/-- A step of the kernel on its own leaves the dying processes alone. -/
theorem kernelStep_some {s s' : Halting} {run : Option (Kernel × Reply)} {r : Reply}
    (move : (run.map fun r => ({ s with kernel := r.1 }, r.2)) = some (s', r)) :
    ∃ k, run = some (k, r) ∧ s' = { s with kernel := k } := by
  obtain ⟨⟨k, r1⟩, done, same⟩ := Option.map_eq_some_iff.mp move
  simp only [Prod.mk.injEq] at same
  obtain ⟨rfl, rfl⟩ := same
  exact ⟨k, done, rfl⟩

end Halting

abbrev HaltEvent := Event Halting (HaltAct × Reply)

/-- The frame pointer saved by the `sys_execute` that last created process `p`. -/
def creatorEbp (p : Int) : List HaltEvent → Option Word
  | [] => none
  | ⟨_, (.execute _ regs, .entered _), s⟩ :: past =>
    if s.kernel.curPid = p then some regs.ebp else creatorEbp p past
  | _ :: past => creatorEbp p past

/-- The frame pointer saved by the creator of the process that last began to
leave on terminal `t`. -/
def leavingEbp (t : Fin 3) : List HaltEvent → Option Word
  | [] => none
  | ⟨s, (.enter _ _, _), _⟩ :: past =>
    if s.kernel.ta = t then creatorEbp s.kernel.curPid past else leavingEbp t past
  | _ :: past => leavingEbp t past

/-- What is owed to a process that leaves: its pid is not handed out before
it has left, and it leaves through the frame its creator saved. -/
structure KeepsDying (past : List HaltEvent) (e : HaltEvent) : Prop where
  given : ∀ eip, e.act.2 = .entered eip → ∀ t d, e.pre.dying t = some d →
    d.pid ≠ e.post.kernel.curPid
  returns : ∀ ebp eax, e.act.2 = .resumed ebp eax → leavingEbp e.pre.kernel.ta past = some ebp

/-- When a program is executed, some slot below that of each leaving process
is free. -/
def LowerSlotFree (fs : FsImage) (s : Halting) (l : HaltAct × Reply) : Prop :=
  ∀ command regs, l.1 = .execute command regs →
    (∃ dentry, findProgram fs (parseCommand (cString command)).1 = some dentry) →
    ∀ t d, s.dying t = some d → ∃ q, 0 ≤ q ∧ q < d.pid ∧ s.kernel.pidArray q = 0

/-- A free slot is not the one chosen exactly when another below it is free. -/
theorem freePid_ne_iff {pidArray : Int → Int} {p q : Int} (slot : freePid pidArray = some q)
    (lower : 0 ≤ p) (free : pidArray p = 0) :
    p ≠ q ↔ ∃ r, 0 ≤ r ∧ r < p ∧ pidArray r = 0 := by
  obtain ⟨qLower, _, qFree, before⟩ := freePid_some slot
  constructor
  · intro other
    have notBelow : ¬ p < q := fun below => before p lower below free
    exact ⟨q, qLower, by omega, qFree⟩
  · rintro ⟨r, rLower, below, rFree⟩ rfl
    exact before r rLower below rFree

/-- The invariant: the processes form their forest, those leaving have free
slots, and every PCB that will be returned through holds its creator's frame. -/
structure Windows (base : Fin 3 → Int) (past : List HaltEvent) (s : Halting) : Prop where
  forest : ∃ forest, ProcessForest s.kernel base forest ∧
    ∀ t p, p ∈ forest.stack t → p ≠ base t → creatorEbp p past = some (s.kernel.pcb p).ebp
  freed : ∀ t d, s.dying t = some d → 0 ≤ d.pid ∧ d.pid ≤ 5 ∧ s.kernel.pidArray d.pid = 0
  created : ∀ t d, s.dying t = some d → leavingEbp t past = some (s.kernel.pcb d.pid).ebp

theorem creatorEbp_other (p : Int) {s s' : Halting} {l : HaltAct × Reply} (past : List HaltEvent)
    (notCreated : ∀ command regs eip, l ≠ (.execute command regs, .entered eip)) :
    creatorEbp p (⟨s, l, s'⟩ :: past) = creatorEbp p past := by
  obtain ⟨act, r⟩ := l
  cases act <;> try rfl
  cases r <;> first | rfl | exact absurd rfl (notCreated _ _ _)

theorem leavingEbp_other (t : Fin 3) {s s' : Halting} {l : HaltAct × Reply} (past : List HaltEvent)
    (elsewhere : (∀ status regs, l.1 ≠ .enter status regs) ∨ s.kernel.ta ≠ t) :
    leavingEbp t (⟨s, l, s'⟩ :: past) = leavingEbp t past := by
  obtain ⟨act, r⟩ := l
  cases act <;> try rfl
  rcases elsewhere with notEnter | away
  · exact absurd rfl (notEnter _ _)
  · simp only [leavingEbp, if_neg away]

variable {fs : FsImage} {base : Fin 3 → Int} {past : List HaltEvent} {s s' : Halting}

/-- A step that leaves the forest, the slots and the frames of the PCBs. -/
theorem Windows.keep {l : HaltAct × Reply} (ok : Windows base past s) {k : Kernel}
    (notCreated : ∀ command regs eip, l ≠ (.execute command regs, .entered eip))
    (notEntered : ∀ t d, s.dying t = some d →
      (∀ status regs, l.1 ≠ .enter status regs) ∨ s.kernel.ta ≠ t)
    (forest : ∀ f, ProcessForest s.kernel base f → ProcessForest k base f)
    (pidArray : ∀ t d, s.dying t = some d → k.pidArray d.pid = s.kernel.pidArray d.pid)
    (ebp : ∀ t f p, ProcessForest s.kernel base f → (p ∈ f.stack t ∧ p ≠ base t ∨
      ∃ d, s.dying t = some d ∧ p = d.pid) → (k.pcb p).ebp = (s.kernel.pcb p).ebp) :
    Windows base (⟨s, l, { s with kernel := k }⟩ :: past) { s with kernel := k } := by
  obtain ⟨⟨f, tree, saved⟩, freed, created⟩ := ok
  refine ⟨⟨f, forest f tree, ?_⟩, ?_, ?_⟩
  · intro t p member other
    rw [creatorEbp_other p past notCreated, ebp t f p tree (Or.inl ⟨member, other⟩)]
    exact saved t p member other
  · intro t d leaving
    rw [pidArray t d leaving]
    exact freed t d leaving
  · intro t d leaving
    rw [leavingEbp_other t past (notEntered t d leaving), ebp t f d.pid tree (Or.inr ⟨d, leaving, rfl⟩)]
    exact created t d leaving

theorem Windows.same {l : HaltAct × Reply} (ok : Windows base past s) {k : Kernel}
    (notCreated : ∀ command regs eip, l ≠ (.execute command regs, .entered eip))
    (notEntered : ∀ status regs, l.1 ≠ .enter status regs) (same : SameProcesses s.kernel k) :
    Windows base (⟨s, l, { s with kernel := k }⟩ :: past) { s with kernel := k } :=
  ok.keep notCreated (fun _ _ _ => Or.inl notEntered) (fun _ tree => tree.same same) (fun _ _ _ => by rw [same.pidArray])
    (fun _ _ p _ _ => same.ebp p)

/-- A started program gets a slot that no process is leaving. -/
theorem Windows.started {command : List UInt8} {regs : Regs} {pid : Int} {eip : Word} {k : Kernel}
    (ok : Windows base past s) (run : s.kernel.Started fs command regs pid k)
    (apart : ∀ t d, s.dying t = some d → d.pid ≠ pid) :
    Windows base (⟨s, (.execute command regs, .entered eip), { s with kernel := k }⟩ :: past)
      { s with kernel := k } := by
  obtain ⟨⟨f, tree, saved⟩, freed, created⟩ := ok
  obtain ⟨fresh, pushed⟩ := tree.started run
  have old (p : Int) (other : p ≠ pid) : creatorEbp p
      (⟨s, (.execute command regs, .entered eip), { s with kernel := k }⟩ :: past) =
        creatorEbp p past ∧ (k.pcb p).ebp = (s.kernel.pcb p).ebp := by
    refine ⟨?_, by rw [run.otherPcb p other]⟩
    simp only [creatorEbp, run.curPid]
    rw [if_neg (Ne.symm other)]
  refine ⟨⟨_, pushed, ?_⟩, ?_, ?_⟩
  · intro t p member other
    by_cases new : p = pid
    · subst new
      simp [creatorEbp, run.curPid, run.ebp]
    · obtain ⟨ebp, same⟩ := old p new
      have before : p ∈ f.stack t := by
        by_cases here : t = s.kernel.ta
        · subst here
          rw [Stacks.push_self] at member
          exact (List.mem_cons.mp member).resolve_left new
        · rwa [Stacks.push_other f fresh here] at member
      rw [ebp, same]
      exact saved t p before other
  · intro t d leaving
    rw [run.pidArray, Function.update_of_ne (apart t d leaving)]
    exact freed t d leaving
  · intro t d leaving
    rw [leavingEbp_other t past (Or.inl (by simp)), (old d.pid (apart t d leaving)).2]
    exact created t d leaving

/-- A process with a parent that halts moves from its chain to the leaving ones. -/
theorem Windows.entered {status : Word} {regs : Regs} {r : Reply} (ok : Windows base past s)
    (child : s.kernel.curPcb.parentPid ≠ -1) {s' : Halting}
    (after : s' = ⟨s.kernel.haltBody, Function.update s.dying s.kernel.ta
      (some ⟨s.kernel.curPid, status⟩)⟩) :
    Windows base (⟨s, (.enter status regs, r), s'⟩ :: past) s' := by
  subst after
  have notCreated : ∀ command regs' eip,
      ((.enter status regs, r) : HaltAct × Reply) ≠ (.execute command regs', .entered eip) := by simp
  obtain ⟨⟨f, tree, saved⟩, freed, created⟩ := ok
  have halt := s.kernel.haltBody_halted
  have range := tree.range _ _ tree.running_mem
  have notBase : s.kernel.curPid ≠ base s.kernel.ta := by
    intro same
    have orphan := (tree.lineage s.kernel.ta).last_orphan (tree.ends s.kernel.ta)
    rw [← same] at orphan
    exact child orphan
  refine ⟨⟨_, tree.halted child halt, ?_⟩, ?_, ?_⟩
  · intro t p member other
    have before : p ∈ f.stack t := by
      by_cases here : t = s.kernel.ta
      · subst here
        rw [Stacks.pop_self] at member
        exact List.mem_of_mem_tail member
      · rwa [Stacks.pop_other f here] at member
    rw [creatorEbp_other p past notCreated, halt.ebp]
    exact saved t p before other
  · intro t d leaving
    dsimp only at leaving ⊢
    rw [halt.pidArray]
    by_cases here : t = s.kernel.ta
    · subst here
      rw [Function.update_self] at leaving
      cases leaving
      exact ⟨range.1, range.2, by simp⟩
    · rw [Function.update_of_ne here] at leaving
      obtain ⟨lower, upper, free⟩ := freed t d leaving
      refine ⟨lower, upper, ?_⟩
      by_cases same : d.pid = s.kernel.curPid
      · simp [same]
      · rw [Function.update_of_ne same]
        exact free
  · intro t d leaving
    dsimp only at leaving ⊢
    rw [halt.ebp]
    by_cases here : t = s.kernel.ta
    · subst here
      rw [Function.update_self] at leaving
      cases leaving
      simp only [leavingEbp, if_true]
      exact saved _ _ tree.running_mem notBase
    · rw [Function.update_of_ne here] at leaving
      rw [leavingEbp_other t past (Or.inr (Ne.symm here))]
      exact created t d leaving

/-- A step other than a tick, `execute` and `halt` leaves the processes alone. -/
theorem other_same {act : Act} {k k' : Kernel} {r : Reply} (other : act.isOther = true)
    (move : UnixLite.perform fs k act = some (k', r)) : SameProcesses k k' ∧ ∃ v out, r = .value v out := by
  have taken : UnixLite.Step fs k (act, r) k' := move
  have same : SameProcesses k k' := by
    refine step_same taken ?_ ?_ ?_
    all_goals
      intros
      intro eq
      simp only at eq
      subst eq
      cases other
  refine ⟨same, ?_⟩
  cases act <;> try cases other
  case read fd buf nbytes =>
    simp only [UnixLite.perform] at move
    cases call : k.sysRead fs fd buf nbytes <;> rw [call] at move <;> cases move
    exact ⟨_, _, rfl⟩
  case write fd buf src nbytes =>
    simp only [UnixLite.perform] at move
    cases call : k.sysWrite fd buf src nbytes <;> rw [call] at move <;> cases move
    exact ⟨_, _, rfl⟩
  all_goals
    cases move
    exact ⟨_, _, rfl⟩

/-- Only a call of `execute` and the end of a halt owe anything. -/
theorem keepsDying_iff {act : HaltAct} {r : Reply} (notExecute : ∀ command regs, act ≠ .execute command regs)
    (given : ∀ eip, r = .entered eip → ∀ t d, s.dying t = some d → d.pid ≠ s'.kernel.curPid)
    (notReturned : ∀ ebp eax, r ≠ .resumed ebp eax) :
    KeepsDying past ⟨s, (act, r), s'⟩ ↔ LowerSlotFree fs s (act, r) :=
  ⟨fun _ command regs same => absurd same (notExecute command regs),
    fun _ => ⟨given, fun ebp eax same => absurd same (notReturned ebp eax)⟩⟩

/-- While a process is leaving, its slot is there for the program executed. -/
theorem Windows.slot_found (ok : Windows base past s) {t : Fin 3} {d : Dying}
    (leaving : s.dying t = some d) : ∃ pid, freePid s.kernel.pidArray = some pid := by
  obtain ⟨lower, upper, free⟩ := ok.freed t d leaving
  cases slot : freePid s.kernel.pidArray with
  | none => exact absurd free (freePid_none slot lower upper)
  | some pid => exact ⟨pid, rfl⟩

/-- A call that names a program returns only when no slot is free. -/
theorem step_execute_full {k k' : Kernel} {command : List UInt8} {regs : Regs} {v : Int}
    {out : List UInt8} {dentry : Dentry}
    (move : UnixLite.Step fs k (.execute command regs, .value v out) k')
    (found : findProgram fs (parseCommand (cString command)).1 = some dentry) :
    freePid k.pidArray = none := by
  simp only [UnixLite.Step, UnixLite.perform] at move
  cases slot : freePid k.pidArray with
  | none => rfl
  | some pid =>
    cases call : k.sysExecute fs command regs with
    | returned k1 v1 => exact absurd call (Kernel.sysExecute_not_returned found slot)
    | started k1 eip => rw [call] at move; cases move
    | faulted k1 => rw [call] at move; cases move

theorem Windows.executeStep {command : List UInt8} {regs : Regs} {r : Reply} {k : Kernel}
    (ok : Windows base past s) (move : UnixLite.Step fs s.kernel (.execute command regs, r) k) :
    (KeepsDying past ⟨s, (.execute command regs, r), { s with kernel := k }⟩ ↔
        LowerSlotFree fs s (.execute command regs, r)) ∧
      (LowerSlotFree fs s (.execute command regs, r) →
        Windows base (⟨s, (.execute command regs, r), { s with kernel := k }⟩ :: past)
          { s with kernel := k }) := by
  rcases step_execute move with ⟨prev, v, rfl, rfl⟩ | ⟨eip, pid, rfl, started⟩
  · have nobody : LowerSlotFree fs s (.execute command regs, .value v []) := by
      intro command' regs' same ⟨dentry, found⟩ t d leaving
      cases same
      obtain ⟨pid, slot⟩ := ok.slot_found leaving
      have full := step_execute_full move found
      rw [slot] at full
      cases full
    refine ⟨⟨fun _ => nobody, fun _ => ⟨by simp, by simp⟩⟩, fun _ => ok.same (by simp) (by simp) ?_⟩
    constructor <;> intros <;> rfl
  · have lowest (t : Fin 3) (d : Dying) (leaving : s.dying t = some d) :=
      freePid_ne_iff started.slot (ok.freed t d leaving).1 (ok.freed t d leaving).2.2
    obtain ⟨dentry, found, _⟩ := started.program
    refine ⟨⟨?_, ?_⟩, ?_⟩
    · intro keeps _ _ _ _ t d leaving
      have apart := keeps.given eip rfl t d leaving
      dsimp only at apart
      rw [started.curPid] at apart
      exact (lowest t d leaving).mp apart
    · intro lower
      refine ⟨fun _ _ t d leaving => ?_, by simp⟩
      have apart := (lowest t d leaving).mpr (lower command regs rfl ⟨dentry, found⟩ t d leaving)
      dsimp only
      rw [started.curPid]
      exact apart
    · intro lower
      exact ok.started started fun t d leaving =>
        (lowest t d leaving).mpr (lower command regs rfl ⟨dentry, found⟩ t d leaving)

/-- A base shell is executed again in its own slot, which nobody is leaving. -/
theorem Windows.restarted {status : Word} {regs : Regs} {eip : Word} {k : Kernel} {f : Stacks (Fin 3) Int}
    (ok : Windows base past s) (tree : ProcessForest s.kernel base f)
    (idle : s.dying s.kernel.ta = none) (orphan : s.kernel.curPcb.parentPid = -1)
    (started : s.kernel.freeBase.Started fs shell regs s.kernel.curPid k) :
    (∀ t d, s.dying t = some d → d.pid ≠ k.curPid) ∧
      Windows base (⟨s, (.enter status regs, .entered eip), { s with kernel := k }⟩ :: past)
        { s with kernel := k } := by
  obtain ⟨lower, upper, _⟩ := tree.freed_slot orphan
  have taken := tree.low_taken lower upper
  have apart (t : Fin 3) (d : Dying) (leaving : s.dying t = some d) : d.pid ≠ s.kernel.curPid := by
    intro same
    have freed := (ok.freed t d leaving).2.2
    rw [same] at freed
    omega
  have others (q : Int) (other : q ≠ s.kernel.curPid) : k.pcb q = s.kernel.pcb q :=
    started.otherPcb q other
  rw [started.curPid]
  refine ⟨apart, ok.keep (by simp) ?_ (fun _ tree => tree.replaced orphan started) ?_ ?_⟩
  · intro t d leaving
    refine Or.inr fun here => ?_
    rw [← here, idle] at leaving
    cases leaving
  · intro t d leaving
    rw [started.pidArray, Function.update_of_ne (apart t d leaving)]
    simp only [Kernel.freeBase, Function.update_of_ne (apart t d leaving)]
  · intro t f p tree member
    have other : p ≠ s.kernel.curPid := by
      rcases member with ⟨onChain, notBase⟩ | ⟨d, leaving, rfl⟩
      · intro same
        have here : t = s.kernel.ta := f.disjoint t _ p onChain (same ▸ tree.running_mem)
        exact notBase (by rw [same, here]; exact tree.running_base orphan)
      · exact apart t d leaving
    rw [others p other]

theorem Windows.left {l : HaltAct × Reply} (ok : Windows base past s)
    (notCreated : ∀ command regs eip, l ≠ (.execute command regs, .entered eip))
    (notEntered : ∀ status regs, l.1 ≠ .enter status regs) :
    Windows base (⟨s, l, { s with dying := Function.update s.dying s.kernel.ta none }⟩ :: past)
      { s with dying := Function.update s.dying s.kernel.ta none } := by
  obtain ⟨⟨f, tree, saved⟩, freed, created⟩ := ok
  have still (t : Fin 3) (d : Dying)
      (leaving : Function.update s.dying s.kernel.ta none t = some d) : s.dying t = some d := by
    by_cases here : t = s.kernel.ta
    · rw [here, Function.update_self] at leaving
      cases leaving
    · rwa [Function.update_of_ne here] at leaving
  refine ⟨⟨f, tree, ?_⟩, fun t d leaving => freed t d (still t d leaving), ?_⟩
  · intro t p member other
    rw [creatorEbp_other p past notCreated]
    exact saved t p member other
  · intro t d leaving
    rw [leavingEbp_other t past (Or.inl notEntered)]
    exact created t d (still t d leaving)

/-- What is owed to the leaving processes is kept by a step exactly when a
lower slot is free, and then the invariant is. -/
theorem Windows.step {l : HaltAct × Reply} (ok : Windows base past s) (present : ShellPresent fs)
    (move : s.Step fs l s') : (KeepsDying past ⟨s, l, s'⟩ ↔ LowerSlotFree fs s l) ∧
      (LowerSlotFree fs s l → Windows base (⟨s, l, s'⟩ :: past) s') := by
  obtain ⟨f, tree, _⟩ := ok.forest
  obtain ⟨act, r⟩ := l
  unfold Halting.Step at move
  cases act with
  | tick regs execRegs =>
    obtain ⟨k, run, rfl⟩ := Halting.kernelStep_some move
    rcases step_tick run with ⟨_, tick, _, rfl⟩ | ⟨inSetup, _⟩
    · refine ⟨keepsDying_iff (by simp) (by simp) (by simp), fun _ => ?_⟩
      exact ok.keep (by simp) (fun _ _ _ => Or.inl (by simp)) (fun _ tree => tree.switched tick)
        (fun _ _ _ => by rw [tick.pidArray]) (fun _ _ p _ _ => tick.ebp p)
    · exact absurd tree.setUp (by omega)
  | execute command regs =>
    simp only [Halting.perform] at move
    split at move
    · cases move
    obtain ⟨k, run, rfl⟩ := Halting.kernelStep_some move
    exact ok.executeStep run
  | enter status regs =>
    simp only [Halting.perform] at move
    split at move
    · cases move
    rename_i idle
    rw [Kernel.haltHelper] at move
    by_cases orphan : s.kernel.curPcb.parentPid = -1
    · rw [if_pos orphan] at move
      obtain ⟨k, run, rfl⟩ := Halting.kernelStep_some move
      obtain ⟨started, eip, rfl⟩ := tree.restarted present orphan run
      obtain ⟨apart, after⟩ := ok.restarted tree idle orphan started
      exact ⟨keepsDying_iff (by simp) (fun _ _ => apart) (by simp), fun _ => after⟩
    · rw [if_neg orphan] at move
      simp only [Option.some.injEq, Prod.mk.injEq] at move
      obtain ⟨after, rfl⟩ := move
      exact ⟨keepsDying_iff (by simp) (by simp) (by simp),
        fun _ => ok.entered orphan after.symm⟩
  | leave =>
    simp only [Halting.perform] at move
    split at move
    · rename_i d leaving
      simp only [Option.some.injEq, Prod.mk.injEq] at move
      obtain ⟨rfl, rfl⟩ := move
      refine ⟨⟨fun _ _ _ same => (by cases same), fun _ => ⟨by simp, ?_⟩⟩, fun _ => ok.left (by simp) (by simp)⟩
      intro ebp eax same
      cases same
      exact ok.created _ d leaving
    · cases move
  | other act =>
    simp only [Halting.perform] at move
    split at move
    · rename_i isOther
      obtain ⟨k, run, rfl⟩ := Halting.kernelStep_some move
      obtain ⟨same, v, out, rfl⟩ := other_same isOther run
      exact ⟨keepsDying_iff (by simp) (by simp) (by simp), fun _ => ok.same (by simp) (by simp) same⟩
    · cases move

/-- From the launched system on, no dying process is done out of its slot or
its frame exactly when every program executed meanwhile finds a lower slot. -/
theorem dying_kept {fs : FsImage} (present : ShellPresent fs) {first s : Halting}
    (start : Launched first.kernel) (idle : ∀ t, first.dying t = none) {history : List HaltEvent}
    (run : Run (Halting.Step fs) first history s) :
    (∀ past e, (e :: past) <:+ history → KeepsDying past e) ↔
      ∀ e ∈ history, LowerSlotFree fs e.pre e.act := by
  refine run.good_iff_allowed (Windows first.kernel.activePids) KeepsDying (LowerSlotFree fs) ?_
    (fun _ _ _ _ ok move => ok.step present move)
  obtain ⟨forest, tree, alone⟩ := ProcessForest.launched start
  refine ⟨⟨forest, tree, ?_⟩, ?_, ?_⟩
  · intro t p member other
    rw [alone t] at member
    exact absurd (List.mem_singleton.mp member) other
  · intro t d leaving
    rw [idle] at leaving
    cases leaving
  · intro t d leaving
    rw [idle] at leaving
    cases leaving

/-- What the latest step of a run returned through, and what it should have. -/
def lastReturn : List HaltEvent → Option (Word × Option Word)
  | ⟨s, (_, .resumed ebp _), _⟩ :: past => some (ebp, leavingEbp s.kernel.ta past)
  | _ => none

theorem lastReturn_some {history : List HaltEvent} {ebp : Word} {saved : Option Word}
    (last : lastReturn history = some (ebp, saved)) : ∃ e past eax, history = e :: past ∧
      e.act.2 = .resumed ebp eax ∧ leavingEbp e.pre.kernel.ta past = saved := by
  unfold lastReturn at last
  split at last
  · rename_i s act ebp' eax s' past
    cases last
    exact ⟨_, past, eax, rfl, rfl, rfl⟩
  · cases last

/-- Programs are started on the third and on the first terminal. The one with
the lower pid leaves, and while the other one does the timer switches on to the
second terminal, where a program is started in the slot that was left. -/
def partingHalts : List HaltAct :=
  [.execute shell ⟨1, 1⟩, .tick ⟨0, 0⟩ ⟨0, 0⟩, .execute shell ⟨2, 2⟩, .tick ⟨0, 0⟩ ⟨0, 0⟩, .tick ⟨0, 0⟩ ⟨0, 0⟩,
    .enter 0 ⟨0, 0⟩, .leave, .tick ⟨0, 0⟩ ⟨0, 0⟩, .enter 0 ⟨0, 0⟩, .tick ⟨0, 0⟩ ⟨0, 0⟩, .execute shell ⟨3, 3⟩,
    .tick ⟨0, 0⟩ ⟨0, 0⟩, .tick ⟨0, 0⟩ ⟨0, 0⟩, .leave]

/-- In each call of `sys_execute` a slot below those of the leaving processes is free. -/
def lowerSlots (e : HaltEvent) : Bool :=
  match e.act.1 with
  | .execute _ _ => (List.finRange 3).all fun t => (e.pre.dying t).all fun d =>
      (List.range 6).any fun q => (q : Int) < d.pid && e.pre.kernel.pidArray q == 0
  | _ => true

theorem lowerSlots_free {fs : FsImage} {e : HaltEvent} (free : lowerSlots e = true) : LowerSlotFree fs e.pre e.act := by
  intro command regs same _ t d leaving
  unfold lowerSlots at free
  rw [same] at free
  have here := List.all_eq_true.mp free t (List.mem_finRange t)
  rw [leaving] at here
  obtain ⟨q, _, below⟩ := List.any_eq_true.mp here
  simp only [Bool.and_eq_true, decide_eq_true_eq, beq_iff_eq] at below
  exact ⟨q, by omega, below.1, below.2⟩

theorem dying_kept_sample : ∃ e past eax, e.act.2 = .resumed 2 eax ∧ KeepsDying past e := by
  have computed : (performAll sampleImage setUpActs ([], sampleEntry)).map (fun b =>
      (Halting.performAll sampleImage partingHalts ⟨b.2, fun _ => none⟩).map fun r =>
        (lastReturn r.1, r.1.all lowerSlots)) = some (some (some (2, some 2), true)) := by
    decide +kernel
  obtain ⟨b, set, replayed⟩ := Option.map_eq_some_iff.mp computed
  obtain ⟨r, done, values⟩ := Option.map_eq_some_iff.mp replayed
  obtain ⟨last, lower⟩ := Prod.mk.inj values
  obtain ⟨e, past, eax, history, reply, _⟩ := lastReturn_some last
  have start := ((setUpActs_booting set).launching sampleImage_fits.present).launched
  have run := Halting.performAll_run done
  have good := (dying_kept sampleImage_fits.present (by exact start) (fun _ => rfl) run).mpr
    fun e member => lowerSlots_free (List.all_eq_true.mp lower e member)
  exact ⟨e, past, eax, reply, good past e (history ▸ List.suffix_rfl)⟩

/-- While a program leaves on the third terminal, the timer switches to the
first, where another is started. -/
def reusingHalts : List HaltAct :=
  [.execute shell ⟨1, 1⟩, .enter 0 ⟨0, 0⟩, .tick ⟨0, 0⟩ ⟨0, 0⟩, .execute shell ⟨2, 2⟩,
    .tick ⟨0, 0⟩ ⟨0, 0⟩, .tick ⟨0, 0⟩ ⟨0, 0⟩, .leave]

theorem dying_reused : ¬ ∀ (fs : FsImage) (first s : Halting) (history : List HaltEvent),
    ShellPresent fs → Launched first.kernel → (∀ t, first.dying t = none) →
    Run (Halting.Step fs) first history s →
    ∀ past e, (e :: past) <:+ history → KeepsDying past e := by
  intro always
  have computed : (performAll sampleImage setUpActs ([], sampleEntry)).map (fun b =>
      (Halting.performAll sampleImage reusingHalts ⟨b.2, fun _ => none⟩).map fun r =>
        lastReturn r.1) = some (some (some (2, some 1))) := by
    decide +kernel
  obtain ⟨b, set, replayed⟩ := Option.map_eq_some_iff.mp computed
  obtain ⟨r, done, last⟩ := Option.map_eq_some_iff.mp replayed
  obtain ⟨e, past, eax, history, reply, saved⟩ := lastReturn_some last
  have start := ((setUpActs_booting set).launching sampleImage_fits.present).launched
  have run := Halting.performAll_run done
  have good := always _ _ _ _ sampleImage_fits.present (by exact start) (fun _ => rfl) run past e
    (history ▸ List.suffix_rfl)
  have same := good.returns 2 eax reply
  rw [saved] at same
  revert same
  decide

end UnixLite
