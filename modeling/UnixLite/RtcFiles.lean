import Mathlib.Data.Finset.Basic
import UnixLite.OpenFiles

namespace UnixLite

open Transition

/-- The entry of a descriptor that is open on the rtc. -/
def Fd.isRtc (f : Fd) : Bool := decide (f.flags ≠ 0 ∧ f.fileOpTablePtr = .rtcOpt)

theorem Fd.isRtc_iff {f : Fd} : f.isRtc = true ↔ f.flags ≠ 0 ∧ f.fileOpTablePtr = .rtcOpt :=
  decide_eq_true_iff

theorem Fd.isRtc_unused {f : Fd} (unused : f.flags = 0) : f.isRtc = false :=
  decide_eq_false fun both => both.1 unused

theorem freshTable_notRtc (i : Nat) : (freshTable i).isRtc = false := by
  unfold freshTable
  split
  · decide
  split
  · decide
  · decide

namespace Kernel

/-- The descriptors of process `p` that are open on the rtc. -/
def rtcFds (k : Kernel) (p : Int) : Finset Nat := (Finset.range 8).filter fun i => (k.entry p i).isRtc

theorem mem_rtcFds {k : Kernel} {p : Int} {i : Nat} :
    i ∈ k.rtcFds p ↔ i < 8 ∧ (k.entry p i).isRtc = true := by
  rw [rtcFds, Finset.mem_filter, Finset.mem_range]

theorem rtcFds_same {k k' : Kernel} {p : Int}
    (same : ∀ i, i < 8 → (k'.entry p i).isRtc = (k.entry p i).isRtc) : k'.rtcFds p = k.rtcFds p := by
  ext i
  rw [mem_rtcFds, mem_rtcFds]
  exact and_congr_right fun inside => by rw [same i inside]

theorem rtcFds_pcb {k k' : Kernel} {p : Int} (pcb : k'.pcb p = k.pcb p) : k'.rtcFds p = k.rtcFds p :=
  rtcFds_same fun i _ => by rw [entry, entry, pcb]

theorem rtcFds_fresh {k : Kernel} {p : Int} (fresh : ∀ i, i < 8 → k.entry p i = freshTable i) :
    k.rtcFds p = ∅ := by
  ext i
  rw [mem_rtcFds]
  constructor
  · rintro ⟨inside, open_⟩
    rw [fresh i inside, freshTable_notRtc] at open_
    cases open_
  · intro none
    cases none

/-- `sys_open` would find an rtc under this name and a descriptor for it. -/
def opensRtc (fs : FsImage) (k : Kernel) (name : List UInt8) : Bool :=
  match readDentryByName fs (cString name) with
  | none => false
  | some d => decide (d.fileType = 0 ∧ freeFd k.curPcb.fileDescriptorTable 6 2 < 8)

/-- `sys_close` would close the rtc under this descriptor. -/
def closesRtc (k : Kernel) (fd : Int) : Bool :=
  decide (2 ≤ fd ∧ fd ≤ 7 ∧ fd.toNat ∈ k.rtcFds k.curPid)

theorem sysOpen_rtc (fs : FsImage) (k : Kernel) (name : List UInt8) :
    (k.opensRtc fs name = true ∧
        (∃ fd, 2 ≤ fd ∧ (k.sysOpen fs name).1.rtcFds k.curPid = insert fd (k.rtcFds k.curPid)) ∧
        (k.sysOpen fs name).1.processRtc = Function.update k.processRtc k.curPid 2) ∨
      (k.opensRtc fs name = false ∧ (k.sysOpen fs name).1.rtcFds k.curPid = k.rtcFds k.curPid ∧
        (k.sysOpen fs name).1.processRtc = k.processRtc) := by
  obtain ⟨lower, upper, _, free⟩ := freeFd_spec k.curPcb.fileDescriptorTable 6 2
  unfold sysOpen opensRtc
  cases found : readDentryByName fs (cString name) with
  | none => exact Or.inr ⟨rfl, rfl, rfl⟩
  | some d =>
    dsimp only
    generalize freeFd k.curPcb.fileDescriptorTable 6 2 = fd at lower upper free ⊢
    by_cases full : fd ≥ 8
    · rw [if_pos full]
      exact Or.inr ⟨decide_eq_false fun both => by omega, rfl, rfl⟩
    rw [if_neg full]
    have unused : (k.entry k.curPid fd).isRtc = false := Fd.isRtc_unused (free (by omega))
    have inside : fd < 8 := by omega
    have set (op : OpTable) (i : Nat) := k.setFd_entry k.curPid k.curPid fd i fun _ => ⟨op, d.inodeNum, 0, 1⟩
    by_cases rtc : d.fileType = 0
    · have typed : tableOfType d.fileType = some .rtcOpt := by rw [rtc]; rfl
      refine Or.inl ⟨decide_eq_true ⟨rtc, inside⟩, ⟨fd, lower, ?_⟩, ?_⟩
      · ext i
        rw [Finset.mem_insert, mem_rtcFds, mem_rtcFds, typed]
        change i < 8 ∧ ((k.setFd k.curPid fd fun _ => ⟨.rtcOpt, d.inodeNum, 0, 1⟩).entry
          k.curPid i).isRtc = true ↔ _
        rw [set]
        by_cases here : i = fd
        · simp [here, inside, Fd.isRtc]
        · simp [here]
      · rw [typed]
        rfl
    · refine Or.inr ⟨decide_eq_false fun both => rtc both.1, ?_⟩
      cases typed : tableOfType d.fileType with
      | none => exact ⟨rfl, rfl⟩
      | some op =>
        have notRtc : op ≠ .rtcOpt := by
          rintro rfl
          unfold tableOfType at typed
          rw [if_neg rtc] at typed
          split at typed
          · cases typed
          split at typed
          · cases typed
          · cases typed
        dsimp only
        rw [if_neg notRtc]
        refine ⟨rtcFds_same fun i _ => ?_, rfl⟩
        rw [set]
        by_cases here : i = fd
        · rw [if_pos ⟨rfl, here⟩, here, unused]
          simp [Fd.isRtc, notRtc]
        · rw [if_neg fun both => here both.2]

theorem sysClose_rtc (k : Kernel) (fd : Int) :
    (k.closesRtc fd = true ∧
        (k.sysClose fd).1.rtcFds k.curPid = (k.rtcFds k.curPid).erase fd.toNat ∧
        (k.sysClose fd).1.processRtc = Function.update k.processRtc k.curPid 1024) ∨
      (k.closesRtc fd = false ∧ (k.sysClose fd).1.rtcFds k.curPid = k.rtcFds k.curPid ∧
        (k.sysClose fd).1.processRtc = k.processRtc) := by
  rcases k.sysClose_cases fd with ⟨refuses, refused⟩ | ⟨lower, upper, used, _, entries⟩
  · refine Or.inr ⟨decide_eq_false ?_, by rw [refused], by rw [refused]⟩
    rintro ⟨low, high, member⟩
    rcases refuses with below | above | unused
    · omega
    · omega
    · rw [mem_rtcFds, Fd.isRtc_unused unused] at member
      cases member.2
  · have rates : (k.sysClose fd).1.processRtc =
        ((k.entry k.curPid fd.toNat).fileOpTablePtr.close k).processRtc := by
      have notUnused : (k.curPcb.fileDescriptorTable fd.toNat).flags ≠ 0 := used
      unfold sysClose
      rw [if_neg (by omega)]
      dsimp only
      rw [if_neg notUnused]
      rfl
    rw [rates]
    by_cases table : (k.entry k.curPid fd.toNat).fileOpTablePtr = .rtcOpt
    · have member : fd.toNat ∈ k.rtcFds k.curPid :=
        mem_rtcFds.mpr ⟨by omega, Fd.isRtc_iff.mpr ⟨used, table⟩⟩
      refine Or.inl ⟨decide_eq_true ⟨lower, upper, member⟩, ?_, by rw [table]; rfl⟩
      ext i
      rw [Finset.mem_erase, mem_rtcFds, mem_rtcFds, entries]
      by_cases here : i = fd.toNat
      · simp [here, closedFd, Fd.isRtc]
      · simp [here]
    · have notRtc : (k.entry k.curPid fd.toNat).isRtc = false := decide_eq_false fun both => table both.2
      refine Or.inr ⟨decide_eq_false ?_, rtcFds_same fun i _ => ?_, ?_⟩
      · rintro ⟨_, _, member⟩
        rw [mem_rtcFds, notRtc] at member
        cases member.2
      · rw [entries]
        by_cases here : i = fd.toNat
        · rw [if_pos ⟨rfl, here⟩, here, notRtc]
          rfl
        · rw [if_neg fun both => here both.2]
      · cases driver : (k.entry k.curPid fd.toNat).fileOpTablePtr with
        | rtcOpt => exact absurd driver table
        | dirOpt | stdinOpt | stdoutOpt | fileOpt | nullOpt | nullPtr => rfl

/-- Closing the descriptors of a list one by one. -/
theorem closeLoop_rtc (fds : List Int) (inside : ∀ fd ∈ fds, 2 ≤ fd ∧ fd ≤ 7) (k : Kernel) :
    (∀ i : Nat, i ∈ (fds.foldl (fun k fd => (k.sysClose fd).1) k).rtcFds k.curPid ↔
        i ∈ k.rtcFds k.curPid ∧ (i : Int) ∉ fds) ∧
      (fds.foldl (fun k fd => (k.sysClose fd).1) k).processRtc =
        if ∃ i ∈ k.rtcFds k.curPid, (i : Int) ∈ fds then Function.update k.processRtc k.curPid 1024
        else k.processRtc := by
  induction fds generalizing k with
  | nil => simp
  | cons fd rest ih =>
    obtain ⟨lower, upper⟩ := inside fd (List.mem_cons_self ..)
    have kept : (k.sysClose fd).1.curPid = k.curPid := (k.sysClose_quiet fd).processes.curPid
    obtain ⟨closed, rates⟩ := ih (fun i member => inside i (List.mem_cons_of_mem _ member)) (k.sysClose fd).1
    rw [kept] at closed rates
    have index (i : Nat) : (i : Int) = fd ↔ i = fd.toNat := by omega
    simp only [List.foldl_cons, List.mem_cons, not_or, index]
    rcases k.sysClose_rtc fd with ⟨closes, left, rate⟩ | ⟨stays, left, rate⟩
    · rw [left] at closed rates
      rw [rate] at rates
      obtain ⟨_, _, member⟩ := of_decide_eq_true closes
      refine ⟨fun i => ?_, ?_⟩
      · rw [closed, Finset.mem_erase]
        tauto
      · rw [rates, Function.update_idem, ite_self, if_pos ⟨fd.toNat, member, Or.inl rfl⟩]
    · rw [left] at closed rates
      rw [rate] at rates
      have notMember : fd.toNat ∉ k.rtcFds k.curPid := fun member =>
        of_decide_eq_false stays ⟨lower, upper, member⟩
      have other {i : Nat} (member : i ∈ k.rtcFds k.curPid) : i ≠ fd.toNat := by
        rintro rfl
        exact notMember member
      refine ⟨fun i => ?_, ?_⟩
      · rw [closed]
        exact and_congr_right fun member => (and_iff_right (other member)).symm
      · rw [rates]
        refine if_congr ?_ rfl rfl
        constructor
        · rintro ⟨i, member, later⟩
          exact ⟨i, member, Or.inr later⟩
        · rintro ⟨i, member, here | later⟩
          · exact absurd here (other member)
          · exact ⟨i, member, later⟩

/-- What is left of the rtc descriptors of a dying process. The first two
descriptors are cleared without being closed. -/
theorem closeFiles_rtc (k : Kernel) : k.closeFiles.rtcFds k.curPid = ∅ ∧ k.closeFiles.processRtc =
    if ∃ i ∈ k.rtcFds k.curPid, 2 ≤ i then Function.update k.processRtc k.curPid 1024
    else k.processRtc := by
  unfold closeFiles
  extract_lets k1 k2
  have cleared (i : Nat) : k2.entry k.curPid i = if i = 0 ∨ i = 1 then ⟨.nullPtr, 0, 0, 0⟩ else
      k.entry k.curPid i := k.cleared_entry k.curPid i
  have rest (i : Nat) : i ∈ k2.rtcFds k.curPid ↔ i ∈ k.rtcFds k.curPid ∧ 2 ≤ i := by
    rw [mem_rtcFds, mem_rtcFds, cleared]
    by_cases low : i = 0 ∨ i = 1
    · rw [if_pos low, Fd.isRtc_unused rfl]
      simp
      omega
    · rw [if_neg low]
      exact ⟨fun both => ⟨both, by omega⟩, fun both => both.1⟩
  have listed {i : Nat} (member : i ∈ k2.rtcFds k.curPid) : (i : Int) ∈ ([2, 3, 4, 5, 6, 7] : List Int) := by
    have lower := ((rest i).mp member).2
    have upper := (mem_rtcFds.mp member).1
    simp only [List.mem_cons, List.not_mem_nil, or_false]
    omega
  obtain ⟨closed, rates⟩ := closeLoop_rtc [2, 3, 4, 5, 6, 7] (by decide) k2
  have kept : k2.curPid = k.curPid := rfl
  have rate : k2.processRtc = k.processRtc := rfl
  rw [kept] at closed rates
  rw [rate] at rates
  constructor
  · ext i
    rw [closed]
    constructor
    · rintro ⟨member, notClosed⟩
      exact absurd (listed member) notClosed
    · intro none
      cases none
  · rw [rates]
    refine if_congr ?_ rfl rfl
    constructor
    · rintro ⟨i, member, _⟩
      exact ⟨i, (rest i).mp member⟩
    · rintro ⟨i, both⟩
      have member := (rest i).mpr both
      exact ⟨i, member, listed member⟩

theorem resumeParent_processRtc (k : Kernel) (t : Fin 3) (parentPid : Int) :
    (k.resumeParent t parentPid).processRtc = k.processRtc := by
  simp only [resumeParent]
  split <;> rfl

theorem haltBody_rtc (k : Kernel) : k.haltBody.rtcFds k.curPid = ∅ ∧ k.haltBody.processRtc =
    if ∃ i ∈ k.rtcFds k.curPid, 2 ≤ i then Function.update k.processRtc k.curPid 1024
    else k.processRtc := by
  obtain ⟨closed, rates⟩ := k.haltRelease.closeFiles_rtc
  have pcb := (k.haltRelease.closeFiles.resumeParent_same k.ta k.curPcb.parentPid).1
  constructor
  · exact (rtcFds_pcb (congrFun pcb k.curPid)).trans closed
  · exact (resumeParent_processRtc _ _ _).trans rates

/-- A write that is done has set a rate, or there was no rtc under its
descriptor or a rate that the driver refuses. -/
theorem sysWrite_rtc {k k' : Kernel} {fd : Int} {buf : Nat} {src : Nat → UInt8} {nbytes : Word} {v : Int}
    (run : k.sysWrite fd buf src nbytes = .done (k', v)) :
    ((0 ≤ fd ∧ fd.toNat ∈ k.rtcFds k.curPid ∧ v = 0) ∧
        (2 ≤ (FsImage.word ⟨src⟩ 0).toInt ∧ (FsImage.word ⟨src⟩ 0).toInt ≤ 1024) ∧
        k'.processRtc = Function.update k.processRtc k.curPid (FsImage.word ⟨src⟩ 0).toInt) ∨
      (¬ (0 ≤ fd ∧ fd.toNat ∈ k.rtcFds k.curPid ∧ v = 0) ∧ k'.processRtc = k.processRtc) := by
  rcases sysWrite_done run with ⟨rfl, rfl⟩ | ⟨lower, upper, used, driver⟩
  · exact Or.inr ⟨by omega, rfl⟩
  · by_cases table : (k.curPcb.fileDescriptorTable fd.toNat).fileOpTablePtr = .rtcOpt
    · have member : fd.toNat ∈ k.rtcFds k.curPid :=
        mem_rtcFds.mpr ⟨by omega, Fd.isRtc_iff.mpr ⟨used, table⟩⟩
      simp only [table, OpTable.write, Outcome.done.injEq, rtcWrite] at driver
      split at driver
      · cases driver
        exact Or.inr ⟨by omega, rfl⟩
      · cases driver
        exact Or.inl ⟨⟨lower, member, rfl⟩, by omega, rfl⟩
    · have notMember : fd.toNat ∉ k.rtcFds k.curPid := by
        intro member
        exact table (Fd.isRtc_iff.mp (mem_rtcFds.mp member).2).2
      refine Or.inr ⟨fun all => notMember all.2.1, ?_⟩
      cases op : (k.curPcb.fileDescriptorTable fd.toNat).fileOpTablePtr with
      | rtcOpt => exact absurd op table
      | stdoutOpt =>
        have written := (k.terminalWrite_frame buf src nbytes).1.processRtc
        simp only [op, OpTable.write, Outcome.done.injEq] at driver
        rwa [driver] at written
      | stdinOpt | fileOpt | dirOpt | nullOpt =>
        rw [op] at driver
        cases driver
        rfl
      | nullPtr =>
        rw [op] at driver
        cases driver

theorem sysRead_rtc {fs : FsImage} {k k' : Kernel} {fd : Int} {buf : Nat} {nbytes : Word} {v : Int}
    {out : List UInt8} (run : k.sysRead fs fd buf nbytes = .done (k', v, out)) (p : Int) :
    k'.rtcFds p = k.rtcFds p ∧ k'.processRtc = k.processRtc := by
  constructor
  · refine rtcFds_same fun i _ => ?_
    rcases sysRead_entry run p i with same | ⟨_, _, _, moved⟩
    · rw [same]
    · rw [moved]
      rfl
  · rcases sysRead_done run with ⟨rfl, _⟩ | ⟨_, _, _, k1, driver, rfl⟩
    · rfl
    · exact (OpTable.read_kept driver).2

theorem tick_processRtc (k : Kernel) (regs : Regs) :
    (k.saveContext regs).finishInit.nextTerminal.processRtc = k.processRtc := by
  have finished : (k.saveContext regs).finishInit.processRtc = k.processRtc := by
    unfold finishInit
    split
    · exact ((k.saveContext regs).terminalSwitch_ttyOnly 1).processRtc
    · rfl
  exact (mapVideo_ttyOnly _).processRtc.trans finished

theorem launchTerminal_rtc (k : Kernel) (regs : Regs) (t : Fin 3) :
    (∀ p, ((k.saveContext regs).launchTerminal t).rtcFds p = k.rtcFds p) ∧
      ((k.saveContext regs).launchTerminal t).processRtc = k.processRtc ∧
      ((k.saveContext regs).launchTerminal t).pidArray = k.pidArray := by
  have pidArray := ((k.saveContext regs).launchTerminal_parts t).2.2.1
  refine ⟨fun p => rtcFds_same fun i _ => ?_, ?_, pidArray⟩
  · rw [k.launchTerminal_entry]
  · exact ((k.saveContext regs).terminalSwitch_ttyOnly _).processRtc

/-- The slot that a program started by an act gets. -/
def slotFor (k : Kernel) : Act → Option Int
  | .halt _ _ => freePid k.freeBase.pidArray
  | _ => freePid k.pidArray

end Kernel

def Reply.isEntered : Reply → Bool
  | .entered _ => true
  | .value _ _ | .resumed _ _ | .loaded _ _ => false

/-- The frequency that an event sets for process `p` by a successful write. -/
def rtcWritten (p : Int) (e : Happening) : Option Int :=
  match e.act with
  | (.write fd _ src _, .value v _) =>
    if e.pre.curPid = p ∧ 0 ≤ fd ∧ fd.toNat ∈ e.pre.rtcFds p ∧ v = 0 then
      some (FsImage.word ⟨src⟩ 0).toInt
    else none
  | _ => none

/-- What a step does to the rtc descriptors and to the rate of process `p`. -/
inductive RtcEffect (fs : FsImage) (p : Int) (e : Happening) : Prop
  | kept : rtcWritten p e = none → e.post.rtcFds p = e.pre.rtcFds p →
      e.post.processRtc p = e.pre.processRtc p →
      (Halts p e = true → e.pre.curPcb.parentPid = -1) → RtcEffect fs p e
  | opened {name fd} : e.pre.curPid = p → e.act.1 = .openFile name → e.pre.opensRtc fs name = true →
      2 ≤ fd → e.post.rtcFds p = insert fd (e.pre.rtcFds p) → e.post.processRtc p = 2 → RtcEffect fs p e
  | closed {fd} : e.pre.curPid = p → e.act.1 = .close fd → e.pre.closesRtc fd = true →
      e.post.rtcFds p = (e.pre.rtcFds p).erase fd.toNat → e.post.processRtc p = 1024 → RtcEffect fs p e
  | written {fd buf src nbytes freq} : e.pre.curPid = p → e.act.1 = .write fd buf src nbytes →
      rtcWritten p e = some freq → 2 ≤ freq ∧ freq ≤ 1024 → e.pre.rtcFds p ≠ ∅ →
      e.post.rtcFds p = e.pre.rtcFds p →
      e.post.processRtc p = freq → RtcEffect fs p e
  | left : Halts p e = true → e.post.rtcFds p = ∅ →
      e.post.processRtc p = (if ∃ i ∈ e.pre.rtcFds p, 2 ≤ i then 1024 else e.pre.processRtc p) →
      RtcEffect fs p e
  | started : e.act.2.isEntered = true → e.pre.slotFor e.act.1 = some p → e.post.rtcFds p = ∅ →
      e.post.processRtc p = e.pre.processRtc p → RtcEffect fs p e

theorem rtcWritten_none {p : Int} {e : Happening}
    (other : e.pre.curPid = p → ∀ fd buf src nbytes, e.act.1 ≠ .write fd buf src nbytes) :
    rtcWritten p e = none := by
  unfold rtcWritten
  split
  · rename_i fd buf src nbytes v out write
    refine if_neg fun all => ?_
    exact other all.1 fd buf src nbytes (congrArg Prod.fst write)
  · rfl

/-- A program started from a state with the same rates and descriptors. -/
theorem started_rtc {fs : FsImage} {p : Int} {k k1 k' : Kernel} {act : Act} {eip : Word}
    {command : List UInt8} {regs : Regs} {pid : Int} (run : k1.Started fs command regs pid k')
    (notWrite : ∀ fd buf src nbytes, act ≠ .write fd buf src nbytes)
    (parent : ∀ status regs, act = .halt status regs → k.curPcb.parentPid = -1)
    (slot : k.slotFor act = freePid k1.pidArray) (descriptors : k1.rtcFds p = k.rtcFds p)
    (rates : k1.processRtc = k.processRtc) : RtcEffect fs p ⟨k, (act, .entered eip), k'⟩ := by
  have rate : k'.processRtc = k.processRtc := run.processRtc.trans rates
  by_cases same : pid = p
  · subst same
    exact .started rfl (slot.trans run.slot) (Kernel.rtcFds_fresh run.table) (congrFun rate pid)
  · refine .kept (rtcWritten_none fun _ => notWrite) ?_ (congrFun rate p) ?_
    · exact (Kernel.rtcFds_pcb (run.otherPcb p (Ne.symm same))).trans descriptors
    · intro halts
      unfold Halts at halts
      split at halts
      · rename_i status regs halt
        exact parent status regs halt
      · cases halts

/-- What a step that starts a program leaves in the slot it takes. -/
theorem step_entered {fs : FsImage} {k k' : Kernel} {l : Act × Reply} (move : Step fs k l k')
    (entered : l.2.isEntered = true) : k.slotFor l.1 = some k'.curPid ∧ k'.rtcFds k'.curPid = ∅ ∧
      k'.processRtc = k.processRtc := by
  have fresh {k1 : Kernel} {command : List UInt8} {regs : Regs} {pid : Int}
      (run : k1.Started fs command regs pid k') (slot : k.slotFor l.1 = freePid k1.pidArray)
      (rates : k1.processRtc = k.processRtc) : k.slotFor l.1 = some k'.curPid ∧
        k'.rtcFds k'.curPid = ∅ ∧ k'.processRtc = k.processRtc := by
    rw [run.curPid]
    exact ⟨slot.trans run.slot, Kernel.rtcFds_fresh run.table, run.processRtc.trans rates⟩
  obtain ⟨act, r⟩ := l
  cases act with
  | execute command regs =>
    rcases step_execute move with ⟨_, _, _, rfl⟩ | ⟨_, _, _, run⟩
    · cases entered
    · exact fresh run rfl rfl
  | halt status regs =>
    rcases step_halt move with ⟨_, _, rfl⟩ | ⟨_, restarted⟩
    · cases entered
    · rcases Kernel.sysExecute_outcome restarted with ⟨_, _, _, rfl⟩ | ⟨_, _, _, run⟩
      · cases entered
      · exact fresh run rfl rfl
  | tick regs execRegs =>
    rcases step_tick move with ⟨_, _, _, rfl⟩ | ⟨inSetup, launched⟩
    · cases entered
    · obtain ⟨_, rates, pidArray⟩ := k.launchTerminal_rtc regs ⟨_, inSetup⟩
      rcases Kernel.sysExecute_outcome launched with ⟨_, _, _, rfl⟩ | ⟨_, _, _, started⟩
      · cases entered
      · exact fresh started (by rw [pidArray]; rfl) rates
  | read fd buf nbytes =>
    obtain ⟨_, _, _, rfl⟩ := step_read move
    cases entered
  | write fd buf src nbytes =>
    obtain ⟨_, _, rfl⟩ := step_write move
    cases entered
  | openFile | close | putc | vidStore | key | switchTo =>
    cases move
    cases entered

/-- A step that is no halt, no write of `p` and starts nothing, and leaves `p` alone. -/
theorem kept_rtc {fs : FsImage} {p : Int} {k k' : Kernel} {act : Act} {r : Reply}
    (notHalt : ∀ status regs, act ≠ .halt status regs)
    (notWrite : k.curPid = p → ∀ fd buf src nbytes, act ≠ .write fd buf src nbytes)
    (descriptors : k'.rtcFds p = k.rtcFds p) (rate : k'.processRtc p = k.processRtc p) :
    RtcEffect fs p ⟨k, (act, r), k'⟩ := by
  refine .kept (rtcWritten_none notWrite) descriptors rate fun halts => ?_
  rw [halts_false (Or.inl notHalt)] at halts
  cases halts

/-- An interrupt or a write to the screen. -/
theorem tty_rtc {fs : FsImage} {p : Int} {k k' : Kernel} {act : Act} {r : Reply}
    (frame : TtyOnly k k') (notHalt : ∀ status regs, act ≠ .halt status regs)
    (notWrite : ∀ fd buf src nbytes, act ≠ .write fd buf src nbytes) :
    RtcEffect fs p ⟨k, (act, r), k'⟩ :=
  kept_rtc notHalt (fun _ => notWrite) (Kernel.rtcFds_pcb (congrFun frame.pcb p))
    (congrFun frame.processRtc p)

/-- What a process does leaves the others alone. -/
theorem elsewhere_rtc {fs : FsImage} {p : Int} {k k' : Kernel} {l : Act × Reply} (other : k.curPid ≠ p)
    (pcb : k'.pcb p = k.pcb p) (rate : k'.processRtc p = k.processRtc p) : RtcEffect fs p ⟨k, l, k'⟩ := by
  refine .kept (rtcWritten_none fun same => absurd same other) (Kernel.rtcFds_pcb pcb) rate fun halts => ?_
  rw [halts_false (Or.inr other)] at halts
  cases halts

section Calls

variable {fs : FsImage} {k k' : Kernel} {p : Int} {r : Reply}

theorem halt_rtc (status : Word) (regs : Regs) : RtcEffect fs p ⟨k, (.halt status regs, r), k.haltBody⟩ := by
  obtain ⟨closed, rates⟩ := k.haltBody_rtc
  by_cases own : k.curPid = p
  · subst own
    refine .left (by simp [Halts]) closed ?_
    simp only [rates]
    split
    · exact Function.update_self ..
    · rfl
  · refine elsewhere_rtc own (k.haltBody_halted.otherPcb p (Ne.symm own)) ?_
    rw [rates]
    split
    · exact Function.update_of_ne (Ne.symm own) ..
    · rfl

theorem write_rtc {fd v : Int} {buf : Nat} {src : Nat → UInt8} {nbytes : Word}
    (run : k.sysWrite fd buf src nbytes = .done (k', v)) :
    RtcEffect fs p ⟨k, (.write fd buf src nbytes, .value v []), k'⟩ := by
  have pcb := congrFun (Kernel.sysWrite_kept run).1 p
  by_cases own : k.curPid = p
  · subst own
    have descriptors := Kernel.rtcFds_pcb pcb
    rcases Kernel.sysWrite_rtc run with ⟨set, accepted, rates⟩ | ⟨notSet, rates⟩
    · refine .written rfl rfl (if_pos ⟨rfl, set⟩) accepted (Finset.ne_empty_of_mem set.2.1) descriptors ?_
      simp only [rates]
      exact Function.update_self ..
    · refine .kept (if_neg fun all => notSet all.2) descriptors (congrFun rates k.curPid) ?_
      simp [Halts]
  · refine elsewhere_rtc own pcb ?_
    rcases Kernel.sysWrite_rtc run with ⟨_, _, rates⟩ | ⟨_, rates⟩
    · rw [rates, Function.update_of_ne (Ne.symm own)]
    · rw [rates]

theorem open_rtc (name : List UInt8) : RtcEffect fs p ⟨k, (.openFile name, r), (k.sysOpen fs name).1⟩ := by
  by_cases own : k.curPid = p
  · subst own
    rcases k.sysOpen_rtc fs name with ⟨opens, ⟨fd, lower, more⟩, rates⟩ | ⟨_, same, rates⟩
    · refine .opened rfl rfl opens lower more ?_
      simp only [rates]
      exact Function.update_self ..
    · exact kept_rtc (by simp) (by simp) same (congrFun rates k.curPid)
  · refine elsewhere_rtc own (k.sysOpen_otherPcb fs name (Ne.symm own)) ?_
    rcases k.sysOpen_rtc fs name with ⟨_, _, rates⟩ | ⟨_, _, rates⟩
    · rw [rates, Function.update_of_ne (Ne.symm own)]
    · rw [rates]

theorem close_rtc (fd : Int) : RtcEffect fs p ⟨k, (.close fd, r), (k.sysClose fd).1⟩ := by
  by_cases own : k.curPid = p
  · subst own
    rcases k.sysClose_rtc fd with ⟨closes, fewer, rates⟩ | ⟨_, same, rates⟩
    · refine .closed rfl rfl closes fewer ?_
      simp only [rates]
      exact Function.update_self ..
    · exact kept_rtc (by simp) (by simp) same (congrFun rates k.curPid)
  · refine elsewhere_rtc own (k.sysClose_otherPcb fd (Ne.symm own)) ?_
    rcases k.sysClose_rtc fd with ⟨_, _, rates⟩ | ⟨_, _, rates⟩
    · rw [rates, Function.update_of_ne (Ne.symm own)]
    · rw [rates]

end Calls

/-- Inversion of a step with regard to the rate of one process. -/
theorem step_rtc {fs : FsImage} {k k' : Kernel} {l : Act × Reply} (p : Int) (move : Step fs k l k') :
    RtcEffect fs p ⟨k, l, k'⟩ := by
  obtain ⟨act, r⟩ := l
  cases act with
  | execute command regs =>
    rcases step_execute move with ⟨prev, v, rfl, rfl⟩ | ⟨eip, pid, rfl, run⟩
    · exact kept_rtc (by simp) (by simp) rfl rfl
    · exact started_rtc run (by simp) (by simp) rfl rfl rfl
  | halt status regs =>
    rcases step_halt move with ⟨child, rfl, rfl⟩ | ⟨orphan, restarted⟩
    · exact halt_rtc status regs
    · rcases Kernel.sysExecute_outcome restarted with ⟨prev, v, rfl, rfl⟩ | ⟨eip, pid, rfl, run⟩
      · exact .kept (rtcWritten_none (by simp)) rfl rfl fun _ => orphan
      · exact started_rtc run (by simp) (fun _ _ _ => orphan) rfl rfl rfl
  | tick regs execRegs =>
    rcases step_tick move with ⟨_, switched, shape, rfl⟩ | ⟨inSetup, launched⟩
    · refine kept_rtc (by simp) (by simp) ?_ ?_
      · exact Kernel.rtcFds_same fun i _ => by rw [Kernel.entry, Kernel.entry, switched.table]
      · rw [shape]
        exact congrFun (Kernel.tick_processRtc k regs) p
    · obtain ⟨descriptors, rates, pidArray⟩ := k.launchTerminal_rtc regs ⟨_, inSetup⟩
      rcases Kernel.sysExecute_outcome launched with ⟨prev, v, rfl, rfl⟩ | ⟨eip, pid, rfl, started⟩
      · exact kept_rtc (by simp) (by simp) (descriptors p) (congrFun rates p)
      · exact started_rtc started (by simp) (by simp) (by rw [pidArray]; rfl) (descriptors p) rates
  | key keypress =>
    cases move
    exact tty_rtc (k.keyboardHandler_ttyOnly keypress) (by simp) (by simp)
  | switchTo function =>
    cases move
    exact tty_rtc (k.terminalSwitch_ttyOnly function) (by simp) (by simp)
  | read fd buf nbytes =>
    obtain ⟨v, out, run, rfl⟩ := step_read move
    obtain ⟨descriptors, rates⟩ := Kernel.sysRead_rtc run p
    exact kept_rtc (by simp) (by simp) descriptors (congrFun rates p)
  | write fd buf src nbytes =>
    obtain ⟨v, run, rfl⟩ := step_write move
    exact write_rtc run
  | openFile filename =>
    cases move
    exact open_rtc filename
  | close fd =>
    cases move
    exact close_rtc fd
  | putc c =>
    cases move
    exact tty_rtc (k.putc_ttyOnly c) (by simp) (by simp)
  | vidStore off b =>
    cases move
    exact kept_rtc (by simp) (by simp) rfl rfl

end UnixLite
