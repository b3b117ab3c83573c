import UnixLite.Frames

namespace UnixLite

open Store

/-- The slot chosen is the lowest free one. -/
theorem freePid_some {pidArray : Int → Int} {p : Int} (found : freePid pidArray = some p) :
    0 ≤ p ∧ p ≤ 5 ∧ pidArray p = 0 ∧ ∀ q, 0 ≤ q → q < p → pidArray q ≠ 0 := by
  obtain ⟨here, before, after, list, earlier⟩ := List.find?_eq_some_iff_append.mp found
  have free : pidArray p = 0 := by simpa using here
  have member : p ∈ ([0, 1, 2, 3, 4, 5] : List Int) := list ▸ by simp
  refine ⟨?_, ?_, free, ?_⟩
  · simp only [List.mem_cons, List.not_mem_nil, or_false] at member; omega
  · simp only [List.mem_cons, List.not_mem_nil, or_false] at member; omega
  · intro q lower below
    have upper : p ≤ 5 := by
      simp only [List.mem_cons, List.not_mem_nil, or_false] at member; omega
    have listed : q ∈ ([0, 1, 2, 3, 4, 5] : List Int) := by
      simp only [List.mem_cons, List.not_mem_nil, or_false]; omega
    have sorted : ([0, 1, 2, 3, 4, 5] : List Int).Pairwise (· < ·) := by decide
    rw [list] at listed sorted
    rcases List.mem_append.mp listed with inFront | behind
    · simpa using earlier q inFront
    · have rest := (List.pairwise_append.mp sorted).2.1
      rcases List.mem_cons.mp behind with same | later
      · omega
      · have := (List.pairwise_cons.mp rest).1 q later
        omega

theorem freePid_none {pidArray : Int → Int} (full : freePid pidArray = none) {p : Int}
    (lower : 0 ≤ p) (upper : p ≤ 5) : pidArray p ≠ 0 := by
  have listed : p ∈ ([0, 1, 2, 3, 4, 5] : List Int) := by
    simp only [List.mem_cons, List.not_mem_nil, or_false]; omega
  have taken := List.find?_eq_none.mp full p listed
  simpa using taken

/-- A free slot with only taken ones before it is the one chosen. -/
theorem freePid_eq {pidArray : Int → Int} {p : Int} (lower : 0 ≤ p) (upper : p ≤ 5)
    (free : pidArray p = 0) (taken : ∀ q, 0 ≤ q → q < p → pidArray q ≠ 0) :
    freePid pidArray = some p := by
  cases found : freePid pidArray with
  | none => exact absurd free (freePid_none found lower upper)
  | some q =>
    obtain ⟨qLower, _, qFree, before⟩ := freePid_some found
    have notAbove : ¬ p < q := fun above => before p lower above free
    have notBelow : ¬ q < p := fun below => taken q qLower below qFree
    rw [show q = p by omega]

/-- With the slots below `n` taken and the others free, `n` is the slot chosen. -/
theorem freePid_below {pidArray : Int → Int} {n : Nat}
    (taken : ∀ p : Int, 0 ≤ p → p ≤ 5 → pidArray p = if p < n then 1 else 0) (more : n ≤ 5) :
    freePid pidArray = some n := by
  refine freePid_eq (by omega) (by omega) ?_ ?_
  · rw [taken n (by omega) (by omega), if_neg (by omega)]
  · intro q lower below
    rw [taken q lower (by omega), if_pos below]
    decide

namespace Kernel

theorem claimPid_none {k : Kernel} (full : freePid k.pidArray = none) :
    k.claimPid = ({ k with prevPid := if k.curPid ≤ 2 then -1 else k.curPid }, none) := by
  simp only [claimPid, full]
  split <;> rfl

theorem claimPid_some {k : Kernel} {pid : Int} (slot : freePid k.pidArray = some pid) :
    k.claimPid = ({ k with
      curPid := pid
      pidArray := Function.update k.pidArray pid 1
      prevPid := if pid ≤ 2 then -1 else k.curPid }, some pid) := by
  simp only [claimPid, slot]
  split <;> rfl

theorem takeArgs_length (command : Nat → UInt8) (commandLen n fIdx : Nat) :
    (takeArgs command commandLen n fIdx).length ≤ n := by
  induction n generalizing fIdx with
  | zero => simp [takeArgs]
  | succ n ih =>
    unfold takeArgs
    split
    · split
      · simp
      · exact Nat.succ_le_succ (ih (fIdx + 1))
    · simp

theorem parseCommand_args (command : Nat → UInt8) : (parseCommand command).2.length ≤ 128 :=
  takeArgs_length _ _ _ _

/-- The stored argument string is no longer than the one parsed. -/
theorem newPcb_stored (k : Kernel) {cmdArgs : List UInt8} (regs : Regs) (short : cmdArgs.length ≤ 128) :
    strlen (k.newPcb cmdArgs regs).cmdArgs ≤ 128 := by
  have length : strlen (cString cmdArgs) ≤ 128 := (strlen_le (cString_length cmdArgs)).trans short
  refine Nat.le_trans (strlen_le ?_) length
  simp [newPcb]

/-- What `sys_execute` has done when it enters a new program: everything else
in the state is as it was. -/
structure Started (fs : FsImage) (k : Kernel) (command : List UInt8) (regs : Regs) (pid : Int)
    (k' : Kernel) : Prop where
  slot : freePid k.pidArray = some pid
  program : ∃ dentry, findProgram fs (parseCommand (cString command)).1 = some dentry ∧
    k'.mem = storeList k.mem ((programFrame pid).toNat * 4096 + 0x48000)
      (readData fs dentry.inodeNum 0 (fs.fileLength dentry.inodeNum)).2
  curPid : k'.curPid = pid
  prevPid : k'.prevPid = if pid ≤ 2 then -1 else k.curPid
  pidArray : k'.pidArray = Function.update k.pidArray pid 1
  otherPcb : ∀ q, q ≠ pid → k'.pcb q = k.pcb q
  table : ∀ i, i < 8 → (k'.pcb pid).fileDescriptorTable i = freshTable i
  parentPid : (k'.pcb pid).parentPid = if pid ≤ 2 then -1 else k.curPid
  ebp : (k'.pcb pid).ebp = regs.ebp
  curEbp : (k'.pcb pid).curEbp = kernelStack pid
  curEsp : (k'.pcb pid).curEsp = kernelStack pid
  cmdArgs : strlen (k'.pcb pid).cmdArgs ≤ 128
  activePid : (k'.terminals k.ta).activePid = pid
  otherTerminal : ∀ t, t ≠ k.ta → k'.terminals t = k.terminals t
  cursor : ∀ t, (k'.console t).x = (k.console t).x ∧ (k'.console t).y = (k.console t).y
  lines : SameLines k k'
  ta : k'.ta = k.ta
  terminalInit : k'.terminalInit = k.terminalInit
  termInitDone : k'.termInitDone = k.termInitDone
  programPage : k'.pd 32 = { k.pd 32 with p := true, addr := programFrame pid }
  otherPage : ∀ i, i ≠ 32 → k'.pd i = k.pd i
  videoPage : k'.ptUser 0xB8 = { k.ptUser 0xB8 with p := true }
  tssEsp0 : k'.tssEsp0 = kernelStack pid
  videoMem : k'.videoMem = k.videoMem
  processRtc : k'.processRtc = k.processRtc
  readIndex : k'.readIndex = k.readIndex

/-- The state in which `sys_execute` enters a program: `pid` is claimed and
mapped, `image` lies in its page, and its PCB is the new one. -/
def startProgram (k : Kernel) (pid : Int) (image cmdArgs : List UInt8) (regs : Regs) : Kernel :=
  let claimed : Kernel := { k with
    curPid := pid
    pidArray := Function.update k.pidArray pid 1
    prevPid := if pid ≤ 2 then -1 else k.curPid }
  let mapped := claimed.mapProgram pid
  let loaded : Kernel := { mapped with
    ptUser := Function.update k.ptUser 0xB8 { k.ptUser 0xB8 with p := true }
    mem := storeList k.mem ((programFrame pid).toNat * 4096 + 0x48000) image }
  let listed := (loaded.setPcb pid fun _ => loaded.newPcb cmdArgs regs).setTerm k.ta
    fun t => { t with activePid := pid }
  { listed with tssEsp0 := kernelStack pid }

/-- A call of `sys_execute` enters a program only where the search finds one,
a slot is free and the image fits the page. -/
theorem sysExecute_inv {fs : FsImage} {k k' : Kernel} {command : List UInt8} {regs : Regs}
    {eip : Word} (run : k.sysExecute fs command regs = .started k' eip) :
    ∃ dentry pid image, findProgram fs (parseCommand (cString command)).1 = some dentry ∧
      freePid k.pidArray = some pid ∧
      image = (readData fs dentry.inodeNum 0 (fs.fileLength dentry.inodeNum)).2 ∧
      image.length ≤ 0x3B8000 ∧
      k' = k.startProgram pid image (parseCommand (cString command)).2 regs ∧
      eip = FsImage.word ⟨k'.mem⟩ (k'.programByte (0x48000 + 24)) := by
  unfold sysExecute executeParsed at run
  dsimp only at run
  split at run
  · cases run
  rename_i dentry found
  cases slot : freePid k.pidArray with
  | none => simp [claimPid_none slot] at run
  | some pid =>
    simp only [claimPid_some slot] at run
    split at run
    · cases run
    rename_i fits
    have whole : (readData fs dentry.inodeNum 0 (fs.fileLength dentry.inodeNum)).2.take 0x3B8000 =
        (readData fs dentry.inodeNum 0 (fs.fileLength dentry.inodeNum)).2 :=
      List.take_of_length_le (by omega)
    cases run
    refine ⟨dentry, pid, _, found, rfl, rfl, by omega, ?_, rfl⟩
    rw [whole]
    simp [startProgram, mapProgram, programByte, setTerm, setPcb, newPcb, curPcb]

theorem sysExecute_started {fs : FsImage} {k k' : Kernel} {command : List UInt8} {regs : Regs}
    {eip : Word} (run : k.sysExecute fs command regs = .started k' eip) :
    ∃ pid, Started fs k command regs pid k' := by
  obtain ⟨dentry, pid, image, found, slot, bytes, _, rfl, _⟩ := sysExecute_inv run
  refine ⟨pid, ?_⟩
  constructor
  case slot => exact slot
  case program => exact ⟨dentry, found, by rw [← bytes]; rfl⟩
  case otherPcb =>
    intro q other
    simp [startProgram, setTerm, setPcb, mapProgram, other]
  case table =>
    intro i inside
    simp [startProgram, setTerm, setPcb, newPcb, mapProgram, inside]
  case cmdArgs =>
    have args := parseCommand_args (cString command)
    simp only [startProgram, setTerm, setPcb, mapProgram, Function.update_self]
    exact newPcb_stored _ regs args
  case otherTerminal =>
    intro t other
    simp [startProgram, setTerm, setPcb, mapProgram, other]
  case cursor =>
    intro t
    by_cases same : t = k.ta <;> simp [startProgram, console, setTerm, setPcb, mapProgram, same]
  case lines =>
    constructor <;> intros <;> try rfl
    all_goals
      rename_i t
      by_cases same : t = k.ta <;> simp [startProgram, setTerm, setPcb, mapProgram, same]
  case otherPage =>
    intro i other
    simp [startProgram, setTerm, setPcb, mapProgram, other]
  all_goals simp [startProgram, setTerm, setPcb, newPcb, mapProgram]

/-- A call of `sys_execute` that returns has changed `prev_pid` at most. -/
theorem sysExecute_returned {fs : FsImage} {k k' : Kernel} {command : List UInt8} {regs : Regs}
    {v : Int} (run : k.sysExecute fs command regs = .returned k' v) :
    ∃ prev, k' = { k with prevPid := prev } := by
  unfold sysExecute executeParsed at run
  dsimp only at run
  split at run
  · cases run
    exact ⟨k.prevPid, rfl⟩
  · cases slot : freePid k.pidArray with
    | none =>
      simp only [claimPid_none slot] at run
      cases run
      exact ⟨_, rfl⟩
    | some pid =>
      simp only [claimPid_some slot] at run
      split at run <;> simp at run

/-- With the program found and a slot free the call does not return. -/
theorem sysExecute_not_returned {fs : FsImage} {k k' : Kernel} {command : List UInt8} {regs : Regs}
    {pid v : Int} {dentry : Dentry}
    (found : findProgram fs (parseCommand (cString command)).1 = some dentry)
    (slot : freePid k.pidArray = some pid) : k.sysExecute fs command regs ≠ .returned k' v := by
  intro run
  unfold sysExecute executeParsed at run
  simp only [found, claimPid_some slot] at run
  split at run <;> simp at run

theorem setFd_otherPcb (k : Kernel) {p q : Int} (fd : Nat) (f : Fd → Fd) (other : q ≠ p) :
    (k.setFd p fd f).pcb q = k.pcb q := by
  simp [setFd, setPcb, other]

/-- `sys_open` sets one descriptor of the caller at most. -/
theorem sysOpen_pcb (fs : FsImage) (k : Kernel) (name : List UInt8) :
    (k.sysOpen fs name).1.pcb = k.pcb ∨ ∃ fd f, (k.sysOpen fs name).1.pcb = (k.setFd k.curPid fd f).pcb := by
  unfold sysOpen
  split
  · exact Or.inl rfl
  rename_i fileDentry _
  extract_lets fd
  split
  · exact Or.inl rfl
  split
  · exact Or.inl rfl
  · rename_i op _
    refine Or.inr ⟨fd, fun _ => ⟨op, fileDentry.inodeNum, 0, 1⟩, ?_⟩
    dsimp only
    split <;> rfl

theorem sysClose_pcb (k : Kernel) (fd : Int) :
    (k.sysClose fd).1.pcb = k.pcb ∨
      (k.sysClose fd).1.pcb = (k.setFd k.curPid fd.toNat fun _ => closedFd).pcb := by
  unfold sysClose
  split
  · exact Or.inl rfl
  extract_lets curFd
  split
  · exact Or.inl rfl
  · refine Or.inr ?_
    cases curFd.fileOpTablePtr <;> rfl

theorem sysClose_otherPcb (k : Kernel) (fd : Int) {q : Int} (other : q ≠ k.curPid) :
    (k.sysClose fd).1.pcb q = k.pcb q := by
  rcases k.sysClose_pcb fd with same | set
  · rw [same]
  · rw [set, setFd_otherPcb k fd.toNat _ other]

theorem closeLoop_frame (fds : List Int) (k : Kernel) :
    Quiet k (fds.foldl (fun k i => (k.sysClose i).1) k) ∧
      ∀ q, q ≠ k.curPid → (fds.foldl (fun k i => (k.sysClose i).1) k).pcb q = k.pcb q := by
  induction fds generalizing k with
  | nil => exact ⟨Quiet.refl k, fun _ _ => rfl⟩
  | cons fd rest ih =>
    have head := k.sysClose_quiet fd
    obtain ⟨quiet, others⟩ := ih (k.sysClose fd).1
    refine ⟨head.trans quiet, fun q other => ?_⟩
    rw [List.foldl_cons, others q (by rw [head.processes.curPid]; exact other)]
    exact k.sysClose_otherPcb fd other

/-- Closing its files reaches no process but the one that halts. -/
theorem closeFiles_frame (k : Kernel) :
    Quiet k k.closeFiles ∧ ∀ q, q ≠ k.curPid → k.closeFiles.pcb q = k.pcb q := by
  unfold closeFiles
  extract_lets k1 k2
  have quiet : Quiet k k2 := (setFd_quiet k _ _ _).trans (setFd_quiet k1 _ _ _)
  obtain ⟨rest, others⟩ := closeLoop_frame [2, 3, 4, 5, 6, 7] k2
  refine ⟨quiet.trans rest, fun q other => ?_⟩
  rw [others q (by rw [quiet.processes.curPid]; exact other)]
  exact (k1.setFd_otherPcb 1 _ other).trans (k.setFd_otherPcb 0 _ other)

/-- What `halt_helper` has done at its `sti`, for a process with a parent. -/
structure Halted (k k' : Kernel) : Prop where
  curPid : k'.curPid = k.curPcb.parentPid
  pidArray : k'.pidArray = Function.update k.pidArray k.curPid 0
  otherPcb : ∀ q, q ≠ k.curPid → k'.pcb q = k.pcb q
  parentPid : ∀ q, (k'.pcb q).parentPid = (k.pcb q).parentPid
  ebp : ∀ q, (k'.pcb q).ebp = (k.pcb q).ebp
  curEbp : ∀ q, (k'.pcb q).curEbp = (k.pcb q).curEbp
  curEsp : ∀ q, (k'.pcb q).curEsp = (k.pcb q).curEsp
  activePid : (k'.terminals k.ta).activePid = k.curPcb.parentPid
  otherActive : ∀ t, t ≠ k.ta → (k'.terminals t).activePid = (k.terminals t).activePid
  terminalBuf : (k'.terminals k.ta).terminalBuf = fillLoop 128 0 (k.terminals k.ta).terminalBuf
  otherBuf : ∀ t, t ≠ k.ta → (k'.terminals t).terminalBuf = (k.terminals t).terminalBuf
  bufIdx : ∀ t, (k'.terminals t).bufIdx = (k.terminals t).bufIdx
  keyboardBuf : k'.keyboardBuf = if k.ts = k.ta then fillLoop 128 0 k.keyboardBuf else k.keyboardBuf
  keyIdx : k'.keyIdx = if k.ts = k.ta then 0 else k.keyIdx
  video : SameVideo k k'
  programPage : k'.pd 32 = { k.pd 32 with p := true, addr := programFrame k.curPcb.parentPid }
  tssEsp0 : k'.tssEsp0 = kernelStack k.curPcb.parentPid

/-- Freeing the slot and mapping the parent leaves lines and screens alone. -/
theorem haltRelease_frame (k : Kernel) : SameLines k k.haltRelease ∧ SameVideo k k.haltRelease := by
  constructor <;> constructor <;> intros <;> rfl

/-- What the hand-over to the parent leaves alone. -/
theorem resumeParent_same (k : Kernel) (t : Fin 3) (p : Int) :
    (k.resumeParent t p).pcb = k.pcb ∧ (k.resumeParent t p).pidArray = k.pidArray ∧
      (k.resumeParent t p).pd = k.pd ∧ SameVideo k (k.resumeParent t p) := by
  unfold resumeParent
  extract_lets k1 k2 k3
  have cleared : SameVideo k2 k3 ∧ k3.pcb = k.pcb ∧ k3.pidArray = k.pidArray ∧ k3.pd = k.pd := by
    by_cases shown : k2.ts = t
    · rw [show k3 = k2.clearKeyboardBuf from if_pos shown]
      exact ⟨k2.clearKeyboardBuf_sameVideo, rfl, rfl, rfl⟩
    · rw [show k3 = k2 from if_neg shown]
      exact ⟨SameVideo.refl k2, rfl, rfl, rfl⟩
  have moved : SameVideo k k2 := by
    constructor <;> intros <;> try rfl
    all_goals
      rename_i u
      by_cases same : u = t <;> simp [k2, k1, setTerm, same]
  obtain ⟨video, pcb, pidArray, pd⟩ := cleared
  refine ⟨pcb, pidArray, pd, (moved.trans video).trans ?_⟩
  constructor <;> intros <;> rfl

theorem haltBody_terminals (k : Kernel) (t : Fin 3) : k.haltBody.terminals t = if t = k.ta then
    { k.haltRelease.closeFiles.terminals t with
      activePid := k.curPcb.parentPid
      terminalBuf := fillLoop 128 0 (k.haltRelease.closeFiles.terminals t).terminalBuf }
    else k.haltRelease.closeFiles.terminals t := by
  by_cases same : t = k.ta <;> by_cases shown : k.haltRelease.closeFiles.ts = k.ta <;>
    simp [haltBody, resumeParent, setTerm, clearKeyboardBuf, same, shown]

theorem haltBody_shownLine (k : Kernel) :
    k.haltBody.keyboardBuf = (if k.ts = k.ta then fillLoop 128 0 k.keyboardBuf else k.keyboardBuf) ∧
      k.haltBody.keyIdx = if k.ts = k.ta then 0 else k.keyIdx := by
  have lines := k.haltRelease_frame.1.trans k.haltRelease.closeFiles_frame.1.lines
  by_cases shown : k.ts = k.ta <;>
    simp [haltBody, resumeParent, setTerm, clearKeyboardBuf, lines.ts, lines.keyboardBuf,
      lines.keyIdx, shown]

theorem haltBody_halted (k : Kernel) : Halted k k.haltBody := by
  obtain ⟨⟨processes, _, closedVideo⟩, others⟩ := k.haltRelease.closeFiles_frame
  have lines := k.haltRelease_frame.1.trans k.haltRelease.closeFiles_frame.1.lines
  have shape : k.haltRelease.closeFiles.resumeParent k.ta k.curPcb.parentPid = k.haltBody := rfl
  have resumed := k.haltRelease.closeFiles.resumeParent_same k.ta k.curPcb.parentPid
  rw [shape] at resumed
  obtain ⟨pcb, pidArray, pd, video⟩ := resumed
  have slots : k.haltRelease.pidArray = Function.update k.pidArray k.curPid 0 := rfl
  have page : k.haltRelease.pd 32 =
      { k.pd 32 with p := true, addr := programFrame k.curPcb.parentPid } := by
    simp [haltRelease, mapProgram]
  have own := k.haltBody_terminals k.ta
  rw [if_pos rfl] at own
  have other {t : Fin 3} (ne : t ≠ k.ta) :
      k.haltBody.terminals t = k.haltRelease.closeFiles.terminals t := by
    rw [k.haltBody_terminals, if_neg ne]
  constructor
  case curPid =>
    simp only [haltBody, resumeParent]
    split <;> rfl
  case pidArray => exact (pidArray.trans processes.pidArray).trans slots
  case otherPcb => exact fun q ne => (congrFun pcb q).trans (others q ne)
  case parentPid =>
    exact fun q => (congrArg Pcb.parentPid (congrFun pcb q)).trans (processes.parentPid q)
  case ebp => exact fun q => (congrArg Pcb.ebp (congrFun pcb q)).trans (processes.ebp q)
  case curEbp => exact fun q => (congrArg Pcb.curEbp (congrFun pcb q)).trans (processes.curEbp q)
  case curEsp => exact fun q => (congrArg Pcb.curEsp (congrFun pcb q)).trans (processes.curEsp q)
  case activePid => rw [own]
  case otherActive =>
    exact fun t ne => (congrArg Term.activePid (other ne)).trans (processes.activePid t)
  case terminalBuf => rw [own, lines.terminalBuf]
  case otherBuf =>
    exact fun t ne => (congrArg Term.terminalBuf (other ne)).trans (lines.terminalBuf t)
  case bufIdx =>
    intro t
    rw [k.haltBody_terminals]
    split
    · dsimp only
      exact lines.bufIdx t
    · exact lines.bufIdx t
  case keyboardBuf => exact k.haltBody_shownLine.1
  case keyIdx => exact k.haltBody_shownLine.2
  case video => exact (k.haltRelease_frame.2.trans closedVideo).trans video
  case programPage => exact ((congrFun pd 32).trans (congrFun processes.pd 32)).trans page
  case tssEsp0 =>
    simp only [haltBody, resumeParent]

end Kernel

end UnixLite
