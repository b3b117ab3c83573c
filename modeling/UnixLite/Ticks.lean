import UnixLite.ProcessCalls

namespace UnixLite

namespace Kernel

/-- What a tick has done once the three terminals are set up. -/
structure Switched (k : Kernel) (regs : Regs) (k' : Kernel) : Prop where
  ta : k'.ta = k.ta + 1
  curPid : k'.curPid = (k.terminals (k.ta + 1)).activePid
  pidArray : k'.pidArray = k.pidArray
  savedEbp : (k'.pcb (k.terminals k.ta).activePid).curEbp = regs.ebp
  savedEsp : (k'.pcb (k.terminals k.ta).activePid).curEsp = regs.esp
  otherPcb : ∀ q, q ≠ (k.terminals k.ta).activePid → k'.pcb q = k.pcb q
  table : ∀ q, (k'.pcb q).fileDescriptorTable = (k.pcb q).fileDescriptorTable
  parentPid : ∀ q, (k'.pcb q).parentPid = (k.pcb q).parentPid
  ebp : ∀ q, (k'.pcb q).ebp = (k.pcb q).ebp
  activePid : ∀ t, (k'.terminals t).activePid = (k.terminals t).activePid
  programPage : k'.pd 32 =
    { k.pd 32 with p := true, addr := programFrame (k.terminals (k.ta + 1)).activePid }
  tssEsp0 : k'.tssEsp0 = kernelStack (k.terminals (k.ta + 1)).activePid
  terminalInit : 3 < k'.terminalInit
  termInitDone : k'.termInitDone = (k.termInitDone || k.terminalInit == 3)
  readIndex : k'.readIndex = k.readIndex

theorem nextTerminal_parts (k : Kernel) :
    k.nextTerminal.ta = k.ta + 1 ∧
    k.nextTerminal.curPid = (k.terminals (k.ta + 1)).activePid ∧
    k.nextTerminal.pidArray = k.pidArray ∧ k.nextTerminal.pcb = k.pcb ∧
    k.nextTerminal.terminals = k.terminals ∧
    k.nextTerminal.pd 32 =
      { k.pd 32 with p := true, addr := programFrame (k.terminals (k.ta + 1)).activePid } ∧
    k.nextTerminal.tssEsp0 = kernelStack (k.terminals (k.ta + 1)).activePid ∧
    k.nextTerminal.terminalInit = k.terminalInit ∧
    k.nextTerminal.termInitDone = k.termInitDone ∧
    k.nextTerminal.readIndex = k.readIndex := by
  unfold nextTerminal mapVideo
  dsimp only
  split <;> simp [mapProgram, setVidmemPage]

/-- Apart from the two set-up counters, the end of the set-up is a terminal switch. -/
theorem finishInit_parts (k : Kernel) (ready : 3 ≤ k.terminalInit) :
    TtyOnly k { k.finishInit with terminalInit := k.terminalInit, termInitDone := k.termInitDone } ∧
    3 < k.finishInit.terminalInit ∧
    k.finishInit.termInitDone = (k.termInitDone || k.terminalInit == 3) := by
  have frame := k.terminalSwitch_ttyOnly 1
  unfold finishInit
  by_cases last : k.terminalInit = 3
  · rw [if_pos last]
    refine ⟨⟨frame.curPid, frame.pidArray, frame.pcb, frame.activePid, frame.ta, rfl, rfl, frame.pd,
      frame.tssEsp0, frame.processRtc, frame.readIndex⟩, ?_, ?_⟩
    · have count := frame.terminalInit
      dsimp only
      omega
    · simp [last]
  · rw [if_neg last]
    exact ⟨TtyOnly.refl k, by omega, by simp [last]⟩

/-- Saving the context changes two pointers in one PCB and nothing else there. -/
theorem saveContext_field {β : Type} (k : Kernel) (regs : Regs) (f : Pcb → β)
    (keeps : ∀ b : Pcb, f { b with curEsp := regs.esp, curEbp := regs.ebp } = f b) (q : Int) :
    f ((k.saveContext regs).pcb q) = f (k.pcb q) := by
  by_cases same : q = (k.terminals k.ta).activePid
  · subst same
    simp [saveContext, setPcb, keeps]
  · simp [saveContext, setPcb, same]

theorem nextTerminal_switched (k : Kernel) (regs : Regs) (ready : 3 ≤ k.terminalInit) :
    Switched k regs (k.saveContext regs).finishInit.nextTerminal := by
  obtain ⟨frame, counted, finished⟩ := (k.saveContext regs).finishInit_parts ready
  obtain ⟨ta, curPid, pidArray, pcb, terminals, programPage, tssEsp0, terminalInit, termInitDone,
    readIndex⟩ := (k.saveContext regs).finishInit.nextTerminal_parts
  have ta1 : (k.saveContext regs).finishInit.ta = k.ta := frame.ta
  have active : ∀ t, ((k.saveContext regs).finishInit.terminals t).activePid =
      (k.terminals t).activePid := frame.activePid
  have saved : (k.saveContext regs).finishInit.pcb = (k.saveContext regs).pcb := frame.pcb
  rw [saved] at pcb
  rw [ta1] at ta curPid programPage tssEsp0
  rw [active] at curPid programPage tssEsp0
  have pd : (k.saveContext regs).finishInit.pd = k.pd := frame.pd
  rw [pd] at programPage
  have field (q : Int) {β : Type} (f : Pcb → β)
      (keeps : ∀ b : Pcb, f { b with curEsp := regs.esp, curEbp := regs.ebp } = f b) :
      f ((k.saveContext regs).finishInit.nextTerminal.pcb q) = f (k.pcb q) := by
    rw [pcb]
    exact k.saveContext_field regs f keeps q
  constructor
  case ta => exact ta
  case curPid => exact curPid
  case pidArray => exact pidArray.trans frame.pidArray
  case savedEbp =>
    rw [pcb]
    simp [saveContext, setPcb]
  case savedEsp =>
    rw [pcb]
    simp [saveContext, setPcb]
  case otherPcb =>
    intro q other
    rw [pcb]
    simp [saveContext, setPcb, other]
  case table => exact fun q => field q Pcb.fileDescriptorTable (fun _ => rfl)
  case parentPid => exact fun q => field q Pcb.parentPid (fun _ => rfl)
  case ebp => exact fun q => field q Pcb.ebp (fun _ => rfl)
  case activePid => exact fun t => (congrArg Term.activePid (congrFun terminals t)).trans (active t)
  case programPage => exact programPage
  case tssEsp0 => exact tssEsp0
  case terminalInit => rw [terminalInit]; exact counted
  case termInitDone => exact termInitDone.trans finished
  case readIndex => exact readIndex.trans frame.readIndex

/-- After the set-up a tick always switches, and it loads the pointers that
the PCB of the new process holds. -/
theorem pitHandler_switched (fs : FsImage) (k : Kernel) (regs execRegs : Regs)
    (ready : 3 ≤ k.terminalInit) :
    ∃ k', Switched k regs k' ∧ k' = (k.saveContext regs).finishInit.nextTerminal ∧
      k.pitHandler fs regs execRegs =
        .switched k' (k'.pcb k'.curPid).curEbp (k'.pcb k'.curPid).curEsp := by
  refine ⟨_, k.nextTerminal_switched regs ready, rfl, ?_⟩
  have settled : ¬ (k.saveContext regs).terminalInit < 3 := by
    have same : (k.saveContext regs).terminalInit = k.terminalInit := rfl
    omega
  simp only [pitHandler, settled, dite_false]

/-- In the set-up a tick ends the way its call of `sys_execute` does. -/
theorem pitHandler_launches (fs : FsImage) (k : Kernel) (regs execRegs : Regs)
    (inSetup : k.terminalInit < 3) :
    (k.pitHandler fs regs execRegs).outcome =
      (((k.saveContext regs).launchTerminal ⟨k.terminalInit, inSetup⟩).sysExecute fs shell
        execRegs).outcome := by
  have settled : (k.saveContext regs).terminalInit < 3 := inSetup
  simp only [pitHandler, settled, dite_true, TickResult.outcome]
  rfl

end Kernel

end UnixLite
