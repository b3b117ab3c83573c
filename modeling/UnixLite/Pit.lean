import UnixLite.SystemCall

namespace UnixLite

/-- How `pit_handler` ends: in the context whose pointers it has loaded, or,
while the terminals are being set up, with what executing a shell gives. -/
inductive TickResult
  | switched (k : Kernel) (ebp esp : Word)
  | launched (r : ExecResult)

namespace Kernel

/-- The interrupted context goes to the PCB of the active process. -/
def saveContext (k : Kernel) (regs : Regs) : Kernel :=
  k.setPcb (k.terminals k.ta).activePid fun b => { b with curEsp := regs.esp, curEbp := regs.ebp }

/-- The set-up of terminal `t` on the first ticks, up to the call of `sys_execute`. -/
def launchTerminal (k : Kernel) (t : Fin 3) : Kernel :=
  let k := { (k.terminalSwitch (t.val + 1)).1 with ta := t }
  let k := k.setTerm t fun u => { u with basePid := t.val, activePid := t.val }
  { k with terminalInit := k.terminalInit + 1 }

/-- On the tick after the last terminal was set up the first one is shown again. -/
def finishInit (k : Kernel) : Kernel :=
  if k.terminalInit = 3 then
    let k := (k.terminalSwitch 1).1
    { k with termInitDone := true, terminalInit := k.terminalInit + 1 }
  else k

/-- The globals, the program page, the video page and the kernel stack of the
terminal after the active one are put in place. -/
def nextTerminal (k : Kernel) : Kernel :=
  let k := { k with ta := k.ta + 1 }
  let activePid := (k.terminals k.ta).activePid
  let k := { k with curPid := activePid, prevPid := (k.pcb activePid).parentPid }
  { (k.mapProgram activePid).mapVideo with tssEsp0 := kernelStack activePid }

/-- `pit_handler`; `regs` are the pointers it stores, `execRegs` those of the
`sys_execute` it calls while the terminals are being set up. -/
def pitHandler (fs : FsImage) (k : Kernel) (regs execRegs : Regs) : TickResult :=
  let k := k.saveContext regs
  if inSetup : k.terminalInit < 3 then
    .launched ((k.launchTerminal ⟨k.terminalInit, inSetup⟩).sysExecute fs shell execRegs)
  else
    let k := k.finishInit.nextTerminal
    .switched k (k.pcb k.curPid).curEbp (k.pcb k.curPid).curEsp

end Kernel

/-- The page directory that `paging_init` sets up; the two page tables are
where the linker put them. -/
def pagingInitPd (ptFrame ptUserFrame : BitVec 20) (i : Nat) : Pde :=
  if i = 0 then ⟨true, true, false, false, ptFrame⟩
  else if i = 1 then ⟨true, true, false, true, 1024⟩
  else if i = 32 then ⟨true, true, true, true, 32 * 1024⟩
  else if i = 33 then ⟨true, true, true, false, ptUserFrame⟩
  else ⟨false, true, false, true, BitVec.ofNat 20 (i * 1024)⟩

/-- The user page table that `paging_init` sets up. -/
def pagingInitPtUser (i : Nat) : Pte :=
  if i = 0xB8 then ⟨true, true, true, 0xB8⟩ else ⟨false, false, false, 0⟩

/-- The kernel at the `sti` of `entry`. The PCBs and the memory hold whatever
was there; `clear_screen` has moved the cursor that `process_init` had set. -/
def entryState (pcbs : Int → Pcb) (ram : Nat → UInt8) (ptFrame ptUserFrame : BitVec 20) : Kernel where
  curPid := -1
  prevPid := -1
  pidArray := fun _ => 0
  pcb := pcbs
  terminals := fun _ => ⟨0, 0, 0, 0, fun _ => 0, 0⟩
  ts := 0
  ta := 0
  terminalInit := 1
  termInitDone := false
  pd := pagingInitPd ptFrame ptUserFrame
  ptUser := pagingInitPtUser
  tssEsp0 := 0x800000
  videoMem := video
  mem := clear ram
  flags := ⟨false, false, false, false, false, false, false, 0⟩
  keyboardBuf := fun _ => 0
  keyIdx := 0
  processRtc := fun _ => 1024
  terminalRtcWait := fun _ => 0
  readIndex := 0

end UnixLite
