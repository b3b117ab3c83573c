import UnixLite.Drivers

namespace UnixLite

open Store

/-- The leading blanks of a command are skipped. -/
def skipBlanks (command : Nat → UInt8) : Nat → Nat → Nat
  | 0, fIdx => fIdx
  | n + 1, fIdx =>
    if command fIdx = 32 ∧ command fIdx ≠ 0 then skipBlanks command n (fIdx + 1) else fIdx

/-- The loop that fills `f_cmd`, with `n` of its 128 characters left: the
characters stored and the index it stops at. -/
def takeName (command : Nat → UInt8) (commandLen : Nat) : Nat → Nat → List UInt8 × Nat
  | 0, fIdx => ([], fIdx)
  | n + 1, fIdx =>
    if fIdx < commandLen then
      if command fIdx = 32 ∨ command fIdx = 10 ∨ command fIdx = 0 then ([], fIdx)
      else
        let rest := takeName command commandLen n (fIdx + 1)
        (command fIdx :: rest.1, rest.2)
    else ([], fIdx)

/-- The loop that fills `cmd_args`, with `n` of its 128 characters left. -/
def takeArgs (command : Nat → UInt8) (commandLen : Nat) : Nat → Nat → List UInt8
  | 0, _ => []
  | n + 1, fIdx =>
    if fIdx < commandLen then
      if command fIdx = 0 then [] else command fIdx :: takeArgs command commandLen n (fIdx + 1)
    else []

/-- The parsing of `sys_execute`: the strings left in `f_cmd` and `cmd_args`.
The terminator follows the last character of each, at index 128 at most. -/
def parseCommand (command : Nat → UInt8) : List UInt8 × List UInt8 :=
  let commandLen := strlen command
  let fIdx := skipBlanks command commandLen 0
  let name := takeName command commandLen 128 fIdx
  (name.1, takeArgs command commandLen 128 (name.2 + 1))

/-- `"shell"` -/
def shell : List UInt8 := [115, 104, 101, 108, 108]

def closedFd : Fd := ⟨.nullOpt, -1, -1, 0⟩

/-- The descriptor table of a new process. -/
def freshTable (i : Nat) : Fd :=
  if i = 0 then ⟨.stdinOpt, 0, 0, 1⟩
  else if i = 1 then ⟨.stdoutOpt, 0, 0, 1⟩
  else closedFd

/-- The three checks of `sys_execute` on the file system: the entry of an
executable file, `none` where the call returns -1. -/
def findProgram (fs : FsImage) (fCmd : List UInt8) : Option Dentry :=
  match readDentryByName fs (cString fCmd) with
  | none => none
  | some dentry =>
    let elf := readData fs dentry.inodeNum 0 4
    if elf.1 ≠ 4 then none
    else if elf.2 = [0x7F, 0x45, 0x4C, 0x46] then some dentry
    else none

/-- The slot that the search of `sys_execute` stops at. -/
def freePid (pidArray : Int → Int) : Option Int :=
  [0, 1, 2, 3, 4, 5].find? fun i => pidArray i == 0

/-- `CONST_8MB - (pid * CONST_8KB) - sizeof(uint32_t)` -/
def kernelStack (pid : Int) : Word := BitVec.ofInt 32 (0x800000 - pid * 0x2000 - 4)

/-- `(pid + 2) << OFFSET_10`, in the 20 bits of the entry -/
def programFrame (pid : Int) : BitVec 20 := BitVec.ofInt 20 ((pid + 2) * 1024)

/-- How `sys_execute` ends: it returns to its caller, it enters the new
program at `userEip`, or the image does not fit the 4 MB program page and the
copy faults behind its end. -/
inductive ExecResult
  | returned (k : Kernel) (value : Int)
  | started (k : Kernel) (userEip : Word)
  | faulted (k : Kernel)

namespace Kernel

/-- The PCB of the current process. -/
def curPcb (k : Kernel) : Pcb := k.pcb k.curPid

/-- The program page of process `pid` becomes the one at 128 MB. -/
def mapProgram (k : Kernel) (pid : Int) : Kernel :=
  { k with pd := Function.update k.pd 32 { k.pd 32 with p := true, addr := programFrame pid } }

/-- The physical address of byte `off` of the program page. -/
def programByte (k : Kernel) (off : Nat) : Nat := (k.pd 32).addr.toNat * 4096 + off

/-- The choice of a slot in `sys_execute`: `none` if all six are taken. -/
def claimPid (k : Kernel) : Kernel × Option Int :=
  let k := { k with prevPid := k.curPid }
  let slot := freePid k.pidArray
  let k : Kernel :=
    match slot with
    | some i => { k with curPid := i, pidArray := Function.update k.pidArray i 1 }
    | none => k
  (if k.curPid ≤ 2 then { k with prevPid := -1 } else k, slot)

/-- The PCB that `sys_execute` leaves for the new process. -/
def newPcb (k : Kernel) (cmdArgs : List UInt8) (regs : Regs) : Pcb where
  fileDescriptorTable := fun i => if i < 8 then freshTable i else k.curPcb.fileDescriptorTable i
  parentPid := k.prevPid
  ebp := regs.ebp
  esp := regs.esp
  curEbp := kernelStack k.curPid
  curEsp := kernelStack k.curPid
  cmdArgs :=
    let args := cString cmdArgs
    Function.update (copyLoop (strlen args) k.curPcb.cmdArgs args) (strlen args) 0

/-- `sys_execute` behind its parsing, with the strings in its two arrays;
`regs` are its own frame and stack pointers. -/
def executeParsed (fs : FsImage) (k : Kernel) (fCmd cmdArgs : List UInt8) (regs : Regs) : ExecResult :=
  let activeTerm := k.ta
  match findProgram fs fCmd with
  | none => .returned k (-1)
  | some dentry =>
    match k.claimPid with
    | (k, none) => .returned k 69
    | (k, some _) =>
      let k := k.mapProgram k.curPid
      let k := { k with ptUser := Function.update k.ptUser 0xB8 { k.ptUser 0xB8 with p := true } }
      let image := (readData fs dentry.inodeNum 0 (fs.fileLength dentry.inodeNum)).2
      let k := { k with mem := storeList k.mem (k.programByte 0x48000) (image.take 0x3B8000) }
      if image.length > 0x3B8000 then .faulted k
      else
        let k := k.setPcb k.curPid fun _ => k.newPcb cmdArgs regs
        let k := k.setTerm activeTerm fun t => { t with activePid := k.curPid }
        let k := { k with tssEsp0 := k.curPcb.curEsp }
        .started k (FsImage.word ⟨k.mem⟩ (k.programByte (0x48000 + 24)))

/-- `sys_execute` -/
def sysExecute (fs : FsImage) (k : Kernel) (command : List UInt8) (regs : Regs) : ExecResult :=
  let parsed := parseCommand (cString command)
  k.executeParsed fs parsed.1 parsed.2 regs

/-- `sys_read`. Index 8 passes the range check; the entry there is the
rest of the PCB, with `parent_pid` for its table and `cur_ebp` for its flags. -/
def sysRead (fs : FsImage) (k : Kernel) (fd : Int) (buf : Nat) (nbytes : Word) : Outcome ReadReply :=
  if fd < 0 ∨ fd > 8 then .done (k, -1, [])
  else if fd = 8 then if k.curPcb.curEbp = 0 then .done (k, -1, []) else .wild
  else
    let curFd := k.curPcb.fileDescriptorTable fd.toNat
    if curFd.flags = 0 then .done (k, -1, [])
    else
      match curFd.fileOpTablePtr.read fs k curFd buf nbytes with
      | .done (k', bytesRead, out) =>
        .done (k'.setFd k.curPid fd.toNat fun e =>
          { e with filePos := e.filePos + BitVec.ofInt 32 bytesRead }, bytesRead, out)
      | .blocks => .blocks
      | .wild => .wild

def sysWrite (k : Kernel) (fd : Int) (buf : Nat) (src : Nat → UInt8) (nbytes : Word) :
    Outcome (Kernel × Int) :=
  if fd < 0 ∨ fd > 8 then .done (k, -1)
  else if fd = 8 then if k.curPcb.curEbp = 0 then .done (k, -1) else .wild
  else
    let curFd := k.curPcb.fileDescriptorTable fd.toNat
    if curFd.flags = 0 then .done (k, -1)
    else curFd.fileOpTablePtr.write k buf src nbytes

end Kernel

/-- The search of `sys_open`, with `n` descriptors left from `fd` on. -/
def freeFd (table : Nat → Fd) : Nat → Nat → Nat
  | 0, fd => fd
  | n + 1, fd => if (table fd).flags ≠ 0 then freeFd table n (fd + 1) else fd

/-- The operations table for a file type; other types have none. -/
def tableOfType (fileType : Word) : Option OpTable :=
  if fileType = 0 then some .rtcOpt
  else if fileType = 1 then some .dirOpt
  else if fileType = 2 then some .fileOpt
  else none

namespace Kernel

/-- `sys_open`. Only the rtc driver's open routine is called. -/
def sysOpen (fs : FsImage) (k : Kernel) (filename : List UInt8) : Kernel × Int :=
  match readDentryByName fs (cString filename) with
  | none => (k, -1)
  | some fileDentry =>
    let fd := freeFd k.curPcb.fileDescriptorTable 6 2
    if fd ≥ 8 then (k, -1)
    else
      match tableOfType fileDentry.fileType with
      | none => (k, fd)
      | some op =>
        let k := k.setFd k.curPid fd fun _ => ⟨op, fileDentry.inodeNum, 0, 1⟩
        (if op = .rtcOpt then k.rtcOpen else k, fd)

def sysClose (k : Kernel) (fd : Int) : Kernel × Int :=
  if fd < 2 ∨ fd > 7 then (k, -1)
  else
    let curFd := k.curPcb.fileDescriptorTable fd.toNat
    if curFd.flags = 0 then (k, -1)
    else ((curFd.fileOpTablePtr.close k).setFd k.curPid fd.toNat fun _ => closedFd, 0)

/-- `sys_getargs`: its result and the bytes it stores from `buf` on. The
subtraction wraps like the machine's. -/
def sysGetargs (k : Kernel) (nbytes : Word) : Int × List UInt8 :=
  let argStrlen := strlen k.curPcb.cmdArgs
  if argStrlen = 0 ∨ (argStrlen : Int) > (nbytes - 1).toInt then (-1, [])
  else (0, (List.range argStrlen).map k.curPcb.cmdArgs ++ [0])

/-- `sys_vidmap`: its result and the word it stores at `screen_start`. -/
def sysVidmap (k : Kernel) (screenStart : Word) : Int × Option Word :=
  if (k.ptUser 0xB8).p = false ∨ screenStart = 0 then (-1, none)
  else if screenStart < 0x8000000 ∨ screenStart ≥ 0x8000000 + 0x800000 then (-1, none)
  else (0, some (33 * 0x400000 + 0xB8 * 4096))

/-- The slot of the current process is freed and the parent's page mapped. -/
def haltRelease (k : Kernel) : Kernel :=
  let parentPid := k.curPcb.parentPid
  let k := { k with
    pidArray := Function.update k.pidArray k.curPid 0
    prevPid := (k.pcb parentPid).parentPid }
  k.mapProgram parentPid

/-- The first two descriptors are cleared by hand, the others closed. -/
def closeFiles (k : Kernel) : Kernel :=
  let k := k.setFd k.curPid 0 fun _ => ⟨.nullPtr, 0, 0, 0⟩
  let k := k.setFd k.curPid 1 fun _ => ⟨.nullPtr, 0, 0, 0⟩
  [2, 3, 4, 5, 6, 7].foldl (fun k (i : Int) => (k.sysClose i).1) k

/-- The parent takes over the terminal. The line kept in its struct is
cleared but not its index; the shown line is cleared with its index. -/
def resumeParent (k : Kernel) (activeTerm : Fin 3) (parentPid : Int) : Kernel :=
  let k := { k with curPid := parentPid }
  let k := k.setTerm activeTerm fun t =>
    { t with activePid := parentPid, terminalBuf := fillLoop 128 0 t.terminalBuf }
  let k := if k.ts = activeTerm then k.clearKeyboardBuf else k
  { k with tssEsp0 := kernelStack parentPid }

/-- From the `cli` to the `sti` of `halt_helper`, for a process that has a parent. -/
def haltBody (k : Kernel) : Kernel :=
  k.haltRelease.closeFiles.resumeParent k.ta k.curPcb.parentPid

/-- The slot of a base shell is freed and no process is current. -/
def freeBase (k : Kernel) : Kernel :=
  { k with pidArray := Function.update k.pidArray k.curPid 0, curPid := -1, prevPid := -1 }

/-- A base shell is not halted: its slot is freed and a shell executed. -/
def haltBase (fs : FsImage) (k : Kernel) (regs : Regs) : ExecResult :=
  k.freeBase.sysExecute fs shell regs

end Kernel

/-- How `halt_helper` ends: back in the parent's `sys_execute`, with the frame
pointer it loads from the PCB of the dead process and the status in `eax`, or
with what executing the base shell again gives. -/
inductive HaltResult
  | resumed (k : Kernel) (ebp eax : Word)
  | restarted (r : ExecResult)

/-- `halt_helper`; `regs` belong to the `sys_execute` it may call. -/
def Kernel.haltHelper (fs : FsImage) (k : Kernel) (status : Word) (regs : Regs) : HaltResult :=
  if k.curPcb.parentPid = -1 then .restarted (k.haltBase fs regs)
  else .resumed k.haltBody (k.haltBody.pcb k.curPid).ebp status

end UnixLite
