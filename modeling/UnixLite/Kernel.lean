import UnixLite.FileSystem

namespace UnixLite

instance neZeroThree : NeZero 3 := ⟨by decide⟩

/-- The file operations tables of `process_init`. `nullPtr` is the NULL that
`halt_helper` leaves in the first two descriptors of a dead process. -/
inductive OpTable
  | fileOpt | dirOpt | rtcOpt | stdinOpt | stdoutOpt | nullOpt | nullPtr
  deriving DecidableEq

/-- `fd_t` -/
structure Fd where
  fileOpTablePtr : OpTable
  inodeNum : Word
  filePos : Word
  flags : Word
  deriving DecidableEq

/-- `pcb_t`. The byte after the 128 of `cmd_args` is kept as well: the
terminator of a longest argument string lies there. -/
structure Pcb where
  fileDescriptorTable : Nat → Fd
  parentPid : Int
  ebp : Word
  esp : Word
  curEbp : Word
  curEsp : Word
  cmdArgs : Nat → UInt8

/-- `term_t` -/
structure Term where
  cursorX : Nat
  cursorY : Nat
  basePid : Int
  activePid : Int
  terminalBuf : Nat → UInt8
  bufIdx : Nat

/-- The fields of a page directory entry that address translation reads. -/
structure Pde where
  p : Bool
  rw : Bool
  us : Bool
  ps : Bool
  addr : BitVec 20
  deriving DecidableEq

/-- The fields of a page table entry that address translation reads. -/
structure Pte where
  p : Bool
  rw : Bool
  us : Bool
  addr : BitVec 20
  deriving DecidableEq

/-- The sticky key states of keyboard.c. -/
structure KeyFlags where
  tab : Bool
  caps : Bool
  lShift : Bool
  rShift : Bool
  ctrl : Bool
  alt : Bool
  backspace : Bool
  function : Nat
  deriving DecidableEq

/-- The frame and stack pointers of an interrupted kernel context. -/
structure Regs where
  ebp : Word
  esp : Word
  deriving DecidableEq

/-- The globals of the kernel together with the memory that its video pages
and program frames occupy. The kernel stacks and the file-system module are
not part of it: the first hold no data of this model, the second is constant. -/
structure Kernel where
  curPid : Int
  prevPid : Int
  pidArray : Int → Int
  pcb : Int → Pcb
  terminals : Fin 3 → Term
  ts : Fin 3
  ta : Fin 3
  terminalInit : Nat
  termInitDone : Bool
  pd : Nat → Pde
  ptUser : Nat → Pte
  tssEsp0 : Word
  videoMem : Nat
  mem : Nat → UInt8
  flags : KeyFlags
  keyboardBuf : Nat → UInt8
  keyIdx : Nat
  processRtc : Int → Int
  terminalRtcWait : Fin 3 → Int
  readIndex : Word

namespace Kernel

def setTerm (k : Kernel) (t : Fin 3) (f : Term → Term) : Kernel :=
  { k with terminals := Function.update k.terminals t (f (k.terminals t)) }

def setPcb (k : Kernel) (p : Int) (f : Pcb → Pcb) : Kernel :=
  { k with pcb := Function.update k.pcb p (f (k.pcb p)) }

def setFd (k : Kernel) (p : Int) (fd : Nat) (f : Fd → Fd) : Kernel :=
  k.setPcb p fun b => { b with
    fileDescriptorTable :=
      Function.update b.fileDescriptorTable fd (f (b.fileDescriptorTable fd)) }

end Kernel

/-- Two states agree on what the process and scheduling code keeps, apart
from the descriptor tables and argument strings in the PCBs. -/
structure SameProcesses (k k' : Kernel) : Prop where
  curPid : k'.curPid = k.curPid
  pidArray : k'.pidArray = k.pidArray
  parentPid : ∀ p, (k'.pcb p).parentPid = (k.pcb p).parentPid
  ebp : ∀ p, (k'.pcb p).ebp = (k.pcb p).ebp
  curEbp : ∀ p, (k'.pcb p).curEbp = (k.pcb p).curEbp
  curEsp : ∀ p, (k'.pcb p).curEsp = (k.pcb p).curEsp
  activePid : ∀ t, (k'.terminals t).activePid = (k.terminals t).activePid
  ta : k'.ta = k.ta
  terminalInit : k'.terminalInit = k.terminalInit
  pd : k'.pd = k.pd
  tssEsp0 : k'.tssEsp0 = k.tssEsp0

/-- Two states differ at most in what the keyboard and the consoles keep. -/
structure TtyOnly (k k' : Kernel) : Prop where
  curPid : k'.curPid = k.curPid
  pidArray : k'.pidArray = k.pidArray
  pcb : k'.pcb = k.pcb
  activePid : ∀ t, (k'.terminals t).activePid = (k.terminals t).activePid
  ta : k'.ta = k.ta
  terminalInit : k'.terminalInit = k.terminalInit
  termInitDone : k'.termInitDone = k.termInitDone
  pd : k'.pd = k.pd
  tssEsp0 : k'.tssEsp0 = k.tssEsp0
  processRtc : k'.processRtc = k.processRtc
  readIndex : k'.readIndex = k.readIndex

/-- Two states agree on the line buffers of all terminals. -/
structure SameLines (k k' : Kernel) : Prop where
  ts : k'.ts = k.ts
  keyboardBuf : k'.keyboardBuf = k.keyboardBuf
  keyIdx : k'.keyIdx = k.keyIdx
  terminalBuf : ∀ t, (k'.terminals t).terminalBuf = (k.terminals t).terminalBuf
  bufIdx : ∀ t, (k'.terminals t).bufIdx = (k.terminals t).bufIdx

/-- Two states agree on the screens, the cursors and the page in use. -/
structure SameVideo (k k' : Kernel) : Prop where
  mem : k'.mem = k.mem
  videoMem : k'.videoMem = k.videoMem
  ptUser : k'.ptUser = k.ptUser
  termInitDone : k'.termInitDone = k.termInitDone
  terminalInit : k'.terminalInit = k.terminalInit
  ts : k'.ts = k.ts
  ta : k'.ta = k.ta
  cursorX : ∀ t, (k'.terminals t).cursorX = (k.terminals t).cursorX
  cursorY : ∀ t, (k'.terminals t).cursorY = (k.terminals t).cursorY

/-- Two states differ at most in descriptor tables and in what the rtc and
directory drivers keep. -/
structure Quiet (k k' : Kernel) : Prop where
  processes : SameProcesses k k'
  lines : SameLines k k'
  video : SameVideo k k'

theorem SameProcesses.refl (k : Kernel) : SameProcesses k k := by constructor <;> intros <;> rfl

theorem SameProcesses.trans {a b c : Kernel} (first : SameProcesses a b)
    (second : SameProcesses b c) : SameProcesses a c where
  curPid := second.curPid.trans first.curPid
  pidArray := second.pidArray.trans first.pidArray
  parentPid p := (second.parentPid p).trans (first.parentPid p)
  ebp p := (second.ebp p).trans (first.ebp p)
  curEbp p := (second.curEbp p).trans (first.curEbp p)
  curEsp p := (second.curEsp p).trans (first.curEsp p)
  activePid t := (second.activePid t).trans (first.activePid t)
  ta := second.ta.trans first.ta
  terminalInit := second.terminalInit.trans first.terminalInit
  pd := second.pd.trans first.pd
  tssEsp0 := second.tssEsp0.trans first.tssEsp0

theorem TtyOnly.refl (k : Kernel) : TtyOnly k k := by constructor <;> intros <;> rfl

theorem TtyOnly.trans {a b c : Kernel} (first : TtyOnly a b) (second : TtyOnly b c) :
    TtyOnly a c where
  curPid := second.curPid.trans first.curPid
  pidArray := second.pidArray.trans first.pidArray
  pcb := second.pcb.trans first.pcb
  activePid t := (second.activePid t).trans (first.activePid t)
  ta := second.ta.trans first.ta
  terminalInit := second.terminalInit.trans first.terminalInit
  termInitDone := second.termInitDone.trans first.termInitDone
  pd := second.pd.trans first.pd
  tssEsp0 := second.tssEsp0.trans first.tssEsp0
  processRtc := second.processRtc.trans first.processRtc
  readIndex := second.readIndex.trans first.readIndex

theorem TtyOnly.processes {k k' : Kernel} (frame : TtyOnly k k') : SameProcesses k k' where
  curPid := frame.curPid
  pidArray := frame.pidArray
  parentPid p := congrArg Pcb.parentPid (congrFun frame.pcb p)
  ebp p := congrArg Pcb.ebp (congrFun frame.pcb p)
  curEbp p := congrArg Pcb.curEbp (congrFun frame.pcb p)
  curEsp p := congrArg Pcb.curEsp (congrFun frame.pcb p)
  activePid := frame.activePid
  ta := frame.ta
  terminalInit := frame.terminalInit
  pd := frame.pd
  tssEsp0 := frame.tssEsp0

theorem SameVideo.refl (k : Kernel) : SameVideo k k := by constructor <;> intros <;> rfl

theorem SameVideo.trans {a b c : Kernel} (first : SameVideo a b) (second : SameVideo b c) :
    SameVideo a c where
  mem := second.mem.trans first.mem
  videoMem := second.videoMem.trans first.videoMem
  ptUser := second.ptUser.trans first.ptUser
  termInitDone := second.termInitDone.trans first.termInitDone
  terminalInit := second.terminalInit.trans first.terminalInit
  ts := second.ts.trans first.ts
  ta := second.ta.trans first.ta
  cursorX t := (second.cursorX t).trans (first.cursorX t)
  cursorY t := (second.cursorY t).trans (first.cursorY t)

theorem SameLines.refl (k : Kernel) : SameLines k k := by constructor <;> intros <;> rfl

theorem SameLines.trans {a b c : Kernel} (first : SameLines a b) (second : SameLines b c) :
    SameLines a c where
  ts := second.ts.trans first.ts
  keyboardBuf := second.keyboardBuf.trans first.keyboardBuf
  keyIdx := second.keyIdx.trans first.keyIdx
  terminalBuf t := (second.terminalBuf t).trans (first.terminalBuf t)
  bufIdx t := (second.bufIdx t).trans (first.bufIdx t)

theorem Quiet.refl (k : Kernel) : Quiet k k := by constructor <;> constructor <;> intros <;> rfl

theorem Quiet.trans {a b c : Kernel} (first : Quiet a b) (second : Quiet b c) : Quiet a c :=
  ⟨first.processes.trans second.processes, first.lines.trans second.lines,
    first.video.trans second.video⟩

end UnixLite
