import UnixLite.Keyboard

namespace UnixLite

open Store

/-- How a call that the model follows ends: it returns, it waits for an
interrupt that the state does not hold, or it jumps through a pointer that
points to no operations table. -/
inductive Outcome (α : Type)
  | done (a : α)
  | blocks
  | wild

/-- A driver's read: the new state, the result, the bytes stored from `buf` on. -/
abbrev ReadReply := Kernel × Int × List UInt8

/-- The newline scan of `terminal_read`, with `n` of the 128 bytes left. -/
def scanLine (temp : Nat → UInt8) : Nat → Nat → Bool
  | 0, _ => false
  | n + 1, i =>
    if temp i = 0 then false
    else if temp i = 10 then true
    else scanLine temp n (i + 1)

/-- The copy of `terminal_read` from index `idx` on, with `n` bytes of `nbytes`
left, and the byte stored after its loop. The bytes read are those stored. -/
def copyLine (temp : Nat → UInt8) : Nat → Nat → List UInt8
  | 0, idx => [temp idx]
  | n + 1, idx => if temp idx ≠ 10 then temp idx :: copyLine temp n (idx + 1) else [temp idx]

namespace Kernel

/-- `done_typing` at the end of the first critical section of `terminal_read`. -/
def doneTyping (k : Kernel) : Bool := scanLine k.keyboardBuf 128 0 && k.ts == k.ta

/-- The second critical section of `terminal_read`. -/
def copyAndClear (k : Kernel) (nbytes : Nat) : ReadReply :=
  let out := copyLine k.keyboardBuf nbytes 0
  (k.clearKeyboardBuf, out.length, out)

def terminalRead (k : Kernel) (buf : Nat) (nbytes : Word) : Outcome ReadReply :=
  if buf = 0 ∨ nbytes.toInt < 0 then .done (k, -1, [])
  else if k.doneTyping then .done (k.copyAndClear nbytes.toInt.toNat)
  else .blocks

/-- `terminal_write`; `src` is the memory at `buf`. -/
def terminalWrite (k : Kernel) (buf : Nat) (src : Nat → UInt8) (nbytes : Word) : Kernel × Int :=
  if buf = 0 ∨ nbytes.toInt < 0 then (k, -1)
  else ((List.range nbytes.toInt.toNat).foldl (fun k idx => k.putc (src idx)) k, nbytes.toInt)

/-- `dir_read`. It ignores its descriptor: `read_index` is a global. -/
def dirRead (fs : FsImage) (k : Kernel) : ReadReply :=
  match readDentryByIndex fs k.readIndex with
  | none => (k, 0, [])
  | some dentry =>
    let out := dentry.fileName.toList ++ [0]
    ({ k with readIndex := k.readIndex + 1 }, strlen (cString out), out)

/-- `rtc_read` once the handler has cleared the flag it waits on. -/
def rtcRead (k : Kernel) : ReadReply :=
  ({ k with terminalRtcWait := Function.update k.terminalRtcWait k.ta 0 }, 0, [])

def rtcOpen (k : Kernel) : Kernel :=
  { k with processRtc := Function.update k.processRtc k.curPid 2 }

def rtcClose (k : Kernel) : Kernel :=
  { k with processRtc := Function.update k.processRtc k.curPid 1024 }

/-- `rtc_write`; the rate is the word at `buf`, whatever `nbytes` says. -/
def rtcWrite (k : Kernel) (src : Nat → UInt8) : Kernel × Int :=
  let freq := (FsImage.word ⟨src⟩ 0).toInt
  if freq < 2 ∨ freq > 1024 then (k, -1)
  else ({ k with processRtc := Function.update k.processRtc k.curPid freq }, 0)

end Kernel

def fileRead (fs : FsImage) (fd : Fd) (count : Word) : Int × List UInt8 :=
  if count.toInt < 0 then (-1, []) else readData fs fd.inodeNum fd.filePos count

namespace OpTable

/-- `file_op_table_ptr->read(cur_fd, buf, nbytes)` -/
def read (op : OpTable) (fs : FsImage) (k : Kernel) (fd : Fd) (buf : Nat) (nbytes : Word) :
    Outcome ReadReply :=
  match op with
  | stdinOpt => k.terminalRead buf nbytes
  | fileOpt => .done (k, fileRead fs fd nbytes)
  | dirOpt => .done (k.dirRead fs)
  | rtcOpt => .done k.rtcRead
  | stdoutOpt | nullOpt => .done (k, -1, [])
  | nullPtr => .wild

/-- `file_op_table_ptr->write(fd, buf, nbytes)` -/
def write (op : OpTable) (k : Kernel) (buf : Nat) (src : Nat → UInt8) (nbytes : Word) :
    Outcome (Kernel × Int) :=
  match op with
  | stdoutOpt => .done (k.terminalWrite buf src nbytes)
  | rtcOpt => .done (k.rtcWrite src)
  | stdinOpt | fileOpt | dirOpt | nullOpt => .done (k, -1)
  | nullPtr => .wild

/-- `file_op_table_ptr->close(NULL)`. A NULL table comes with flags 0 and is
never closed; the state is left as it is there. -/
def close (op : OpTable) (k : Kernel) : Kernel :=
  match op with
  | dirOpt => { k with readIndex := 0 }
  | rtcOpt => k.rtcClose
  | stdinOpt | stdoutOpt | fileOpt | nullOpt | nullPtr => k

end OpTable

theorem setFd_quiet (k : Kernel) (p : Int) (fd : Nat) (f : Fd → Fd) : Quiet k (k.setFd p fd f) := by
  constructor <;> constructor <;> intros <;> try rfl
  all_goals
    rename_i q
    by_cases same : q = p <;> simp [Kernel.setFd, Kernel.setPcb, same]

end UnixLite
