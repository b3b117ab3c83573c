import UnixLite.FileSystem
import UnixLite.Library.Links
import UnixLite.Library.Run
import Mathlib.Data.Fin.Tuple.Basic

namespace UnixLite

open LinkedLists Loops Transition

/-- `struct mp1_blink_struct`. The pointer is to an entry of `blink_array`. -/
structure BlinkStruct where
  location : BitVec 16
  onChar : UInt8
  offChar : UInt8
  onLength : BitVec 16
  offLength : BitVec 16
  countdown : BitVec 16
  status : BitVec 16
  next : Option (Fin (80 * 25))
  deriving DecidableEq

namespace BlinkStruct

def zero : BlinkStruct := ⟨0, 0, 0, 0, 0, 0, 0, none⟩

/-- Bit 0 of the status, as `testw $0x1,STATUS` reads it. -/
def isOn (b : BlinkStruct) : Bool := b.status &&& 1#16 != 0

/-- What the node's place on the screen should show. -/
def shown (b : BlinkStruct) : UInt8 := if b.isOn then b.onChar else b.offChar

/-- The countdown is over: `jg` after `decw` does not branch. -/
def due (b : BlinkStruct) : Bool := !BitVec.slt 0#16 (b.countdown - 1#16)

def flip (b : BlinkStruct) : BlinkStruct :=
  { b with countdown := if b.isOn then b.offLength else b.onLength, status := b.status ^^^ 1#16 }

def tick (b : BlinkStruct) : BlinkStruct :=
  if b.due then b.flip else { b with countdown := b.countdown - 1#16 }

/-- The timing of another node is taken over. -/
def follow (b src : BlinkStruct) : BlinkStruct :=
  { b with onLength := src.onLength, offLength := src.offLength, countdown := src.countdown,
           status := src.status }

/-- The structure that goes on the list for the one a caller hands in. -/
def started (b : BlinkStruct) : BlinkStruct := { b with status := 1, countdown := b.onLength }

def detach (b : BlinkStruct) : BlinkStruct := { b with next := none }

theorem isOn_iff (b : BlinkStruct) : b.isOn = b.status.getLsbD 0 := by
  have low : b.status &&& 1#16 = (BitVec.ofBool (b.status.getLsbD 0)).setWidth 16 :=
    BitVec.and_one_eq_setWidth_ofBool_getLsbD
  rw [isOn, low]
  cases b.status.getLsbD 0 <;> rfl

theorem isOn_flip (b : BlinkStruct) : b.flip.isOn = !b.isOn := by
  simp [isOn_iff, flip]

theorem tick_location (b : BlinkStruct) : b.tick.location = b.location := by
  unfold tick
  split <;> rfl

theorem tick_next (b : BlinkStruct) : b.tick.next = b.next := by
  unfold tick
  split <;> rfl

theorem isOn_started (b : BlinkStruct) : b.started.isOn = true := by
  simp [isOn, started]

end BlinkStruct

/-- The data of the program: `blink_array`, `mp1_list_head` and the bytes from
`vmem_base_addr` on. -/
structure Fish where
  blinkArray : Fin (80 * 25) → BlinkStruct
  mp1ListHead : Option (Fin (80 * 25))
  vmem : Nat → UInt8

namespace Fish

def links (s : Fish) : Links (Fin (80 * 25)) := ⟨s.mp1ListHead, fun i => (s.blinkArray i).next⟩

def setNode (s : Fish) (i : Fin (80 * 25)) (b : BlinkStruct) : Fish :=
  { s with blinkArray := Function.update s.blinkArray i b }

/-- A store through a pointer to the head or to a `next` field. -/
def setLink (s : Fish) (p : Option (Fin (80 * 25))) : Place (Fin (80 * 25)) → Fish
  | .head => { s with mp1ListHead := p }
  | .after i => s.setNode i { s.blinkArray i with next := p }

def mp1Poke (s : Fish) (eax : Nat) (cl : UInt8) : Fish :=
  { s with vmem := Function.update s.vmem eax cl }

def mp1Malloc (s : Fish) : Option (Fin (80 * 25)) := Fin.find? fun i => (s.blinkArray i).location == 0

def mp1Free (s : Fish) (i : Fin (80 * 25)) : Fish := s.setNode i .zero

/-- One round of `tasklet_loop`, for the node in `%ebx`. -/
def tickNode (s : Fish) (ebx : Fin (80 * 25)) : Fish :=
  let b := s.blinkArray ebx
  if BitVec.slt 0#16 (b.countdown - 1#16) then s.setNode ebx { b with countdown := b.countdown - 1#16 }
  else if b.status &&& 1#16 = 0 then
    (s.mp1Poke (2 * b.location.toNat) b.onChar).setNode ebx
      { b with countdown := b.onLength, status := b.status ^^^ 1#16 }
  else
    (s.mp1Poke (2 * b.location.toNat) b.offChar).setNode ebx
      { b with countdown := b.offLength, status := b.status ^^^ 1#16 }

/-- A node that is due is turned over and what it then shows is drawn. -/
theorem tickNode_eq (s : Fish) (i : Fin (80 * 25)) :
    s.tickNode i =
      if (s.blinkArray i).due then
        (s.mp1Poke (2 * (s.blinkArray i).location.toNat) (s.blinkArray i).flip.shown).setNode i
          (s.blinkArray i).tick
      else s.setNode i (s.blinkArray i).tick := by
  unfold tickNode BlinkStruct.tick
  extract_lets b
  change _ = if b.due then (s.mp1Poke (2 * b.location.toNat) b.flip.shown).setNode i (if b.due then b.flip else _)
    else s.setNode i (if b.due then b.flip else { b with countdown := b.countdown - 1#16 })
  by_cases waits : BitVec.slt 0#16 (b.countdown - 1#16) = true
  · have early : ¬ b.due = true := by simp [BlinkStruct.due, waits]
    rw [if_pos waits, if_neg early, if_neg early]
  · have late : b.due = true := by simp [BlinkStruct.due, waits]
    rw [if_neg waits, if_pos late, if_pos late, BlinkStruct.shown, BlinkStruct.isOn_flip]
    by_cases off : b.status &&& 1#16 = 0
    · have dark : b.isOn = false := by simp [BlinkStruct.isOn, off]
      rw [if_pos off, BlinkStruct.flip, dark]
      rfl
    · have lit : b.isOn = true := by simpa [BlinkStruct.isOn] using off
      rw [if_neg off, BlinkStruct.flip, lit]
      rfl

theorem tickNode_mp1ListHead (s : Fish) (i : Fin (80 * 25)) : (s.tickNode i).mp1ListHead = s.mp1ListHead := by
  rw [tickNode_eq]
  split <;> rfl

theorem tickNode_blinkArray (s : Fish) (i : Fin (80 * 25)) :
    (s.tickNode i).blinkArray = Function.update s.blinkArray i (s.blinkArray i).tick := by
  rw [tickNode_eq]
  split <;> rfl

theorem tickNode_next (s : Fish) (i : Fin (80 * 25)) :
    (fun j => ((s.tickNode i).blinkArray j).next) = fun j => (s.blinkArray j).next := by
  funext j
  rw [tickNode_blinkArray]
  by_cases here : j = i
  · rw [here, Function.update_self, BlinkStruct.tick_next]
  · rw [Function.update_of_ne here]

def mp1RtcTasklet (fuel : Nat) (s : Fish) : Option Fish :=
  loop (visitBody (fun s i => (s.blinkArray i).next) tickNode) fuel (s, s.mp1ListHead)

def mp1FindHelper (fuel : Nat) (s : Fish) (location : BitVec 16) : Option (Option (Fin (80 * 25))) :=
  loop (s.links.searchBody fun i => (s.blinkArray i).location == location) fuel s.mp1ListHead

def mp1IoctlAdd (s : Fish) (user : BlinkStruct) : Fish × Int :=
  if 80 * 25 ≤ user.location.toNat then (s, -1)
  else
    let temp := { user with status := 1, countdown := user.onLength }
    match s.mp1Malloc with
    | none => (s, -1)
    | some edx =>
      let s := s.setNode edx { temp with next := s.mp1ListHead }
      (({ s with mp1ListHead := some edx } : Fish).mp1Poke (2 * temp.location.toNat) temp.onChar, 0)

/-- `none` when a loop does not end or a NULL pointer is followed. -/
def mp1IoctlRemove (fuel : Nat) (s : Fish) (arg : Word) : Option (Fish × Int) :=
  match s.mp1FindHelper fuel (arg.setWidth 16) with
  | none => none
  | some none => some (s, -1)
  | some (some eax) =>
    match loop (s.links.seekBody (some eax)) fuel .head with
    | some (some edx) => some ((s.setLink (s.blinkArray eax).next edx).mp1Free eax, 0)
    | _ => none

/-- The sign and overflow flags after `testb`. -/
def testb (x y : BitVec 8) : Bool × Bool := ((x &&& y).msb, false)

/-- The condition of `cmovl`. -/
def lessFlags (flags : Bool × Bool) : Bool := flags.1 != flags.2

/-- The four copies of `mp1_ioctl_sync` and the drawing after them. -/
def syncNodes (s : Fish) (esi edi : Fin (80 * 25)) : Fish :=
  let b := (s.blinkArray edi).follow (s.blinkArray esi)
  let ecx := if lessFlags (testb 1 (b.status.setWidth 8)) then b.onChar else b.offChar
  (s.setNode edi b).mp1Poke (2 * b.location.toNat) ecx

/-- The locations in the argument of SYNC, the source's first. -/
def syncFirst (arg : Word) : BitVec 16 := (arg >>> 16).setWidth 16

def syncSecond (arg : Word) : BitVec 16 := (arg &&& 0xFFFF).setWidth 16

def mp1IoctlSync (fuel : Nat) (s : Fish) (arg : Word) : Option (Fish × Int) :=
  match s.mp1FindHelper fuel (syncFirst arg) with
  | none => none
  | some none => some (s, -1)
  | some (some esi) =>
    match s.mp1FindHelper fuel (syncSecond arg) with
    | none => none
    | some none => some (s, -1)
    | some (some edi) => some (s.syncNodes esi edi, 0)

/-- The answer comes with the structure stored through the caller's pointer. -/
def mp1IoctlFind (fuel : Nat) (s : Fish) (user : BlinkStruct) : Option (Int × Option BlinkStruct) :=
  match s.mp1FindHelper fuel user.location with
  | none => none
  | some none => some (-1, none)
  | some (some eax) => some (0, some (s.blinkArray eax))

/-- The calls of the program: `mp1_ioctl` with its four commands, where a
pointer argument stands for the structure it leads to, and the tasklet. -/
inductive Call
  | add (user : BlinkStruct)
  | remove (arg : Word)
  | find (user : BlinkStruct)
  | sync (arg : Word)
  | tasklet

/-- What a call returns, and the structure it stores for its caller. -/
abbrev Answer := Int × Option BlinkStruct

def perform (fuel : Nat) (s : Fish) : Call → Option (Fish × Answer)
  | .add user => some ((s.mp1IoctlAdd user).1, (s.mp1IoctlAdd user).2, none)
  | .remove arg => (s.mp1IoctlRemove fuel arg).map fun r => (r.1, r.2, none)
  | .find user => (s.mp1IoctlFind fuel user).map fun r => (s, r)
  | .sync arg => (s.mp1IoctlSync fuel arg).map fun r => (r.1, r.2, none)
  | .tasklet => (s.mp1RtcTasklet fuel).map fun r => (r, 0, none)

/-- A call that returns. -/
def Step (s : Fish) (l : Call × Answer) (s' : Fish) : Prop :=
  ∃ fuel, s.perform fuel l.1 = some (s', l.2)

/-- The program before its first call: `blink_array` zeroed, no list. -/
def boot (vmem : Nat → UInt8) : Fish := ⟨fun _ => .zero, none, vmem⟩

end Fish

end UnixLite
