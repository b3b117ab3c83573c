import UnixLite.Startup
import UnixLite.Library.Masking

namespace UnixLite

open Transition Store Masking

/-- The state that the two handlers share. -/
inductive Shared
  | ta | ts | curPid | prevPid | terminals | keyboardBuf | keyIdx | pd | ptUser | tssEsp0
  deriving DecidableEq

/-- The kernel in one of its handlers. Assignments to one shared variable with
nothing else between them are one instruction. Neither handler gets to `putc`,
which sets the flag as well. -/
abbrev Flow := Cpu Kernel Shared

/-- The key goes to `alt_helper`: Alt is held, and nothing comes before it. -/
def Kernel.AltKey (k : Kernel) (keypress : UInt8) : Prop :=
  (getKey k.flags keypress).1.ctrl = false ∧ (getKey k.flags keypress).2 = 0 ∧
    (getKey k.flags keypress).1.backspace = false ∧ (getKey k.flags keypress).1.tab = false ∧
    (getKey k.flags keypress).1.alt = true

instance Kernel.AltKey.decidable (k : Kernel) (keypress : UInt8) : Decidable (k.AltKey keypress) :=
  inferInstanceAs (Decidable (_ ∧ _))

namespace Flow

/-- `set_vidmem_page` and the user's video page, where a switch sets them. -/
def mapVideo (c : Flow) : Flow :=
  if c.state.ts = c.state.ta then
    (c.run fun k => k.setVidmemPage 0).set .ptUser fun k => { k with
      ptUser := Function.update k.ptUser 0xB8 { k.ptUser 0xB8 with addr := 0xB8 } }
  else
    (c.run fun k => k.setVidmemPage (k.ta.val + 1)).set .ptUser fun k => { k with
      ptUser := Function.update k.ptUser 0xB8
        { k.ptUser 0xB8 with addr := BitVec.ofNat 20 (0xB8 + k.ta.val + 1) } }

/-- `terminal_switch`. It returns with interrupts off where it has nothing to
do, else with interrupts on. -/
def terminalSwitch (c : Flow) (function : Nat) : Flow × Int :=
  let c := c.cli
  let prevTs := c.state.ts
  let shown : Fin 3 := if function = 1 then 0 else if function = 2 then 1
    else if function = 3 then 2 else prevTs
  let c := if 1 ≤ function ∧ function ≤ 3 then c.set .ts fun k => { k with ts := shown } else c
  if prevTs = shown then (c, -1)
  else
    let c := c.set .terminals fun k => k.setTerm prevTs fun u =>
      { u with terminalBuf := copyLoop 128 u.terminalBuf k.keyboardBuf, bufIdx := k.keyIdx }
    let c := c.set .keyboardBuf fun k => { k with
      keyboardBuf := copyLoop 128 k.keyboardBuf (k.terminals shown).terminalBuf }
    let c := c.set .keyIdx fun k => { k with keyIdx := (k.terminals shown).bufIdx }
    let c := c.run fun k => { k with
      mem := blockCopy (blockCopy k.mem (termVid prevTs) video 4096) video (termVid shown) 4096 }
    let c := if c.state.termInitDone then mapVideo c else c
    (c.sti, 0)

/-- `write_char(keyboard_buf, &key_idx, ch)` -/
def writeKey (c : Flow) (ch : UInt8) : Option Flow :=
  (writeChar c.state.keyboardBuf c.state.keyIdx ch).map fun r =>
    (c.set .keyboardBuf fun k => { k with keyboardBuf := r.1 }).set .keyIdx fun k => { k with keyIdx := r.2 }

/-- `delete_char(keyboard_buf, &key_idx)` -/
def deleteKey (c : Flow) : Option Flow :=
  (deleteChar c.state.keyboardBuf c.state.keyIdx).map fun r =>
    (c.set .keyIdx fun k => { k with keyIdx := r.2 }).set .keyboardBuf fun k => { k with keyboardBuf := r.1 }

def clearKeyboardBuf (c : Flow) : Flow :=
  (c.set .keyboardBuf fun k => { k with keyboardBuf := fillLoop 128 0 k.keyboardBuf }).set .keyIdx fun k =>
    { k with keyIdx := 0 }

/-- `put_key`, which moves the cursor in the struct of the shown terminal. -/
def putKey (c : Flow) (ch : UInt8) : Flow := c.set .terminals fun k => k.putKey ch

/-- `check_cursor`, which draws and moves nothing. -/
def checkCursor (c : Flow) : Flow := c.run Kernel.checkCursor

/-- `remc`; in the first cell there is nothing to remove. -/
def remc (c : Flow) : Flow :=
  if (c.state.terminals c.state.ts).cursorY = 0 ∧ (c.state.terminals c.state.ts).cursorX = 0 then c
  else c.set .terminals Kernel.remc

def clearScreen (c : Flow) : Flow := c.set .terminals Kernel.clearScreen

def ctrlHelper (c : Flow) (ch : UInt8) : Flow :=
  if ch = 'l'.toUInt8 ∨ ch = 'L'.toUInt8 then clearKeyboardBuf (clearScreen c)
  else if ch = 0 then c
  else putKey ((writeKey c ch).getD c) ch

def altHelper (c : Flow) : Flow × Int :=
  if c.state.flags.function < 1 ∨ c.state.flags.function > 3 then (c, -1)
  else terminalSwitch c c.state.flags.function

def tabLoop : Nat → Flow → Flow
  | 0, c => c
  | n + 1, c =>
    match writeKey c 32 with
    | none => c
    | some c => tabLoop n (putKey c 32)

/-- `keyboard_handler` between its `cli` and its `sti`. -/
def handleKey (c : Flow) (keypress : UInt8) : Flow :=
  let ascii := (getKey c.state.flags keypress).2
  let c := c.run fun k => { k with flags := (getKey k.flags keypress).1 }
  if c.state.flags.ctrl then ctrlHelper c ascii
  else if ascii ≠ 0 then
    match writeKey c ascii with
    | none => c
    | some c => putKey (if ascii = 10 then checkCursor c else c) ascii
  else if c.state.flags.backspace then
    match deleteKey c with
    | none => c
    | some c => checkCursor (remc c)
  else if c.state.flags.tab then tabLoop 4 c
  else if c.state.flags.alt then (altHelper c).1
  else c

def keyboardHandler (c : Flow) (keypress : UInt8) : Flow := (handleKey c.cli keypress).sti

/-- The choice of a slot in `sys_execute`. -/
def claimPid (c : Flow) : Flow × Option Int :=
  let c := c.set .prevPid fun k => { k with prevPid := k.curPid }
  let slot := freePid c.state.pidArray
  let c :=
    match slot with
    | some i => (c.set .curPid fun k => { k with curPid := i }).run fun k =>
        { k with pidArray := Function.update k.pidArray i 1 }
    | none => c
  (if c.state.curPid ≤ 2 then c.set .prevPid fun k => { k with prevPid := -1 } else c, slot)

/-- `sys_execute`. Only the `iret` into the program sets the flag. -/
def sysExecute (fs : FsImage) (c : Flow) (command : List UInt8) (regs : Regs) : Flow × ExecResult :=
  let c := c.cli
  let activeTerm := c.state.ta
  let parsed := parseCommand (cString command)
  match findProgram fs parsed.1 with
  | none => (c, .returned c.state (-1))
  | some dentry =>
    match claimPid c with
    | (c, none) => (c, .returned c.state 69)
    | (c, some _) =>
      let c := c.set .pd fun k => k.mapProgram k.curPid
      let c := c.set .ptUser fun k =>
        { k with ptUser := Function.update k.ptUser 0xB8 { k.ptUser 0xB8 with p := true } }
      let image := (readData fs dentry.inodeNum 0 (fs.fileLength dentry.inodeNum)).2
      let c := c.run fun k =>
        { k with mem := storeList k.mem (k.programByte 0x48000) (image.take 0x3B8000) }
      if image.length > 0x3B8000 then (c, .faulted c.state)
      else
        let c := c.run fun k => k.setPcb k.curPid fun _ => k.newPcb parsed.2 regs
        let c := c.set .terminals fun k => k.setTerm activeTerm fun t => { t with activePid := k.curPid }
        let c := c.set .tssEsp0 fun k => { k with tssEsp0 := k.curPcb.curEsp }
        let c := c.sti
        (c, .started c.state (FsImage.word ⟨c.state.mem⟩ (c.state.programByte (0x48000 + 24))))

def launchTerminal (c : Flow) (t : Fin 3) : Flow :=
  let c := (terminalSwitch c (t.val + 1)).1
  let c := c.set .ta fun k => { k with ta := t }
  let c := c.set .terminals fun k => k.setTerm t fun u => { u with basePid := t.val, activePid := t.val }
  c.run fun k => { k with terminalInit := k.terminalInit + 1 }

def finishInit (c : Flow) : Flow :=
  if c.state.terminalInit = 3 then
    (terminalSwitch c 1).1.run fun k => { k with termInitDone := true, terminalInit := k.terminalInit + 1 }
  else c

def nextTerminal (c : Flow) : Flow :=
  let c := c.set .ta fun k => { k with ta := k.ta + 1 }
  let activePid := (c.state.terminals c.state.ta).activePid
  let c := c.set .curPid fun k => { k with curPid := activePid }
  let c := c.set .prevPid fun k => { k with prevPid := (k.pcb activePid).parentPid }
  let c := c.set .pd fun k => k.mapProgram activePid
  (mapVideo c).set .tssEsp0 fun k => { k with tssEsp0 := kernelStack activePid }

/-- `pit_handler`. Behind a call of `sys_execute` that returns interrupts go on. -/
def pitHandler (fs : FsImage) (c : Flow) (regs execRegs : Regs) : Flow × TickResult :=
  let c := c.cli.run fun k => k.saveContext regs
  if inSetup : c.state.terminalInit < 3 then
    match sysExecute fs (launchTerminal c ⟨c.state.terminalInit, inSetup⟩) shell execRegs with
    | (c, .returned k v) => (c.sti, .launched (.returned k v))
    | (c, r) => (c, .launched r)
  else
    let c := (nextTerminal (finishInit c)).sti
    (c, .switched c.state (c.state.pcb c.state.curPid).curEbp (c.state.pcb c.state.curPid).curEsp)

variable (c : Flow)

theorem mapVideo_state : (mapVideo c).state = c.state.mapVideo := by
  unfold mapVideo Kernel.mapVideo
  split
  · rfl
  · rfl

/-- The traced routines end in the states of the others. -/
theorem terminalSwitch_state (function : Nat) :
    ((terminalSwitch c function).1.state, (terminalSwitch c function).2) =
      c.state.terminalSwitch function := by
  unfold terminalSwitch Kernel.terminalSwitch
  extract_lets c1 prevTs shown c2 c3 c4 c5 c6 c7 k1 k2
  have prev : prevTs = c.state.ts := rfl
  have written : c2.state = { c.state with ts := shown } := by
    by_cases asked : 1 ≤ function ∧ function ≤ 3
    · rw [show c2 = c1.set .ts _ from if_pos asked]
      rfl
    · rw [show c2 = c1 from if_neg asked]
      have none : shown = c.state.ts := by
        simp only [shown]
        rw [if_neg (by omega), if_neg (by omega), if_neg (by omega)]
        exact prev
      rw [none]
      rfl
  by_cases stays : prevTs = shown
  · rw [if_pos stays, if_pos (prev ▸ stays)]
    simp only [written, ← stays]
    rfl
  · rw [if_neg stays, if_neg (prev ▸ stays)]
    have shownState : c6.state = k2 := by
      simp only [c6, c5, c4, c3, Cpu.set, Cpu.run, written]
      rfl
    simp only [Cpu.sti, c7, shownState]
    by_cases ready : k2.termInitDone = true
    · rw [if_pos ready, if_pos ready, mapVideo_state, shownState]
    · rw [if_neg ready, if_neg ready, shownState]

theorem writeKey_state (ch : UInt8) : (writeKey c ch).map (·.state) = c.state.writeKey ch := by
  rw [writeKey, Kernel.writeKey, Option.map_map]
  rfl

theorem deleteKey_state : (deleteKey c).map (·.state) = c.state.deleteKey := by
  rw [deleteKey, Kernel.deleteKey, Option.map_map]
  rfl

theorem remc_state : (remc c).state = c.state.remc := by
  unfold remc
  split
  · rename_i first
    have still : (c.state.console c.state.ts).remc = c.state.console c.state.ts := if_pos first
    rw [Kernel.remc, still]
    simp [Kernel.setConsole, Kernel.console, Kernel.setTerm]
  · rfl

theorem clearScreen_state : (clearScreen c).state = c.state.clearScreen := by
  simp only [clearScreen, Cpu.set]

theorem clearKeyboardBuf_state : (clearKeyboardBuf c).state = c.state.clearKeyboardBuf := rfl

theorem ctrlHelper_state (ch : UInt8) : (ctrlHelper c ch).state = c.state.ctrlHelper ch := by
  unfold ctrlHelper Kernel.ctrlHelper
  split
  · rw [clearKeyboardBuf_state, clearScreen_state]
  split
  · rfl
  · rw [← writeKey_state]
    cases writeKey c ch with
    | none => rfl
    | some c' => rfl

theorem tabLoop_state (n : Nat) (c : Flow) : (tabLoop n c).state = Kernel.tabLoop n c.state := by
  induction n generalizing c with
  | zero => rfl
  | succ n ih =>
    unfold tabLoop Kernel.tabLoop
    rw [← writeKey_state]
    cases writeKey c 32 with
    | none => rfl
    | some c' => exact ih (putKey c' 32)

theorem altHelper_state : (altHelper c).1.state = c.state.altHelper.1 := by
  unfold altHelper Kernel.altHelper
  split
  · rfl
  · exact congrArg Prod.fst (terminalSwitch_state c c.state.flags.function)

theorem handleKey_state (keypress : UInt8) :
    (handleKey c keypress).state = c.state.keyboardHandler keypress := by
  unfold handleKey Kernel.keyboardHandler
  extract_lets ascii c1 k1
  have entered : k1 = c1.state := rfl
  rw [entered]
  split
  · exact ctrlHelper_state c1 ascii
  split
  · rw [← writeKey_state]
    cases writeKey c1 ascii with
    | none => rfl
    | some c' =>
      simp only [Option.map_some]
      split
      · rfl
      · rfl
  split
  · rw [← deleteKey_state]
    cases deleteKey c1 with
    | none => rfl
    | some c' => exact congrArg Kernel.checkCursor (remc_state c')
  split
  · exact tabLoop_state 4 c1
  split
  · exact altHelper_state c1
  · rfl

theorem claimPid_state : ((claimPid c).1.state, (claimPid c).2) = c.state.claimPid := by
  unfold claimPid Kernel.claimPid
  extract_lets c1 slot c2 k1 slot' k2
  have searched : slot' = slot := rfl
  have chosen : k2 = c2.state := by
    simp only [k2, c2, searched]
    cases slot with
    | none => rfl
    | some i => rfl
  rw [chosen, searched]
  split
  · rfl
  · rfl

theorem sysExecute_state (fs : FsImage) (command : List UInt8) (regs : Regs) :
    (sysExecute fs c command regs).2 = c.state.sysExecute fs command regs := by
  have claimed : c.state.claimPid = ((claimPid c.cli).1.state, (claimPid c.cli).2) :=
    (claimPid_state c.cli).symm
  unfold sysExecute Kernel.sysExecute Kernel.executeParsed
  rw [claimed]
  dsimp only
  cases findProgram fs (parseCommand (cString command)).1 with
  | none => rfl
  | some dentry =>
    generalize claimPid c.cli = r
    obtain ⟨c1, slot⟩ := r
    cases slot with
    | none => rfl
    | some pid =>
      dsimp only
      split
      · rfl
      · rfl

theorem launchTerminal_state (t : Fin 3) : (launchTerminal c t).state = c.state.launchTerminal t := by
  have switched : (terminalSwitch c (t.val + 1)).1.state = (c.state.terminalSwitch (t.val + 1)).1 :=
    congrArg Prod.fst (terminalSwitch_state c (t.val + 1))
  simp only [launchTerminal, Kernel.launchTerminal, Cpu.set, Cpu.run, switched]

theorem finishInit_state : (finishInit c).state = c.state.finishInit := by
  unfold finishInit Kernel.finishInit
  split
  · simp only [Cpu.run, ← congrArg Prod.fst (terminalSwitch_state c 1)]
  · rfl

theorem nextTerminal_state : (nextTerminal c).state = c.state.nextTerminal := by
  simp only [nextTerminal, Kernel.nextTerminal, Cpu.set, mapVideo_state]

theorem pitHandler_state (fs : FsImage) (regs execRegs : Regs) :
    (pitHandler fs c regs execRegs).2 = c.state.pitHandler fs regs execRegs := by
  unfold pitHandler Kernel.pitHandler
  extract_lets c1 c2 k1 k2
  have saved : c1.state = k1 := rfl
  rw [← saved]
  by_cases inSetup : c1.state.terminalInit < 3
  · have launched := sysExecute_state (launchTerminal c1 ⟨c1.state.terminalInit, inSetup⟩) fs shell execRegs
    rw [launchTerminal_state] at launched
    rw [dif_pos inSetup, dif_pos inSetup, ← launched]
    generalize sysExecute fs (launchTerminal c1 ⟨c1.state.terminalInit, inSetup⟩) shell execRegs = r
    obtain ⟨c', result⟩ := r
    cases result with
    | returned k v => rfl
    | started k eip => rfl
    | faulted k => rfl
  · have switched : c2.state = k2 := by
      change (nextTerminal (finishInit c1)).state = _
      rw [nextTerminal_state, finishInit_state]
      rfl
    rw [dif_neg inSetup, dif_neg inSetup, ← switched]

section Guard

variable {c : Flow} {values : List Bool}

theorem mapVideo_masked : (mapVideo c).Masked ↔ c.Masked := by
  unfold mapVideo
  split
  · rw [Cpu.masked_set, Cpu.masked_run]
  · rw [Cpu.masked_set, Cpu.masked_run]

/-- `terminal_switch` leaves the flag clear where it finds its terminal shown,
and sets it behind its last write where it does not. -/
theorem terminalSwitch_ends (masked : c.Masked) (function : Nat) :
    (terminalSwitch c function).1.Guarded ∧
      ((terminalSwitch c function).1.Masked ↔ (terminalSwitch c function).2 = -1) := by
  unfold terminalSwitch
  extract_lets c1 prevTs shown c2 c3 c4 c5 c6 c7
  have second : c2.Masked := by
    have first : c1.Masked := Cpu.masked_cli.mpr masked.2
    simp only [c2]
    split
    · exact Cpu.masked_set.mpr first
    · exact first
  by_cases stays : prevTs = shown
  · rw [if_pos stays]
    exact ⟨second.guarded, iff_of_true second rfl⟩
  · rw [if_neg stays]
    have sixth : c6.Masked := by
      simp only [c6, c5, c4, c3, Cpu.masked_run, Cpu.masked_set]
      exact second
    have seventh : c7.Masked := by
      simp only [c7]
      split
      · exact mapVideo_masked.mpr sixth
      · exact sixth
    exact ⟨Cpu.guarded_sti.mpr seventh.guarded, iff_of_false Cpu.not_masked_sti (by simp)⟩

/-- A switch to terminal `t` by its number. -/
theorem terminalSwitch_result (t : Fin 3) :
    (terminalSwitch c (t.val + 1)).2 = if c.state.ts = t then -1 else 0 := by
  have result : (terminalSwitch c (t.val + 1)).2 = (c.state.terminalSwitch (t.val + 1)).2 :=
    congrArg Prod.snd (terminalSwitch_state c (t.val + 1))
  have asked : (if t.val + 1 = 1 then 0 else if t.val + 1 = 2 then 1 else if t.val + 1 = 3 then 2
      else c.state.ts) = t := by
    obtain ⟨i, small⟩ := t
    obtain rfl | rfl | rfl : i = 0 ∨ i = 1 ∨ i = 2 := by omega
    · rfl
    · rfl
    · rfl
  rw [result, Kernel.terminalSwitch]
  dsimp only
  rw [asked]
  by_cases stays : c.state.ts = t
  · rw [if_pos stays, if_pos stays]
  · rw [if_neg stays, if_neg stays]

theorem terminalSwitch_masked (masked : c.Masked) (t : Fin 3) :
    (terminalSwitch c (t.val + 1)).1.Masked ↔ c.state.ts = t := by
  rw [(terminalSwitch_ends masked _).2, terminalSwitch_result]
  by_cases stays : c.state.ts = t
  · rw [if_pos stays]
    exact iff_of_true rfl stays
  · rw [if_neg stays]
    exact iff_of_false (by decide) stays

theorem mapVideo_traces (traced : c.Traces values) : (mapVideo c).Traces values := by
  unfold mapVideo
  split
  · exact traced.run.set
  · exact traced.run.set

theorem writeKey_traces {c' : Flow} {ch : UInt8} (written : writeKey c ch = some c') (traced : c.Traces values) :
    c'.Traces values := by
  obtain ⟨r, _, rfl⟩ := Option.map_eq_some_iff.mp written
  exact traced.set.set

theorem deleteKey_traces {c' : Flow} (deleted : deleteKey c = some c') (traced : c.Traces values) :
    c'.Traces values := by
  obtain ⟨r, _, rfl⟩ := Option.map_eq_some_iff.mp deleted
  exact traced.set.set

theorem remc_traces (traced : c.Traces values) : (remc c).Traces values := by
  unfold remc
  split
  · exact traced
  · exact traced.set

theorem ctrlHelper_traces (traced : c.Traces values) (ch : UInt8) : (ctrlHelper c ch).Traces values := by
  unfold ctrlHelper
  split
  · exact traced.set.set.set
  split
  · exact traced
  · cases written : writeKey c ch with
    | none => exact traced.set
    | some c' => exact (writeKey_traces written traced).set

theorem tabLoop_traces (n : Nat) {c : Flow} (traced : c.Traces values) : (tabLoop n c).Traces values := by
  induction n generalizing c with
  | zero => exact traced
  | succ n ih =>
    unfold tabLoop
    cases written : writeKey c 32 with
    | none => exact traced
    | some c' => exact ih (writeKey_traces written traced).set

/-- Without `alt_helper` the handler leaves the flag as its `cli` set it. -/
theorem handleKey_traces (traced : c.Traces values) {keypress : UInt8} (plain : ¬ c.state.AltKey keypress) :
    (handleKey c keypress).Traces values := by
  unfold handleKey
  extract_lets ascii c1
  have entered : c1.Traces values := traced.run
  split
  · exact ctrlHelper_traces entered ascii
  rename_i notCtrl
  split
  · cases written : writeKey c1 ascii with
    | none => exact entered
    | some c' =>
      have stored := writeKey_traces written entered
      dsimp only
      split
      · exact stored.run.set
      · exact stored.set
  rename_i notAscii
  split
  · cases deleted : deleteKey c1 with
    | none => exact entered
    | some c' => exact (remc_traces (deleteKey_traces deleted entered)).run
  rename_i notBackspace
  split
  · exact tabLoop_traces 4 entered
  rename_i notTab
  split
  · rename_i alt
    exact absurd ⟨Bool.not_eq_true _ ▸ notCtrl, not_not.mp notAscii, Bool.not_eq_true _ ▸ notBackspace,
      Bool.not_eq_true _ ▸ notTab, alt⟩ plain
  · exact entered

/-- A key that goes to `alt_helper` does nothing else. -/
theorem handleKey_alt {keypress : UInt8} (alt : c.state.AltKey keypress) :
    handleKey c keypress =
      (altHelper (c.run fun k => { k with flags := (getKey k.flags keypress).1 })).1 := by
  obtain ⟨notCtrl, noAscii, notBackspace, notTab, held⟩ := alt
  simp [handleKey, Cpu.run, notCtrl, noAscii, notBackspace, notTab, held]

theorem altHelper_guarded (masked : c.Masked) : (altHelper c).1.Guarded := by
  unfold altHelper
  split
  · exact masked.guarded
  · exact (terminalSwitch_ends masked c.state.flags.function).1

/-- On every path of the keyboard handler the last write is behind no `sti`. -/
theorem keyboardHandler_guarded (quiet : c.Quiet) (keypress : UInt8) : (keyboardHandler c keypress).Guarded := by
  refine Cpu.guarded_sti.mpr ?_
  by_cases alt : c.cli.state.AltKey keypress
  · rw [handleKey_alt alt]
    exact altHelper_guarded (Cpu.masked_run.mpr (Cpu.masked_cli.mpr quiet))
  · exact (handleKey_traces quiet.traces_cli alt).masked.guarded

theorem claimPid_masked : ((claimPid c).1.Masked ↔ c.Masked) ∧ ((claimPid c).1.Guarded ↔ c.Masked) := by
  unfold claimPid
  extract_lets c1 slot c2
  have chosen : (c2.Masked ↔ c.Masked) ∧ (c2.Guarded ↔ c.Masked) := by
    simp only [c2, c1]
    cases slot with
    | none => exact ⟨Cpu.masked_set, Cpu.guarded_set⟩
    | some i =>
      refine ⟨?_, ?_⟩
      · rw [Cpu.masked_run, Cpu.masked_set, Cpu.masked_set]
      · rw [Cpu.guarded_run, Cpu.guarded_set, Cpu.masked_set]
  split
  · exact ⟨Cpu.masked_set.trans chosen.1, Cpu.guarded_set.trans chosen.1⟩
  · exact chosen

/-- `sys_execute` starts with a `cli`, which does not make up for a `sti` before it. -/
theorem sysExecute_guarded (fs : FsImage) (command : List UInt8) (regs : Regs) :
    (c.Quiet → (sysExecute fs c command regs).1.Guarded) ∧
      ((sysExecute fs c command regs).1.Guarded → c.Guarded) := by
  unfold sysExecute
  dsimp only
  cases findProgram fs (parseCommand (cString command)).1 with
  | none => exact ⟨fun quiet => Cpu.guarded_cli.mpr quiet.guarded, Cpu.guarded_cli.mp⟩
  | some dentry =>
    obtain ⟨masked, guarded⟩ := claimPid_masked (c := c.cli)
    rw [Cpu.masked_cli] at masked guarded
    have exact_ {c' : Flow} (same : c'.Guarded ↔ c.Quiet) : (c.Quiet → c'.Guarded) ∧ (c'.Guarded → c.Guarded) :=
      ⟨same.mpr, fun written => (same.mp written).guarded⟩
    generalize claimPid c.cli = r at masked guarded ⊢
    obtain ⟨c1, slot⟩ := r
    cases slot with
    | none => exact exact_ guarded
    | some pid =>
      dsimp only
      split
      · refine exact_ ?_
        rw [Cpu.guarded_run, Cpu.guarded_set, Cpu.masked_set]
        exact masked
      · refine exact_ ?_
        rw [Cpu.guarded_sti, Cpu.guarded_set, Cpu.masked_set, Cpu.masked_run, Cpu.masked_run,
          Cpu.masked_set, Cpu.masked_set]
        exact masked

theorem nextTerminal_guarded : (nextTerminal c).Guarded ↔ c.Masked := by
  unfold nextTerminal
  rw [Cpu.guarded_set, mapVideo_masked, Cpu.masked_set, Cpu.masked_set, Cpu.masked_set, Cpu.masked_set]

theorem launchTerminal_quiet (masked : c.Masked) (t : Fin 3) :
    ((launchTerminal c t).Quiet ↔ c.state.ts = t) ∧ ((launchTerminal c t).Guarded ↔ c.state.ts = t) := by
  unfold launchTerminal
  rw [Cpu.quiet_run, Cpu.masked_set, Cpu.masked_set, Cpu.guarded_run, Cpu.guarded_set, Cpu.masked_set,
    terminalSwitch_masked masked]
  exact ⟨Iff.rfl, Iff.rfl⟩

theorem finishInit_masked (masked : c.Masked) :
    (finishInit c).Masked ↔ (c.state.terminalInit = 3 → c.state.ts = 0) := by
  unfold finishInit
  split
  · rename_i last
    have first := terminalSwitch_masked masked 0
    rw [Cpu.masked_run]
    exact first.trans ⟨fun shown _ => shown, fun shown => shown last⟩
  · rename_i done
    exact iff_of_true masked fun last => absurd last done

/-- The handler of the timer is guarded exactly where it finds the terminal
shown that it is going to show, or none is to be shown. -/
theorem pitHandler_guarded (quiet : c.Quiet) (fs : FsImage) (regs execRegs : Regs) :
    (pitHandler fs c regs execRegs).1.Guarded ↔
      (c.state.terminalInit ≤ 3 → c.state.ts.val = c.state.terminalInit % 3) := by
  unfold pitHandler
  extract_lets c1 c2
  have masked : c1.Masked := Cpu.masked_run.mpr (Cpu.masked_cli.mpr quiet)
  have ready : c1.state.terminalInit = c.state.terminalInit := rfl
  have shown : c1.state.ts = c.state.ts := rfl
  by_cases inSetup : c1.state.terminalInit < 3
  · rw [dif_pos inSetup]
    obtain ⟨launched, opened⟩ := launchTerminal_quiet masked ⟨c1.state.terminalInit, inSetup⟩
    obtain ⟨executes, before⟩ := sysExecute_guarded
      (c := launchTerminal c1 ⟨c1.state.terminalInit, inSetup⟩) fs shell execRegs
    have due : c1.state.ts = ⟨c1.state.terminalInit, inSetup⟩ ↔
        (c.state.terminalInit ≤ 3 → c.state.ts.val = c.state.terminalInit % 3) := by
      rw [Fin.ext_iff, shown]
      simp only
      omega
    rw [← due]
    generalize sysExecute fs (launchTerminal c1 ⟨c1.state.terminalInit, inSetup⟩) shell execRegs = r
      at executes before ⊢
    have whole : r.1.Guarded ↔ c1.state.ts = ⟨c1.state.terminalInit, inSetup⟩ :=
      ⟨fun guarded => opened.mp (before guarded), fun early => executes (launched.mpr early)⟩
    obtain ⟨c', result⟩ := r
    cases result with
    | returned k v => exact Cpu.guarded_sti.trans whole
    | started k eip => exact whole
    | faulted k => exact whole
  · rw [dif_neg inSetup]
    refine Cpu.guarded_sti.trans (nextTerminal_guarded.trans ((finishInit_masked masked).trans ?_))
    rw [ready, shown, Fin.ext_iff]
    simp only [Fin.val_zero]
    omega

end Guard

theorem sysExecute_end {fs : FsImage} {command : List UInt8} {regs : Regs} {k : Kernel} {r : Reply}
    (run : (sysExecute fs c command regs).2.outcome = some (k, r)) :
    (sysExecute fs c command regs).1.state = k := by
  unfold sysExecute at run ⊢
  dsimp only at run ⊢
  cases found : findProgram fs (parseCommand (cString command)).1 with
  | none =>
    rw [found] at run
    cases run
    rfl
  | some dentry =>
    rw [found] at run
    dsimp only at run ⊢
    generalize claimPid c.cli = claimed at run ⊢
    obtain ⟨c1, slot⟩ := claimed
    cases slot with
    | none =>
      cases run
      rfl
    | some pid =>
      dsimp only at run ⊢
      split at run
      · cases run
      · rename_i fits
        rw [if_neg fits]
        cases run
        rfl

theorem pitHandler_end {fs : FsImage} {regs execRegs : Regs} {k : Kernel} {r : Reply}
    (run : (pitHandler fs c regs execRegs).2.outcome = some (k, r)) :
    (pitHandler fs c regs execRegs).1.state = k := by
  revert run
  unfold pitHandler
  extract_lets c1 c2
  by_cases inSetup : c1.state.terminalInit < 3
  · rw [dif_pos inSetup]
    have ended :=
      @sysExecute_end (launchTerminal c1 ⟨c1.state.terminalInit, inSetup⟩) fs shell execRegs k r
    generalize sysExecute fs (launchTerminal c1 ⟨c1.state.terminalInit, inSetup⟩) shell execRegs = result
      at ended ⊢
    obtain ⟨c', result⟩ := result
    cases result with
    | returned k' v => exact ended
    | started k' eip => exact ended
    | faulted k' =>
      intro run
      cases run
  · rw [dif_neg inSetup]
    intro run
    cases run
    rfl

end Flow

/-- The terminal that a tick is going to show is shown already; once all are
set up a tick shows none. -/
def Kernel.ShowsNext (k : Kernel) : Prop := k.terminalInit ≤ 3 → k.ts.val = k.terminalInit % 3

instance Kernel.ShowsNext.decidable (k : Kernel) : Decidable k.ShowsNext :=
  inferInstanceAs (Decidable (k.terminalInit ≤ 3 → k.ts.val = k.terminalInit % 3))

/-- The handler that an event runs, entered with the flag at `flag`. -/
def handlerFlow (fs : FsImage) (flag : Bool) (e : Happening) : Option Flow :=
  match e.act.1 with
  | .key keypress => some (Flow.keyboardHandler (Cpu.enter e.pre flag) keypress)
  | .tick regs execRegs => some (Flow.pitHandler fs (Cpu.enter e.pre flag) regs execRegs).1
  | _ => none

theorem handlerFlow_state {fs : FsImage} {flag : Bool} {k k' : Kernel} {l : Act × Reply}
    (move : Step fs k l k') {c : Flow} (flow : handlerFlow fs flag ⟨k, l, k'⟩ = some c) : c.state = k' := by
  obtain ⟨act, r⟩ := l
  cases act with
  | key keypress =>
    cases move
    cases flow
    exact Flow.handleKey_state (Cpu.enter k flag).cli keypress
  | tick regs execRegs =>
    cases flow
    refine Flow.pitHandler_end _ (r := r) ?_
    rw [Flow.pitHandler_state]
    exact move
  | execute | halt | switchTo | read | write | openFile | close | putc | vidStore => cases flow

/-- The keyboard handler is guarded wherever it runs, the timer's where the
terminal to be shown is shown. -/
theorem handlerFlow_guarded {fs : FsImage} {flag : Bool} {e : Happening} {c : Flow}
    (flow : handlerFlow fs flag e = some c) : c.Guarded ↔ (e.act.1.isTick = true → e.pre.ShowsNext) := by
  unfold handlerFlow at flow
  split at flow
  · rename_i keypress act
    cases flow
    refine iff_of_true (Flow.keyboardHandler_guarded (Cpu.enter_quiet _ _) keypress) fun tick => ?_
    rw [act] at tick
    cases tick
  · rename_i regs execRegs act
    cases flow
    rw [Flow.pitHandler_guarded (Cpu.enter_quiet _ _), act]
    exact ⟨fun due _ => due, fun due => due rfl⟩
  · cases flow

theorem handlerFlow_tick (fs : FsImage) (flag : Bool) {e : Happening} (tick : e.act.1.isTick = true) :
    ∃ c, handlerFlow fs flag e = some c := by
  obtain ⟨regs, execRegs, act⟩ := isTick_iff.mp tick
  unfold handlerFlow
  rw [act]
  exact ⟨_, rfl⟩

/-- In a run of the system the handlers take its steps with the flag clear up
to their last write exactly when every tick finds the terminal shown that it
would show. In the state reached the handler of the keyboard does so on every
path, that of the timer on the same condition. -/
theorem handlers_guarded {fs : FsImage} {first k : Kernel} {history : List Happening}
    (run : Runs fs first history k) :
    ((∀ e ∈ history, ∀ flag, ∀ c ∈ handlerFlow fs flag e, c.state = e.post ∧ c.Guarded) ↔
        ∀ e ∈ history, e.act.1.isTick = true → e.pre.ShowsNext) ∧
      ∀ flag, (∀ keypress, (Flow.keyboardHandler (Cpu.enter k flag) keypress).Guarded) ∧
        ∀ regs execRegs, (Flow.pitHandler fs (Cpu.enter k flag) regs execRegs).1.Guarded ↔ k.ShowsNext := by
  refine ⟨⟨fun guarded e member tick => ?_, fun due e member flag c flow => ?_⟩, fun flag => ⟨?_, ?_⟩⟩
  · obtain ⟨c, flow⟩ := handlerFlow_tick fs true tick
    exact (handlerFlow_guarded flow).mp (guarded e member true c flow).2 tick
  · obtain ⟨_, _, move, _⟩ := run.event_reached member
    exact ⟨handlerFlow_state move flow, (handlerFlow_guarded flow).mpr (due e member)⟩
  · exact Flow.keyboardHandler_guarded (Cpu.enter_quiet k flag)
  · exact Flow.pitHandler_guarded (Cpu.enter_quiet k flag) fs

/-- Alt and F2 show the second terminal before the tick that sets it up. -/
theorem handlers_guarded_sample : ∃ history k, Runs sampleImage sampleEntry history k ∧
    history.length = 4 ∧ ∀ e ∈ history, ∀ flag, ∀ c ∈ handlerFlow sampleImage flag e,
      c.state = e.post ∧ c.Guarded := by
  have computed : (performAll sampleImage [.execute shell ⟨0, 0⟩, .key 0x38, .key 0x3C,
      .tick ⟨0, 0⟩ ⟨0, 0⟩] ([], sampleEntry)).map (fun r => (r.1.length,
        decide (∀ e ∈ r.1, e.act.1.isTick = true → e.pre.ShowsNext))) = some (4, true) := by
    decide +kernel
  obtain ⟨r, done, values⟩ := Option.map_eq_some_iff.mp computed
  simp only [Prod.mk.injEq, decide_eq_true_eq] at values
  have run := performAll_run .start done
  exact ⟨r.1, r.2, run, values.1, (handlers_guarded run).1.mpr values.2⟩

/-- The first tick after the first shell was started finds terminal 0 shown. -/
theorem handlers_guarded_boot : ¬ ∀ (fs : FsImage) (first k : Kernel) (history : List Happening),
    Runs fs first history k → ∀ e ∈ history, ∀ flag, ∀ c ∈ handlerFlow fs flag e,
      c.state = e.post ∧ c.Guarded := by
  intro guarded
  have computed : (performAll sampleImage [.execute shell ⟨0, 0⟩, .tick ⟨0, 0⟩ ⟨0, 0⟩]
      ([], sampleEntry)).map (fun r => decide (∃ e ∈ r.1, e.act.1.isTick = true ∧ ¬ e.pre.ShowsNext)) =
      some true := by
    decide +kernel
  obtain ⟨r, done, values⟩ := Option.map_eq_some_iff.mp computed
  obtain ⟨e, member, tick, early⟩ := of_decide_eq_true values
  obtain ⟨c, flow⟩ := handlerFlow_tick sampleImage true tick
  have law := guarded _ _ _ _ (performAll_run .start done) e member true c flow
  exact early ((handlerFlow_guarded flow).mp law.2 tick)

end UnixLite
