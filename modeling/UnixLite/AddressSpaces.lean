import UnixLite.Scheduling
import UnixLite.Isolation

namespace UnixLite

open Transition

/-- The kernel's own page table as `paging_init` leaves it. -/
def pagingInitPt (i : Nat) : Pte :=
  if 0xB8 ≤ i ∧ i ≤ 0xBB then ⟨true, true, false, BitVec.ofNat 20 i⟩
  else if i < 0xB8 then ⟨false, true, false, BitVec.ofNat 20 i⟩
  else ⟨false, false, false, 0⟩

namespace Kernel

/-- What a walk finds at a frame: the two page tables where the linker put
them, and anything elsewhere. -/
def tableAt (k : Kernel) (ptFrame ptUserFrame : BitVec 20) (ram : BitVec 20 → Nat → Pte)
    (frame : BitVec 20) : Nat → Pte :=
  if frame = ptUserFrame then k.ptUser
  else if frame = ptFrame then pagingInitPt
  else ram frame

/-- The translation of an address that user mode may access: the entries of
each level are present and have the user bit set. -/
def userAddress (k : Kernel) (tables : BitVec 20 → Nat → Pte) (va : Word) : Option Nat :=
  let e := k.pd (va >>> 22).toNat
  if e.p = false ∨ e.us = false then none
  else if e.ps then some (e.addr.toNat / 1024 * 0x400000 + va.toNat % 0x400000)
  else
    let f := tables e.addr ((va >>> 12).toNat % 1024)
    if f.p = false ∨ f.us = false then none
    else some (f.addr.toNat * 4096 + va.toNat % 4096)

/-- A slot of `pid_array` that is taken. -/
def Live (k : Kernel) (p : Int) : Prop := 0 ≤ p ∧ p ≤ 5 ∧ k.pidArray p = 1

/-- Of the page directory and the user page table a step patches at most the
frame of the program page and the entry of the video page. -/
structure SamePages (k k' : Kernel) : Prop where
  otherPage : ∀ i, i ≠ 32 → k'.pd i = k.pd i
  programPage : (k'.pd 32).rw = (k.pd 32).rw ∧ (k'.pd 32).us = (k.pd 32).us ∧
    (k'.pd 32).ps = (k.pd 32).ps
  otherVideo : ∀ i, i ≠ 0xB8 → k'.ptUser i = k.ptUser i

theorem SamePages.of_eq {k k' : Kernel} (pd : k'.pd = k.pd) (ptUser : k'.ptUser = k.ptUser) :
    SamePages k k' :=
  ⟨fun i _ => congrFun pd i, by rw [pd]; exact ⟨rfl, rfl, rfl⟩, fun i _ => congrFun ptUser i⟩

theorem SamePages.trans {a b c : Kernel} (first : SamePages a b) (second : SamePages b c) :
    SamePages a c := by
  obtain ⟨rw1, us1, ps1⟩ := first.programPage
  obtain ⟨rw2, us2, ps2⟩ := second.programPage
  constructor
  · exact fun i other => (second.otherPage i other).trans (first.otherPage i other)
  · exact ⟨rw2.trans rw1, us2.trans us1, ps2.trans ps1⟩
  · exact fun i other => (second.otherVideo i other).trans (first.otherVideo i other)

theorem mapProgram_pages (k : Kernel) (pid : Int) : SamePages k (k.mapProgram pid) := by
  constructor
  · intro i other
    simp [mapProgram, other]
  · simp [mapProgram]
  · exact fun _ _ => rfl

theorem mapVideo_pages (k : Kernel) : SamePages k k.mapVideo := by
  constructor
  · exact fun i _ => congrFun k.mapVideo_ttyOnly.pd i
  · rw [k.mapVideo_ttyOnly.pd]
    exact ⟨rfl, rfl, rfl⟩
  · intro i other
    unfold mapVideo
    split <;> simp [other]

theorem terminalSwitch_pages (k : Kernel) (function : Nat) :
    SamePages k (k.terminalSwitch function).1 := by
  unfold terminalSwitch
  extract_lets shown k1
  have swapped : SamePages k k1 := .of_eq rfl rfl
  split
  · exact .of_eq rfl rfl
  · dsimp only
    split
    · exact swapped.trans k1.mapVideo_pages
    · exact swapped

theorem sysExecute_pages {fs : FsImage} {k k' : Kernel} {command : List UInt8} {regs : Regs}
    {eip : Word} (run : k.sysExecute fs command regs = .started k' eip) : SamePages k k' := by
  obtain ⟨_, pid, _, _, _, _, _, rfl, _⟩ := sysExecute_inv run
  constructor
  · intro i other
    simp [startProgram, setTerm, setPcb, mapProgram, other]
  · exact ⟨rfl, rfl, rfl⟩
  · intro i other
    simp [startProgram, setTerm, setPcb, mapProgram, other]

theorem sysExecute_outcome_pages {fs : FsImage} {k k' : Kernel} {command : List UInt8} {regs : Regs}
    {r : Reply} (run : (k.sysExecute fs command regs).outcome = some (k', r)) : SamePages k k' := by
  cases call : k.sysExecute fs command regs with
  | returned k1 v =>
    rw [call] at run
    cases run
    obtain ⟨prev, rfl⟩ := sysExecute_returned call
    exact .of_eq rfl rfl
  | started k1 eip =>
    rw [call] at run
    cases run
    exact sysExecute_pages call
  | faulted k1 =>
    rw [call] at run
    cases run

theorem haltBody_pages (k : Kernel) : SamePages k k.haltBody := by
  have halt := k.haltBody_halted
  have pd : k.haltBody.pd = k.haltRelease.pd :=
    (k.haltRelease.closeFiles.resumeParent_same k.ta k.curPcb.parentPid).2.2.1.trans
      k.haltRelease.closeFiles_frame.1.processes.pd
  have patched : SamePages k k.haltRelease := by
    have page := mapProgram_pages { k with
      pidArray := Function.update k.pidArray k.curPid 0
      prevPid := (k.pcb k.curPcb.parentPid).parentPid } k.curPcb.parentPid
    exact ⟨page.otherPage, page.programPage, page.otherVideo⟩
  constructor
  · intro i other
    rw [pd]
    exact patched.otherPage i other
  · rw [pd]
    exact patched.programPage
  · intro i _
    rw [halt.video.ptUser]

theorem finishInit_pages (k : Kernel) : SamePages k k.finishInit := by
  have switched := k.terminalSwitch_pages 1
  unfold finishInit
  split
  · exact ⟨switched.otherPage, switched.programPage, switched.otherVideo⟩
  · exact .of_eq rfl rfl

theorem nextTerminal_pages (k : Kernel) : SamePages k k.nextTerminal := by
  unfold nextTerminal
  extract_lets k1 activePid k2
  have moved : SamePages k k2 := .of_eq rfl rfl
  have mapped := (moved.trans (k2.mapProgram_pages activePid)).trans
    (k2.mapProgram activePid).mapVideo_pages
  exact ⟨mapped.otherPage, mapped.programPage, mapped.otherVideo⟩

theorem pitHandler_pages {fs : FsImage} {k k' : Kernel} {regs execRegs : Regs} {r : Reply}
    (run : (k.pitHandler fs regs execRegs).outcome = some (k', r)) : SamePages k k' := by
  have saved : SamePages k (k.saveContext regs) := .of_eq rfl rfl
  unfold pitHandler at run
  dsimp only at run
  split at run
  · rename_i inSetup
    have launched : SamePages (k.saveContext regs)
        ((k.saveContext regs).launchTerminal ⟨(k.saveContext regs).terminalInit, inSetup⟩) := by
      have switched := (k.saveContext regs).terminalSwitch_pages ((k.saveContext regs).terminalInit + 1)
      exact ⟨switched.otherPage, switched.programPage, switched.otherVideo⟩
    exact (saved.trans launched).trans (sysExecute_outcome_pages run)
  · cases run
    exact (saved.trans (finishInit_pages _)).trans (nextTerminal_pages _)

theorem putLoop_ptUser (idxs : List Nat) (src : Nat → UInt8) (k : Kernel) :
    (idxs.foldl (fun k idx => k.putc (src idx)) k).ptUser = k.ptUser := by
  induction idxs generalizing k with
  | nil => rfl
  | cons idx rest ih => exact ih (k.putc (src idx))

end Kernel

/-- No step patches any other page. -/
theorem step_pages {fs : FsImage} {k k' : Kernel} {l : Act × Reply} (ok : k.Display)
    (move : Step fs k l k') : k.SamePages k' := by
  obtain ⟨act, r⟩ := l
  cases act with
  | execute command regs => exact Kernel.sysExecute_outcome_pages move
  | halt status regs =>
    rcases step_halt move with ⟨_, rfl, _⟩ | ⟨_, restarted⟩
    · exact k.haltBody_pages
    · have freed : k.SamePages k.freeBase := .of_eq rfl rfl
      exact freed.trans (Kernel.sysExecute_outcome_pages restarted)
  | tick regs execRegs => exact Kernel.pitHandler_pages move
  | key keypress =>
    cases move
    rcases Kernel.keyboardHandler_touches ok.cursors keypress with touches | ⟨function, switch⟩
    · exact .of_eq (k.keyboardHandler_ttyOnly keypress).pd touches.ptUser
    · rw [switch]
      have flagged : k.SamePages { k with flags := (getKey k.flags keypress).1 } := .of_eq rfl rfl
      exact flagged.trans (Kernel.terminalSwitch_pages _ function)
  | switchTo function =>
    cases move
    exact k.terminalSwitch_pages function
  | read fd buf nbytes =>
    obtain ⟨v, out, call, rfl⟩ := step_read move
    obtain ⟨processes, video⟩ := Kernel.sysRead_frame call
    exact .of_eq processes.pd video.ptUser
  | write fd buf src nbytes =>
    obtain ⟨v, call, rfl⟩ := step_write move
    have pd := (Kernel.sysWrite_frame call).1.pd
    rcases Kernel.sysWrite_puts call with quiet | ⟨idxs, rfl⟩
    · exact .of_eq pd quiet.video.ptUser
    · exact .of_eq pd (Kernel.putLoop_ptUser idxs src k)
  | openFile filename =>
    cases move
    have quiet := k.sysOpen_quiet fs filename
    exact .of_eq quiet.processes.pd quiet.video.ptUser
  | close fd =>
    cases move
    have quiet := k.sysClose_quiet fd
    exact .of_eq quiet.processes.pd quiet.video.ptUser
  | putc c =>
    cases move
    exact .of_eq rfl rfl
  | vidStore off b =>
    cases move
    exact .of_eq rfl rfl

/-- What `paging_init` has set up and every step keeps: user mode gets through
the entries of the program page and of the user page table only, and of that
table only the video page is present. -/
structure UserPages (ptUserFrame : BitVec 20) (k : Kernel) : Prop where
  closed : ∀ i, i ≠ 32 → i ≠ 33 → (k.pd i).p = false ∨ (k.pd i).us = false
  program : (k.pd 32).us = true ∧ (k.pd 32).ps = true
  video : k.pd 33 = ⟨true, true, true, false, ptUserFrame⟩
  unmapped : ∀ i, i ≠ 0xB8 → (k.ptUser i).p = false

theorem UserPages.keep {ptUserFrame : BitVec 20} {k k' : Kernel} (pages : UserPages ptUserFrame k)
    (same : k.SamePages k') : UserPages ptUserFrame k' := by
  obtain ⟨_, us, ps⟩ := same.programPage
  constructor
  case closed =>
    intro i notProgram notVideo
    rw [same.otherPage i notProgram]
    exact pages.closed i notProgram notVideo
  case program => exact ⟨us.trans pages.program.1, ps.trans pages.program.2⟩
  case video => rw [same.otherPage 33 (by omega), pages.video]
  case unmapped =>
    intro i other
    rw [same.otherVideo i other]
    exact pages.unmapped i other

theorem entry_pages (pcbs : Int → Pcb) (ram : Nat → UInt8) (ptFrame ptUserFrame : BitVec 20) :
    UserPages ptUserFrame (entryState pcbs ram ptFrame ptUserFrame) := by
  constructor
  case closed =>
    intro i notProgram notVideo
    simp only [entryState, pagingInitPd, notProgram, notVideo, if_false]
    split
    · exact Or.inr rfl
    · split
      · exact Or.inr rfl
      · exact Or.inl rfl
  case program => exact ⟨rfl, rfl⟩
  case video => rfl
  case unmapped =>
    intro i other
    simp only [entryState, pagingInitPtUser, other, if_false]

/-- The display and the pages of a run from `entry`. -/
theorem run_pages {fs : FsImage} {pcbs : Int → Pcb} {ram : Nat → UInt8} {ptFrame ptUserFrame : BitVec 20}
    {history : List Happening} {k : Kernel}
    (run : Runs fs (entryState pcbs ram ptFrame ptUserFrame) history k) :
    k.Display ∧ UserPages ptUserFrame k := by
  refine run.invariant (fun k => k.Display ∧ UserPages ptUserFrame k) ?_ ?_
  · exact ⟨Kernel.entry_display pcbs ram ptFrame ptUserFrame, entry_pages pcbs ram ptFrame ptUserFrame⟩
  · intro k l k' ok move
    exact ⟨ok.1.step move, ok.2.keep (step_pages ok.1 move)⟩

/-- An address that user mode may access lies in the frame of the program page
or in the page of the video entry. -/
theorem UserPages.address {ptFrame ptUserFrame : BitVec 20} {k : Kernel}
    (pages : UserPages ptUserFrame k) (ram : BitVec 20 → Nat → Pte) {va : Word} {pa : Nat}
    (found : k.userAddress (k.tableAt ptFrame ptUserFrame ram) va = some pa) :
    pa / 0x400000 = (k.pd 32).addr.toNat / 1024 ∨ pa / 4096 = (k.ptUser 0xB8).addr.toNat := by
  simp only [Kernel.userAddress] at found
  generalize (va >>> 22).toNat = i at found
  generalize (va >>> 12).toNat % 1024 = j at found
  split at found
  · cases found
  rename_i allowed
  by_cases program : i = 32
  · subst program
    rw [if_pos pages.program.2] at found
    cases found
    have below := Nat.mod_lt va.toNat (show 0x400000 > 0 by decide)
    exact Or.inl (by omega)
  by_cases video : i = 33
  · subst video
    simp only [pages.video, Bool.false_eq_true, if_false, Kernel.tableAt, if_true] at found
    split at found
    · cases found
    rename_i present
    cases found
    have below := Nat.mod_lt va.toNat (show 4096 > 0 by decide)
    by_cases entry : j = 0xB8
    · subst entry
      exact Or.inr (by omega)
    · exact absurd (Or.inl (pages.unmapped j entry)) present
  · exact absurd (pages.closed i program video) allowed

/-- An address of the program page goes to the frame mapped there. -/
theorem UserPages.program_address {ptUserFrame : BitVec 20} {k : Kernel}
    (pages : UserPages ptUserFrame k) (mapped : (k.pd 32).p = true) (tables : BitVec 20 → Nat → Pte)
    {va : Word} (inPage : (va >>> 22).toNat = 32) :
    k.userAddress tables va = some ((k.pd 32).addr.toNat / 1024 * 0x400000 + va.toNat % 0x400000) := by
  simp only [Kernel.userAddress, inPage, mapped, pages.program, Bool.true_eq_false, or_self, if_false,
    if_true]

/-- The physical address of the frame that the kernel maps for process `p`. -/
def frameStart (p : Int) : Nat := (programFrame p).toNat * 4096

def InFrame (p : Int) (pa : Nat) : Prop := frameStart p ≤ pa ∧ pa < frameStart p + 0x400000

theorem programFrame_toNat {p : Int} (lower : 0 ≤ p) (upper : p ≤ 5) :
    ((programFrame p).toNat : Int) = (p + 2) * 1024 := by
  rw [programFrame, BitVec.toNat_ofInt]
  omega

/-- The frames of the six slots lie one after the other from 8 MB on. -/
theorem frameStart_eq {p : Int} (lower : 0 ≤ p) (upper : p ≤ 5) :
    (frameStart p : Int) = (p + 2) * 0x400000 := by
  have frame := programFrame_toNat lower upper
  unfold frameStart
  omega

theorem frames_apart {p q : Int} (lowerP : 0 ≤ p) (upperP : p ≤ 5) (lowerQ : 0 ≤ q) (upperQ : q ≤ 5)
    (other : p ≠ q) (pa : Nat) : ¬ (InFrame p pa ∧ InFrame q pa) := by
  have startP := frameStart_eq lowerP upperP
  have startQ := frameStart_eq lowerQ upperQ
  unfold InFrame
  omega

/-- With `term_init_done` set, user mode reaches the frame of the running
process and the video page of its terminal, by whatever address. The frames of
live processes are disjoint and lie above the kernel's 8 MB. -/
theorem address_spaces {fs : FsImage} (present : ShellPresent fs) {pcbs : Int → Pcb}
    {ram : Nat → UInt8} {ptFrame ptUserFrame : BitVec 20} {boot later : List Happening}
    {first k : Kernel} (booted : Booting fs (entryState pcbs ram ptFrame ptUserFrame) 3 boot first)
    (run : Runs fs first later k) (done : k.termInitDone = true)
    (elsewhere : BitVec 20 → Nat → Pte) :
    (∀ va pa, k.userAddress (k.tableAt ptFrame ptUserFrame elsewhere) va = some pa →
      InFrame k.curPid pa ∨
        pa / 4096 * 4096 = if k.ts = k.ta then 0xB8000 else 0xB9000 + k.ta.val * 0x1000) ∧
    k.Live k.curPid ∧
    (∀ p, k.Live p → (frameStart p : Int) = (p + 2) * 0x400000) ∧
    (∀ p q, k.Live p → k.Live q → p ≠ q → ∀ pa, ¬ (InFrame p pa ∧ InFrame q pa)) ∧
    ∀ p, k.Live p → ∀ pa, InFrame p pa → 0x800000 ≤ pa := by
  obtain ⟨⟨forest, tree⟩, duty, _⟩ := Scheduled.run present booted run
  obtain ⟨display, pages⟩ := run_pages (booted.run.append run)
  obtain ⟨lower, upper⟩ := tree.range _ _ tree.running_mem
  have start := frameStart_eq lower upper
  have mapped := (display.mapped done).2
  refine ⟨fun va pa found => ?_, ?_, ?_, ?_, ?_⟩
  · rcases pages.address elsewhere found with program | video
    · rw [duty.frame] at program
      have frame := programFrame_toNat lower upper
      refine Or.inl ?_
      unfold InFrame
      omega
    · refine Or.inr ?_
      rw [video, mapped]
      simp only [Kernel.page, UnixLite.video, termVid]
      split <;> omega
  · exact ⟨lower, upper, (tree.slots _ lower upper).mpr ⟨_, tree.running_mem⟩⟩
  · exact fun p live => frameStart_eq live.1 live.2.1
  · exact fun p q liveP liveQ => frames_apart liveP.1 liveP.2.1 liveQ.1 liveQ.2.1
  · intro p live pa inside
    have start := frameStart_eq live.1 live.2.1
    have lowest := inside.1
    have lower := live.1
    omega

/-- The first tick after the boot of the sample, and an address of its program. -/
theorem address_spaces_sample : ∃ boot later first k, Booting sampleImage sampleEntry 3 boot first ∧
    Runs sampleImage first later k ∧
    ∃ pa, k.userAddress (k.tableAt 0 0 fun _ => pagingInitPt) 0x8048000 = some pa ∧
      (InFrame k.curPid pa ∨
        pa / 4096 * 4096 = if k.ts = k.ta then 0xB8000 else 0xB9000 + k.ta.val * 0x1000) := by
  obtain ⟨boot, first, booted⟩ := boot_completes sampleImage_fits (fun _ => blankPcb) (fun _ => 0) 0 0
    ⟨0, 0⟩
  obtain ⟨_, k, move, tick, done⟩ :=
    (booted.launching sampleImage_fits.present).finishes sampleImage ⟨0, 0⟩ ⟨0, 0⟩
  have later := Run.next .start move
  obtain ⟨reach, _⟩ := address_spaces sampleImage_fits.present booted later done fun _ => pagingInitPt
  have pages := (run_pages (booted.run.append later)).2
  have inPage : ((0x8048000 : Word) >>> 22).toNat = 32 := by decide
  have address := pages.program_address tick.onDuty.mapped (k.tableAt 0 0 fun _ => pagingInitPt) inPage
  exact ⟨boot, _, first, k, booted, later, _, address, reach _ _ address⟩

end UnixLite
