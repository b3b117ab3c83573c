import UnixLite.Faults

namespace UnixLite

open Transition

namespace Kernel

/-- The program page is present and writable, and the entry of the user page
table that `sys_vidmap` looks at maps the page that output goes to. -/
structure VideoMapped (k : Kernel) : Prop where
  program : (k.pd 32).p = true ∧ (k.pd 32).rw = true
  entry : (k.ptUser 0xB8).p = true ∧ (k.ptUser 0xB8).us = true
  page : (k.ptUser 0xB8).addr.toNat * 4096 = k.videoMem

theorem entry_videoMapped (pcbs : Int → Pcb) (ram : Nat → UInt8) (ptFrame ptUserFrame : BitVec 20) :
    VideoMapped (entryState pcbs ram ptFrame ptUserFrame) where
  program := by simp [entryState, pagingInitPd]
  entry := by simp [entryState, pagingInitPtUser]
  page := by simp [entryState, pagingInitPtUser, video]

theorem VideoMapped.keep {k k' : Kernel} (ok : VideoMapped k) (pd : k'.pd = k.pd)
    (ptUser : k'.ptUser = k.ptUser) (videoMem : k'.videoMem = k.videoMem) : VideoMapped k' := by
  constructor
  · rw [pd]
    exact ok.program
  · rw [ptUser]
    exact ok.entry
  · rw [ptUser, videoMem]
    exact ok.page

theorem VideoMapped.touches {k k' : Kernel} {t : Fin 3} (ok : VideoMapped k) (touches : Touches t k k')
    (pd : k'.pd = k.pd) : VideoMapped k' :=
  ok.keep pd touches.ptUser touches.videoMem

theorem VideoMapped.mapProgram {k : Kernel} (ok : VideoMapped k) (pid : Int) :
    VideoMapped (k.mapProgram pid) := by
  refine ⟨?_, ok.entry, ok.page⟩
  simp only [Kernel.mapProgram, Function.update_self, true_and]
  exact ok.program.2

theorem VideoMapped.mapVideo {k : Kernel} (ok : VideoMapped k) : VideoMapped k.mapVideo := by
  obtain ⟨output, entry⟩ := k.mapVideo_mapped
  refine ⟨?_, ?_, entry.trans output.symm⟩
  · rw [k.mapVideo_ttyOnly.pd]
    exact ok.program
  · unfold Kernel.mapVideo
    split <;> simpa using ok.entry

theorem VideoMapped.terminalSwitch {k : Kernel} (ok : VideoMapped k) (function : Nat) :
    VideoMapped (k.terminalSwitch function).1 := by
  unfold Kernel.terminalSwitch
  extract_lets shown k1
  have swapped : VideoMapped k1 := ok.keep rfl rfl rfl
  split
  · exact ok
  · dsimp only
    split
    · exact swapped.mapVideo
    · exact swapped

theorem VideoMapped.execute {fs : FsImage} {k k' : Kernel} {command : List UInt8} {regs : Regs} {r : Reply}
    (ok : VideoMapped k) (run : (k.sysExecute fs command regs).outcome = some (k', r)) : VideoMapped k' := by
  rcases sysExecute_outcome run with ⟨_, _, rfl, _⟩ | ⟨_, _, _, started⟩
  · exact ok.keep rfl rfl rfl
  · constructor
    · rw [started.programPage]
      exact ⟨rfl, ok.program.2⟩
    · rw [started.videoPage]
      exact ⟨rfl, ok.entry.2⟩
    · rw [started.videoPage, started.videoMem]
      exact ok.page

theorem VideoMapped.tick {fs : FsImage} {k k' : Kernel} {regs execRegs : Regs} {r : Reply} (ok : VideoMapped k)
    (move : Step fs k (.tick regs execRegs, r) k') : VideoMapped k' := by
  have saved : VideoMapped (k.saveContext regs) := ok.keep rfl rfl rfl
  rcases step_tick move with ⟨_, _, rfl, _⟩ | ⟨inSetup, launched⟩
  · have finished : VideoMapped (k.saveContext regs).finishInit := by
      unfold finishInit
      split
      · exact (saved.terminalSwitch 1).keep rfl rfl rfl
      · exact saved
    unfold nextTerminal
    extract_lets k1 activePid k2
    have moved : VideoMapped k2 := finished.keep rfl rfl rfl
    exact (moved.mapProgram activePid).mapVideo.keep rfl rfl rfl
  · have switched := saved.terminalSwitch (k.terminalInit + 1)
    have ready : VideoMapped ((k.saveContext regs).launchTerminal ⟨k.terminalInit, inSetup⟩) :=
      switched.keep rfl rfl rfl
    exact ready.execute launched

theorem VideoMapped.putLoop {k : Kernel} (ok : VideoMapped k) (idxs : List Nat) (src : Nat → UInt8) :
    VideoMapped (idxs.foldl (fun k idx => k.putc (src idx)) k) := by
  induction idxs generalizing k with
  | nil => exact ok
  | cons idx rest ih => exact ih (ok.keep rfl rfl rfl)

theorem VideoMapped.step {fs : FsImage} {k k' : Kernel} {l : Act × Reply} (ok : VideoMapped k)
    (display : k.Display) (move : Step fs k l k') : VideoMapped k' := by
  obtain ⟨act, r⟩ := l
  cases act with
  | execute command regs => exact ok.execute move
  | halt status regs =>
    rcases step_halt move with ⟨_, rfl, _⟩ | ⟨_, restarted⟩
    · have halt := k.haltBody_halted
      constructor
      · rw [halt.programPage]
        exact ⟨rfl, ok.program.2⟩
      · rw [halt.video.ptUser]
        exact ok.entry
      · rw [halt.video.ptUser, halt.video.videoMem]
        exact ok.page
    · have freed : VideoMapped k.freeBase := ok.keep rfl rfl rfl
      exact freed.execute restarted
  | tick regs execRegs => exact ok.tick move
  | key keypress =>
    cases move
    rcases keyboardHandler_touches display.cursors keypress with touches | ⟨function, switch⟩
    · exact ok.touches touches (k.keyboardHandler_ttyOnly keypress).pd
    · rw [switch]
      have flagged : VideoMapped { k with flags := (getKey k.flags keypress).1 } := ok.keep rfl rfl rfl
      exact flagged.terminalSwitch function
  | switchTo function =>
    cases move
    exact ok.terminalSwitch function
  | read fd buf nbytes =>
    obtain ⟨v, out, call, rfl⟩ := step_read move
    obtain ⟨processes, video⟩ := sysRead_frame call
    exact ok.keep processes.pd video.ptUser video.videoMem
  | write fd buf src nbytes =>
    obtain ⟨v, call, rfl⟩ := step_write move
    have pd := (sysWrite_frame call).1.pd
    rcases sysWrite_puts call with quiet | ⟨idxs, rfl⟩
    · exact ok.keep pd quiet.video.ptUser quiet.video.videoMem
    · exact ok.putLoop idxs src
  | openFile filename =>
    cases move
    have quiet := k.sysOpen_quiet fs filename
    exact ok.keep quiet.processes.pd quiet.video.ptUser quiet.video.videoMem
  | close fd =>
    cases move
    have quiet := k.sysClose_quiet fd
    exact ok.keep quiet.processes.pd quiet.video.ptUser quiet.video.videoMem
  | putc c =>
    cases move
    exact ok.keep rfl rfl rfl
  | vidStore off b =>
    cases move
    exact ok.keep rfl rfl rfl

end Kernel

/-- The output of `handle_exception` patches no page. -/
theorem message_pages (chars : List Char) (k : Kernel) :
    (chars.foldl (fun k c => k.putc c.toUInt8) k.clearScreen).pd = k.pd ∧
      (chars.foldl (fun k c => k.putc c.toUInt8) k.clearScreen).ptUser = k.ptUser ∧
        (chars.foldl (fun k c => k.putc c.toUInt8) k.clearScreen).videoMem = k.videoMem := by
  have cleared : k.clearScreen.pd = k.pd ∧ k.clearScreen.ptUser = k.ptUser ∧ k.clearScreen.videoMem = k.videoMem :=
    ⟨rfl, rfl, rfl⟩
  rw [← cleared.1, ← cleared.2.1, ← cleared.2.2]
  generalize k.clearScreen = k1
  induction chars generalizing k1 with
  | nil => exact ⟨rfl, rfl, rfl⟩
  | cons c rest ih => exact ih (k1.putc c.toUInt8)

/-- What the pages of a system that takes exceptions keep. -/
theorem moves_pages {fs : FsImage} {pcbs : Int → Pcb} {ram : Nat → UInt8} {ptFrame ptUserFrame : BitVec 20}
    {history : List (Event Kernel Occurrence)} {k : Kernel}
    (run : Run (Moves fs) (entryState pcbs ram ptFrame ptUserFrame) history k) :
    k.Display ∧ UserPages ptUserFrame k ∧ k.VideoMapped := by
  refine run.invariant (fun k => k.Display ∧ UserPages ptUserFrame k ∧ k.VideoMapped) ?_ ?_
  · exact ⟨Kernel.entry_display pcbs ram ptFrame ptUserFrame, entry_pages pcbs ram ptFrame ptUserFrame,
      Kernel.entry_videoMapped pcbs ram ptFrame ptUserFrame⟩
  · intro k o k' ok move
    obtain ⟨display, pages, mapped⟩ := ok
    refine ⟨display.moves move, ?_⟩
    cases move with
    | act step => exact ⟨pages.keep (step_pages display step), mapped.step display step⟩
    | @exception id errCode regs r k' run =>
      obtain ⟨pd, ptUser, videoMem⟩ := message_pages (exceptionText id errCode) k
      have cleared := display.touches (Kernel.clearScreen_touches display.cursors)
      have written := Kernel.message_display cleared (exceptionText id errCode)
      have halt : Step fs _ (.halt 256 regs, r) k' := run
      exact ⟨(pages.keep (.of_eq pd ptUser)).keep (step_pages written halt),
        (mapped.keep pd ptUser videoMem).step written halt⟩

namespace Kernel

/-- The translation of an address that the kernel accesses: the entries are
present, whatever their user bit. -/
def kernelAddress (k : Kernel) (tables : BitVec 20 → Nat → Pte) (va : Word) : Option Nat :=
  let e := k.pd (va >>> 22).toNat
  if e.p = false then none
  else if e.ps then some (e.addr.toNat / 1024 * 0x400000 + va.toNat % 0x400000)
  else
    let f := tables e.addr ((va >>> 12).toNat % 1024)
    if f.p = false then none else some (f.addr.toNat * 4096 + va.toNat % 4096)

/-- The four bytes at `screenStart` lie in the program page, which the process
may write, the store does not fault, and the value stored is an address by
which the process reaches the page its output goes to, the screen of its
terminal once the boot is over. -/
structure VidmapStores (k : Kernel) (tables : BitVec 20 → Nat → Pte) (screenStart value : Word) : Prop where
  inPage : ∀ i, i < 4 → (screenStart.toNat + i) / 0x400000 = 32
  program : (k.pd 32).p = true ∧ (k.pd 32).ps = true ∧ (k.pd 32).us = true ∧ (k.pd 32).rw = true
  value : k.userAddress tables value = some k.videoMem
  screen : k.termInitDone = true → k.videoMem = k.page k.ta
  noFault : ∀ i, i < 4 → k.kernelAddress tables (screenStart + BitVec.ofNat 32 i) ≠ none

/-- A call of `sys_vidmap` fails and stores nothing, or stores where it may. -/
def VidmapSafe (k : Kernel) (tables : BitVec 20 → Nat → Pte) (screenStart : Word) : Prop :=
  k.sysVidmap screenStart = (-1, none) ∨
    ∃ value, k.sysVidmap screenStart = (0, some value) ∧ k.VidmapStores tables screenStart value

/-- The pointers that `sys_vidmap` accepts. -/
theorem sysVidmap_eq {k : Kernel} (ok : VideoMapped k) (screenStart : Word) :
    k.sysVidmap screenStart =
      if screenStart < 0x8000000 ∨ 0x8800000 ≤ screenStart then (-1, none) else (0, some 0x84B8000) := by
  have null : screenStart = 0 → screenStart < 0x8000000 := fun zero => by
    rw [zero]
    decide
  have present : ¬ ((k.ptUser 0xB8).p = false) := by
    rw [ok.entry.1]
    decide
  unfold sysVidmap
  by_cases refused : screenStart < 0x8000000 ∨ 0x8800000 ≤ screenStart
  · rw [if_pos refused]
    split
    · rfl
    · exact if_pos refused
  · rw [if_neg refused, if_neg (not_or.mpr ⟨present, fun zero => refused (Or.inl (null zero))⟩)]
    exact if_neg refused

theorem vidmap_value {k : Kernel} {ptFrame ptUserFrame : BitVec 20} (pages : UserPages ptUserFrame k)
    (ok : VideoMapped k) (elsewhere : BitVec 20 → Nat → Pte) :
    k.userAddress (k.tableAt ptFrame ptUserFrame elsewhere) 0x84B8000 = some k.videoMem := by
  have directory : ((0x84B8000 : Word) >>> 22).toNat = 33 := by decide
  have table : ((0x84B8000 : Word) >>> 12).toNat % 1024 = 0xB8 := by decide
  have offset : (0x84B8000 : Word).toNat % 4096 = 0 := by decide
  simp only [userAddress, directory, table, offset, pages.video, tableAt, if_true, ok.entry, ok.page,
    Bool.true_eq_false, Bool.false_eq_true, or_self, if_false, Nat.add_zero]

theorem vidmapSafe_iff {k : Kernel} {ptFrame ptUserFrame : BitVec 20} (display : k.Display)
    (pages : UserPages ptUserFrame k) (ok : VideoMapped k) (elsewhere : BitVec 20 → Nat → Pte)
    (screenStart : Word) : k.VidmapSafe (k.tableAt ptFrame ptUserFrame elsewhere) screenStart ↔
      screenStart < 0x8000000 ∨ 0x8800000 ≤ screenStart ∨ screenStart.toNat + 4 ≤ 0x8400000 := by
  unfold VidmapSafe
  rw [sysVidmap_eq ok]
  by_cases refused : screenStart < 0x8000000 ∨ 0x8800000 ≤ screenStart
  · rw [if_pos refused]
    exact ⟨fun _ => refused.imp_right Or.inl, fun _ => Or.inl rfl⟩
  rw [if_neg refused]
  obtain ⟨lower, upper⟩ := not_or.mp refused
  rw [BitVec.not_lt, BitVec.le_def] at lower
  have start : 0x8000000 ≤ screenStart.toNat := lower
  constructor
  · rintro (failed | ⟨value, _, stores⟩)
    · cases congrArg Prod.fst failed
    · have last := stores.inPage 3 (by decide)
      exact Or.inr (Or.inr (by omega))
  · intro condition
    have fits : screenStart.toNat + 4 ≤ 0x8400000 := by
      rcases condition with below | beyond | fits
      · exact absurd (Or.inl below) refused
      · exact absurd (Or.inr beyond) refused
      · exact fits
    refine Or.inr ⟨_, rfl, fun i byte => by omega, ⟨ok.program.1, pages.program.2, pages.program.1, ok.program.2⟩,
      vidmap_value pages ok elsewhere, fun booted => (display.mapped booted).1, fun i byte => ?_⟩
    have place : (screenStart + BitVec.ofNat 32 i).toNat = screenStart.toNat + i := by
      rw [BitVec.toNat_add, BitVec.toNat_ofNat]
      omega
    have inPage : ((screenStart + BitVec.ofNat 32 i) >>> 22).toNat = 32 := by
      rw [BitVec.toNat_ushiftRight, place, Nat.shiftRight_eq_div_pow]
      omega
    simp only [kernelAddress, inPage, ok.program.1, pages.program.2, Bool.true_eq_false, if_false, if_true]
    exact Option.some_ne_none _

end Kernel

/-- In every reachable state a call of `sys_vidmap` is safe exactly when the
pointer is refused or its four bytes lie in the 4 MB of the program page. -/
theorem vidmap_stores {fs : FsImage} {pcbs : Int → Pcb} {ram : Nat → UInt8} {ptFrame ptUserFrame : BitVec 20}
    {history : List (Event Kernel Occurrence)} {k : Kernel}
    (run : Run (Moves fs) (entryState pcbs ram ptFrame ptUserFrame) history k)
    (elsewhere : BitVec 20 → Nat → Pte) (screenStart : Word) :
    k.VidmapSafe (k.tableAt ptFrame ptUserFrame elsewhere) screenStart ↔
      screenStart < 0x8000000 ∨ 0x8800000 ≤ screenStart ∨ screenStart.toNat + 4 ≤ 0x8400000 := by
  obtain ⟨display, pages, mapped⟩ := moves_pages run
  exact Kernel.vidmapSafe_iff display pages mapped elsewhere screenStart

/-- A pointer into the program page, in the state that `entry` leaves. -/
theorem vidmap_stores_sample :
    sampleEntry.VidmapSafe (sampleEntry.tableAt 0 0 fun _ => pagingInitPt) 0x8300000 :=
  (vidmap_stores (.start : Run (Moves sampleImage) sampleEntry [] sampleEntry)
    (fun _ => pagingInitPt) 0x8300000).mpr (Or.inr (Or.inr (by decide)))

/-- The first pointer behind the program page is accepted: the shell of the
sample runs, and the store goes to the user page table's first page. -/
theorem vidmap_beyond : ¬ ∀ (fs : FsImage) (pcbs : Int → Pcb) (ram : Nat → UInt8) (ptFrame ptUserFrame : BitVec 20)
    (history : List (Event Kernel Occurrence)) (k : Kernel),
    Run (Moves fs) (entryState pcbs ram ptFrame ptUserFrame) history k →
      ∀ (elsewhere : BitVec 20 → Nat → Pte) (screenStart : Word),
        k.VidmapSafe (k.tableAt ptFrame ptUserFrame elsewhere) screenStart := by
  intro always
  have computed : (performAll sampleImage setUpActs ([], sampleEntry)).map (fun r => r.2.curPid) = some 2 := by
    decide +kernel
  obtain ⟨r, done, _⟩ := Option.map_eq_some_iff.mp computed
  obtain ⟨history, run⟩ := (performAll_run .start done).moves
  have safe := always _ _ _ _ _ _ _ run (fun _ => pagingInitPt) 0x8400000
  obtain ⟨display, pages, mapped⟩ := moves_pages run
  rcases (Kernel.vidmapSafe_iff display pages mapped _ _).mp safe with below | beyond | fits
  · exact absurd below (by decide)
  · exact absurd beyond (by decide)
  · exact absurd fits (by decide)

end UnixLite
