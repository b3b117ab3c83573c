import UnixLite.Display
import UnixLite.Boot

namespace UnixLite

open Store Transition

namespace Kernel

/-- What executing a program does to the display, however the call ends. -/
theorem Display.execute {fs : FsImage} {k k' : Kernel} {command : List UInt8} {regs : Regs}
    {r : Reply} (ok : Display k) (run : (k.sysExecute fs command regs).outcome = some (k', r)) :
    Display k' := by
  rcases sysExecute_outcome run with ⟨prev, v, rfl, _⟩ | ⟨eip, pid, _, started⟩
  · exact ok.keep ok.cursors rfl rfl rfl rfl rfl rfl
  · exact ok.started started

/-- A tick of the set-up shows the terminal it sets up; the boot is not over. -/
theorem Display.setUpTick {fs : FsImage} {k k' : Kernel} {regs execRegs : Regs} {r : Reply}
    (ok : Display k) (inSetup : k.terminalInit < 3)
    (run : (k.pitHandler fs regs execRegs).outcome = some (k', r)) : Display k' := by
  have notDone : k.termInitDone = false := by
    cases done : k.termInitDone with
    | false => rfl
    | true =>
      have := ok.setUp done
      omega
  rw [k.pitHandler_launches fs regs execRegs inSetup] at run
  refine Display.execute ?_ run
  have kept : ((k.saveContext regs).launchTerminal ⟨_, inSetup⟩).termInitDone = false :=
    ((k.saveContext regs).terminalSwitch_ttyOnly _).termInitDone.trans notDone
  have cursors := cursors_logical (k := k.saveContext regs) ok.cursors
    ((k.saveContext regs).terminalSwitch_logical (k.terminalInit + 1))
  refine ⟨cursors_same cursors fun t => ?_, fun done => ?_, fun done => ?_⟩
  · by_cases same : t = ⟨k.terminalInit, inSetup⟩ <;>
      simp [launchTerminal, setTerm, same, saveContext, setPcb]
  · rw [kept] at done
    cases done
  · rw [kept] at done
    cases done

theorem Display.step {fs : FsImage} {k k' : Kernel} {l : Act × Reply} (ok : Display k)
    (move : Step fs k l k') : Display k' := by
  obtain ⟨act, r⟩ := l
  cases act with
  | execute command regs => exact ok.execute move
  | halt status regs =>
    rcases step_halt move with ⟨_, rfl, _⟩ | ⟨_, restarted⟩
    · exact ok.video k.haltBody_halted.video
    · have freed : Display k.freeBase := ok.keep ok.cursors rfl rfl rfl rfl rfl rfl
      exact freed.execute restarted
  | tick regs execRegs =>
    rcases step_tick move with ⟨_, tick, rfl, _⟩ | ⟨inSetup, _⟩
    · exact ok.tick tick
    · exact ok.setUpTick inSetup move
  | key keypress =>
    cases move
    rcases keyboardHandler_touches ok.cursors keypress with touches | ⟨function, switch⟩
    · exact ok.touches touches
    · rw [switch]
      have flagged : Display { k with flags := (getKey k.flags keypress).1 } :=
        ok.keep ok.cursors rfl rfl rfl rfl rfl rfl
      exact flagged.terminalSwitch function
  | switchTo function =>
    cases move
    exact ok.terminalSwitch function
  | read fd buf nbytes =>
    obtain ⟨v, out, run, rfl⟩ := step_read move
    exact ok.video (sysRead_frame run).2
  | write fd buf src nbytes =>
    obtain ⟨v, run, rfl⟩ := step_write move
    rcases sysWrite_puts run with quiet | ⟨idxs, rfl⟩
    · exact ok.video quiet.video
    · exact ok.putLoop idxs src
  | openFile filename =>
    cases move
    exact ok.video (k.sysOpen_quiet fs filename).video
  | close fd =>
    cases move
    exact ok.video (k.sysClose_quiet fd).video
  | putc c =>
    cases move
    exact ok.putc c
  | vidStore off b =>
    cases move
    exact ok.keep ok.cursors rfl rfl rfl rfl rfl rfl

theorem entry_display (pcbs : Int → Pcb) (ram : Nat → UInt8) (ptFrame ptUserFrame : BitVec 20) :
    Display (entryState pcbs ram ptFrame ptUserFrame) where
  cursors t := by simp [console, entryState, Console.OnScreen]
  setUp done := by cases done
  mapped done := by cases done

/-- Output of terminal `t`: no other terminal changes, nor does its line. -/
structure OutputOf (t : Fin 3) (k k' : Kernel) : Prop where
  others : ∀ u, u ≠ t → k'.logical u = k.logical u
  line : (k'.logical t).line = (k.logical t).line
  index : (k'.logical t).index = (k.logical t).index

theorem OutputOf.of_same {k k' : Kernel} (same : ∀ t, k'.logical t = k.logical t) (t : Fin 3) :
    OutputOf t k k' :=
  ⟨fun u _ => same u, by rw [same], by rw [same]⟩

theorem Touches.output {k k' : Kernel} {t : Fin 3} (touches : Touches t k k')
    (lines : SameLines k k') : OutputOf t k k' where
  others := touches.others
  line := by simp only [logical, touches.ts, lines.keyboardBuf, lines.terminalBuf]
  index := by simp only [logical, touches.ts, lines.keyIdx, lines.bufIdx]

/-- With `video_mem` at the active terminal's page a character touches only
that terminal. -/
theorem putc_touches {k : Kernel} (cursors : k.CursorsOnScreen) (mapped : k.videoMem = k.page k.ta)
    (c : UInt8) : Touches k.ta k (k.putc c) := by
  refine setConsole_touches cursors ?_ (Console.put_onScreen (cursors k.ta) k.videoMem c)
  rw [← mapped]
  exact Console.put_page (cursors k.ta) k.videoMem c

theorem putLoop_touches {k : Kernel} (cursors : k.CursorsOnScreen)
    (mapped : k.videoMem = k.page k.ta) (idxs : List Nat) (src : Nat → UInt8) :
    Touches k.ta k (idxs.foldl (fun k idx => k.putc (src idx)) k) := by
  induction idxs generalizing k with
  | nil => exact Touches.refl k.ta cursors
  | cons idx rest ih =>
    have head := putc_touches cursors mapped (src idx)
    have tail := ih head.cursors mapped
    exact head.trans tail

theorem vidStore_output {k : Kernel} (mapped : (k.ptUser 0xB8).addr.toNat * 4096 = k.page k.ta)
    (off : Fin 4096) (b : UInt8) : OutputOf k.ta k (k.vidStore off b) where
  others u other := by
    have apart := k.page_apart other
    have inPage := off.isLt
    refine logical_eq rfl (fun i inside => ?_) (fun _ _ _ => rfl) (fun _ => rfl) (fun _ _ _ => rfl)
      (fun _ => rfl) rfl rfl
    have elsewhere : k.page u + i ≠ k.page k.ta + off := by omega
    simp only [vidStore, mapped, Function.update_of_ne elsewhere]
  line := rfl
  index := rfl

end Kernel

/-- What an act may do to the terminals in one step. -/
def MayChange (k k' : Kernel) : Act → Prop
  | .tick _ _ | .switchTo _ => ∀ t, k'.logical t = k.logical t
  | .putc _ | .write _ _ _ _ | .vidStore _ _ => Kernel.OutputOf k.ta k k'
  | .key _ => ∀ t, t ≠ k.ts → k'.logical t = k.logical t
  | _ => True

/-- In every state reached once the boot is over, both aliases of the video
page point at the screen of the active terminal, and a step changes at most
the terminal it is about. -/
theorem terminal_isolation {fs : FsImage} {pcbs : Int → Pcb} {ram : Nat → UInt8}
    {ptFrame ptUserFrame : BitVec 20} {history : List Happening} {k : Kernel}
    (run : Runs fs (entryState pcbs ram ptFrame ptUserFrame) history k) (booted : k.termInitDone = true) :
    (k.videoMem = k.page k.ta ∧ (k.ptUser 0xB8).addr.toNat * 4096 = k.page k.ta) ∧
      ∀ act r k', Step fs k (act, r) k' → MayChange k k' act := by
  have ok : k.Display := run.invariant Kernel.Display (Kernel.entry_display pcbs ram ptFrame ptUserFrame)
    (fun _ _ _ old move => old.step move)
  have mapped := ok.mapped booted
  refine ⟨mapped, fun act r k' move => ?_⟩
  cases act with
  | tick regs execRegs =>
    have ready := ok.setUp booted
    rcases step_tick move with ⟨_, _, rfl, _⟩ | ⟨inSetup, _⟩
    · exact k.tick_logical regs
    · omega
  | switchTo function =>
    cases move
    exact k.terminalSwitch_logical function
  | key keypress =>
    cases move
    exact fun t hidden => Kernel.keyboardHandler_logical ok.cursors keypress hidden
  | putc c =>
    cases move
    exact (Kernel.putc_touches ok.cursors mapped.1 c).output (k.putc_sameLines c)
  | vidStore off b =>
    cases move
    exact Kernel.vidStore_output mapped.2 off b
  | write fd buf src nbytes =>
    obtain ⟨v, call, rfl⟩ := step_write move
    rcases Kernel.sysWrite_puts call with quiet | ⟨idxs, rfl⟩
    · exact Kernel.OutputOf.of_same (Kernel.logical_same quiet.lines quiet.video) k.ta
    · exact (Kernel.putLoop_touches ok.cursors mapped.1 idxs src).output (Kernel.putLoop_frame idxs src k).2
  | execute | halt | read | openFile | close => trivial

/-- The first tick after the boot of the sample ends the set-up. -/
theorem terminal_isolation_sample : ∃ history k, Runs sampleImage sampleEntry history k ∧
    k.videoMem = k.page k.ta ∧ (k.ptUser 0xB8).addr.toNat * 4096 = k.page k.ta := by
  obtain ⟨history, first, boot⟩ := boot_completes sampleImage_fits (fun _ => blankPcb) (fun _ => 0) 0 0
    ⟨0, 0⟩
  obtain ⟨_, k, move, _, done⟩ :=
    (boot.launching sampleImage_fits.present).finishes sampleImage ⟨0, 0⟩ ⟨0, 0⟩
  obtain ⟨mapped, _⟩ := terminal_isolation (boot.run.next move) done
  exact ⟨_, k, boot.run.next move, mapped⟩

end UnixLite
