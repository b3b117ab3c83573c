import UnixLite.Library.I386

namespace UnixLite

open I386

/-- The handlers in `jump_table`. -/
inductive Handler
  | sysHalt | sysExecute | sysRead | sysWrite | sysOpen | sysClose | sysGetargs | sysVidmap | sysSethandler
  | sysSigreturn
  deriving DecidableEq

def jumpTable : List Handler :=
  [.sysHalt, .sysExecute, .sysRead, .sysWrite, .sysOpen, .sysClose, .sysGetargs, .sysVidmap, .sysSethandler,
    .sysSigreturn]

/-- The labels that `sys_call` jumps to: `INVALID_CMD` and `END`. -/
inductive LinkLabel
  | invalidCmd | leaving
  deriving DecidableEq

/-- `sys_call` of system_call_link.S; 10 is `SYS_MAX`. -/
def sysCall : List (Instr LinkLabel) :=
  [.pushl .ebx, .pushl .ecx, .pushl .edx, .pushl .esp, .pushl .ebp, .pushl .edi, .pushl .esi,
    .cmpl 10 .eax, .jg .invalidCmd, .cmpl 1 .eax, .jl .invalidCmd, .movl (-4) .esi,
    .pushl .edx, .pushl .ecx, .pushl .ebx, .callTable .esi .eax, .popl .ebx, .popl .ecx, .popl .edx,
    .label .leaving,
    .popl .esi, .popl .edi, .popl .ebp, .popl .esp, .popl .edx, .popl .ecx, .popl .ebx, .iret,
    .label .invalidCmd, .movl (-1) .eax, .jmp .leaving]

def linkage (callee : Handler → Machine → Machine) (returnAddress : BitVec 32) : Program LinkLabel Handler :=
  ⟨sysCall, jumpTable, callee, returnAddress⟩

/-- The five words that `iret` takes from the stack. -/
def iretFrame (m : Machine) : List (BitVec 32) :=
  (List.range 5).map fun i => load m.mem (m.reg .esp + BitVec.ofNat 32 (4 * i))

/-- The words that `sys_call` has saved on top of the frame for `iret`. -/
def savedWords (m : Machine) : List (BitVec 32) :=
  [m.reg .esi, m.reg .edi, m.reg .ebp, m.reg .esp - 12, m.reg .edx, m.reg .ecx, m.reg .ebx] ++ iretFrame m

/-- Between the saving and the restoring: the words saved at `entry` are on
top of the stack. -/
structure SavedRegs (entry m : Machine) : Prop where
  stacked : Stacked (savedWords entry) m
  esp : m.reg .esp = entry.reg .esp - 28

theorem iretFrame_stacked (m : Machine) : Stacked (iretFrame m) m := by
  intro i inside
  simp only [iretFrame, List.getElem_map, List.getElem_range]

theorem iretFrame_length (m : Machine) : (iretFrame m).length = 5 := by simp [iretFrame]

/-- The seven pushes at the start of `sys_call`. -/
def saveRegs (m : Machine) : Machine :=
  ((((((m.push (m.reg .ebx)).push (m.reg .ecx)).push (m.reg .edx)).push (m.reg .esp - 12)).push (m.reg .ebp)).push
    (m.reg .edi)).push (m.reg .esi)

theorem three_slots (e : BitVec 32) : e - 4 - 4 - 4 = e - 12 := by bv_omega

theorem seven_slots (e : BitVec 32) : e - 4 - 4 - 4 - 4 - 4 - 4 - 4 = e - 28 := by bv_omega

theorem saveRegs_reg (m : Machine) {r : Reg} (other : r ≠ .esp) : (saveRegs m).reg r = m.reg r := by
  simp only [saveRegs, Machine.push_reg _ _ other]

theorem saveRegs_saved (m : Machine) : SavedRegs m (saveRegs m) := by
  have length := iretFrame_length m
  have first := (iretFrame_stacked m).push (by omega) (m.reg .ebx)
  have second := first.push (by simp [length]) (m.reg .ecx)
  have third := second.push (by simp [length]) (m.reg .edx)
  have fourth := third.push (by simp [length]) (m.reg .esp - 12)
  have fifth := fourth.push (by simp [length]) (m.reg .ebp)
  have sixth := fifth.push (by simp [length]) (m.reg .edi)
  refine ⟨sixth.push (by simp [length]) (m.reg .esi), ?_⟩
  simp only [saveRegs, Machine.push_esp, seven_slots]

/-- The seven pops behind `END`. -/
def restoreRegs (m : Machine) : Machine :=
  ((((((m.pop .esi).pop .edi).pop .ebp).pop .esp).pop .edx).pop .ecx).pop .ebx

theorem SavedRegs.restores {entry m : Machine} (saved : SavedRegs entry m) :
    (∀ r, r ≠ .eax → (restoreRegs m).reg r = entry.reg r) ∧ (restoreRegs m).reg .eax = m.reg .eax ∧
      Stacked (iretFrame entry) (restoreRegs m) := by
  have words : Stacked (entry.reg .esi :: entry.reg .edi :: entry.reg .ebp :: (entry.reg .esp - 12) ::
      entry.reg .edx :: entry.reg .ecx :: entry.reg .ebx :: iretFrame entry) m := saved.stacked
  obtain ⟨words, esi⟩ := words.pop (r := .esi) (by decide)
  obtain ⟨words, edi⟩ := words.pop (r := .edi) (by decide)
  obtain ⟨words, ebp⟩ := words.pop (r := .ebp) (by decide)
  have three : (((m.pop .esi).pop .edi).pop .ebp).reg .esp = m.reg .esp + 4 + 4 + 4 := by simp
  have behind (e : BitVec 32) : e - 12 = e - 28 + 4 + 4 + 4 + 4 := by bv_omega
  obtain ⟨words, esp⟩ := words.popEsp (by rw [three, saved.esp]; exact behind _)
  obtain ⟨words, edx⟩ := words.pop (r := .edx) (by decide)
  obtain ⟨words, ecx⟩ := words.pop (r := .ecx) (by decide)
  obtain ⟨words, ebx⟩ := words.pop (r := .ebx) (by decide)
  have back (e : BitVec 32) : e - 28 + 4 + 4 + 4 + 4 + 4 + 4 + 4 = e := by bv_omega
  refine ⟨fun r other => ?_, by simp [restoreRegs], words⟩
  cases r with
  | eax => exact absurd rfl other
  | ebx => exact ebx
  | ecx => simp [restoreRegs, ecx]
  | edx => simp [restoreRegs, edx]
  | esi => simp [restoreRegs, esi]
  | edi => simp [restoreRegs, edi]
  | ebp => simp [restoreRegs, ebp]
  | esp =>
    simp only [restoreRegs, Machine.pop_esp, ne_eq, reduceCtorEq, not_false_eq_true, esp, saved.esp]
    exact back _

theorem SavedRegs.same {entry m m' : Machine} (saved : SavedRegs entry m) (esp : m'.reg .esp = m.reg .esp)
    (mem : m'.mem = m.mem) : SavedRegs entry m' :=
  ⟨saved.stacked.same esp mem, esp.trans saved.esp⟩

/-- The machine behind the two comparisons and the `movl`. -/
def checked (m : Machine) : Machine := ((m.cmp 10 .eax).cmp 1 .eax).set .esi (-4)

def pushArgs (m : Machine) : Machine :=
  ((m.push (m.reg .edx)).push (m.reg .ecx)).push (m.reg .ebx)

/-- The machine that the handler finds. -/
def called (returnAddress : BitVec 32) (m : Machine) : Machine := (pushArgs (checked m)).push returnAddress

/-- The three pops behind the call. -/
def dropArgs (m : Machine) : Machine := ((m.pop .ebx).pop .ecx).pop .edx

section Runs

variable (callee : Handler → Machine → Machine) (returnAddress : BitVec 32) (m : Machine)
  (calls : List (Handler × Machine)) (n : Nat)

/-- Up to the first comparison. -/
theorem linkage_enters : (linkage callee returnAddress).run (n + 7) ⟨sysCall, m, calls⟩ =
    (linkage callee returnAddress).run n ⟨sysCall.drop 7, saveRegs m, calls⟩ := by
  have pushes : saveRegs m = [Reg.ebx, .ecx, .edx, .esp, .ebp, .edi, .esi].foldl (fun m r => m.push (m.reg r)) m := by
    simp only [saveRegs, List.foldl_cons, List.foldl_nil, Machine.push_reg, Machine.push_esp, three_slots, ne_eq,
      reduceCtorEq, not_false_eq_true]
  rw [pushes]
  rfl

/-- From `END` on. -/
theorem linkage_leaves : (linkage callee returnAddress).run (n + 9) ⟨sysCall.drop 19, m, calls⟩ =
    some ⟨sysCall.drop 27, restoreRegs m, calls⟩ :=
  rfl

theorem checked_reg {r : Reg} (other : r ≠ .esi) : (checked m).reg r = m.reg r := by
  simp [checked, Machine.set, Machine.cmp, other]

theorem pushArgs_reg {r : Reg} (other : r ≠ .esp) : (pushArgs m).reg r = m.reg r := by
  simp only [pushArgs, Machine.push_reg _ _ other]

theorem toNat_of_range {v : BitVec 32} (low : 1 ≤ v.toInt) (high : v.toInt ≤ 10) : 1 ≤ v.toNat ∧ v.toNat ≤ 10 := by
  have bound := v.isLt
  rw [BitVec.toInt_eq_toNat_cond] at low high
  split at low <;> omega

/-- The handler that the call finds in the table. -/
theorem linkage_entry {v : BitVec 32} (low : 1 ≤ v.toInt) (high : v.toInt ≤ 10) :
    (linkage callee returnAddress).entry (-4 + 4 * v) = jumpTable[v.toNat - 1]? := by
  obtain ⟨positive, small⟩ := toNat_of_range low high
  have offset : (-4 + 4 * v).toNat = 4 * (v.toNat - 1) := by bv_omega
  rw [Program.entry, offset, if_pos (by omega), Nat.mul_div_cancel_left _ (by decide)]
  rfl

/-- A number in the table: the handler is called and its arguments are dropped. -/
theorem linkage_calls {h : Handler} (low : 1 ≤ (m.reg .eax).toInt) (high : (m.reg .eax).toInt ≤ 10)
    (found : jumpTable[(m.reg .eax).toNat - 1]? = some h) :
    (linkage callee returnAddress).run (n + 12) ⟨sysCall.drop 7, m, calls⟩ =
      (linkage callee returnAddress).run n ⟨sysCall.drop 19,
        dropArgs (callee h (called returnAddress m)),
        (h, called returnAddress m) :: calls⟩ := by
  have notAbove : (m.cmp 10 .eax).greater = false := by
    have above := m.cmp_greater 10 .eax
    rw [← Bool.not_eq_true, above]
    exact Int.not_lt.mpr high
  have notBelow : ((m.cmp 10 .eax).cmp 1 .eax).less = false := by
    have below := (m.cmp 10 .eax).cmp_less 1 .eax
    rw [← Bool.not_eq_true, below]
    exact Int.not_lt.mpr low
  have compared : (linkage callee returnAddress).run (n + 12) ⟨sysCall.drop 7, m, calls⟩ =
      (linkage callee returnAddress).run (n + 4) ⟨sysCall.drop 15, pushArgs (checked m), calls⟩ := by
    simp only [sysCall, List.drop_succ_cons, List.drop_zero, Program.run, Program.step, Option.bind_some,
      notAbove, notBelow, Bool.false_eq_true, if_false]
    rfl
  have index : (pushArgs (checked m)).reg .esi = -4 := by
    rw [pushArgs_reg _ (by decide)]
    simp [checked, Machine.set]
  have scaled : (pushArgs (checked m)).reg .eax = m.reg .eax := by
    rw [pushArgs_reg _ (by decide), checked_reg _ (by decide)]
  rw [compared]
  simp only [sysCall, List.drop_succ_cons, List.drop_zero, Program.run, Program.step, index, scaled,
    linkage_entry callee returnAddress low high, found, Option.map_some, Option.bind_some]
  rfl

/-- Another number: no call is made. -/
theorem linkage_refuses (outside : ¬ (1 ≤ (m.reg .eax).toInt ∧ (m.reg .eax).toInt ≤ 10)) :
    ∃ k m', m'.reg .esp = m.reg .esp ∧ m'.mem = m.mem ∧ m'.reg .eax = -1 ∧
      (linkage callee returnAddress).run (n + k) ⟨sysCall.drop 7, m, calls⟩ =
        (linkage callee returnAddress).run n ⟨sysCall.drop 19, m', calls⟩ := by
  by_cases above : (m.cmp 10 .eax).greater = true
  · refine ⟨5, (m.cmp 10 .eax).set .eax (-1), rfl, rfl, rfl, ?_⟩
    simp only [sysCall, List.drop_succ_cons, List.drop_zero, Program.run, Program.step, Option.bind_some,
      above, if_true]
    rfl
  · have below : ((m.cmp 10 .eax).cmp 1 .eax).less = true := by
      rw [m.cmp_greater] at above
      rw [Machine.cmp_less]
      have ten : (10 : BitVec 32).toInt = 10 := by decide
      have one : (1 : BitVec 32).toInt = 1 := by decide
      have same : (m.cmp 10 .eax).reg .eax = m.reg .eax := rfl
      rw [ten] at above
      rw [one, same]
      omega
    rw [Bool.not_eq_true] at above
    refine ⟨7, ((m.cmp 10 .eax).cmp 1 .eax).set .eax (-1), rfl, rfl, rfl, ?_⟩
    simp only [sysCall, List.drop_succ_cons, List.drop_zero, Program.run, Program.step, Option.bind_some,
      above, below, if_true, Bool.false_eq_true, if_false]
    rfl

end Runs

/-- The argument slots come off the stack, whatever the callee has left there. -/
theorem dropArgs_stacked {left ws : List (BitVec 32)} {m : Machine} (stacked : Stacked (left ++ ws) m)
    (three : left.length = 3) : Stacked ws (dropArgs m) ∧
      (dropArgs m).reg .eax = m.reg .eax ∧ (dropArgs m).reg .esp = m.reg .esp + 12 := by
  obtain ⟨first, second, third, rfl⟩ := List.length_eq_three.mp three
  have words : Stacked (first :: second :: third :: ws) m := stacked
  obtain ⟨words, _⟩ := words.pop (r := .ebx) (by decide)
  obtain ⟨words, _⟩ := words.pop (r := .ecx) (by decide)
  obtain ⟨words, _⟩ := words.pop (r := .edx) (by decide)
  have slots (e : BitVec 32) : e + 4 + 4 + 4 = e + 12 := by bv_omega
  refine ⟨words, ?_, ?_⟩
  · simp [dropArgs]
  · simp only [dropArgs, Machine.pop_esp, ne_eq, reduceCtorEq, not_false_eq_true, slots]

/-- The call finds its return address and the arguments in order on the
stack, and leaves the saved words there. -/
theorem SavedRegs.calls {entry m : Machine} {callee : Machine → Machine} (saved : SavedRegs entry m)
    (obeys : Convention 3 48 callee) (returnAddress : BitVec 32) :
    Stacked [returnAddress, m.reg .ebx, m.reg .ecx, m.reg .edx] (called returnAddress m) ∧
      SavedRegs entry (dropArgs (callee (called returnAddress m))) ∧
        (dropArgs (callee (called returnAddress m))).reg .eax = (callee (called returnAddress m)).reg .eax := by
  have length : (savedWords entry).length = 12 := by simp [savedWords, iretFrame_length]
  have ready : SavedRegs entry (checked m) := saved.same rfl rfl
  have first := ready.stacked.push (by omega) (m.reg .edx)
  have second := first.push (by simp [length]) (m.reg .ecx)
  have third := second.push (by simp [length]) (m.reg .ebx)
  have pushed : pushArgs (checked m) = (((checked m).push (m.reg .edx)).push (m.reg .ecx)).push (m.reg .ebx) := by
    rw [pushArgs, checked_reg _ (by decide), checked_reg _ (by decide), checked_reg _ (by decide)]
  have args : Stacked ([m.reg .ebx, m.reg .ecx, m.reg .edx] ++ savedWords entry) (pushArgs (checked m)) := by
    rw [pushed]
    exact third
  have esp : (pushArgs (checked m)).reg .esp = entry.reg .esp - 28 - 4 - 4 - 4 := by
    rw [pushed, Machine.push_esp, Machine.push_esp, Machine.push_esp, ready.esp]
  obtain ⟨kept, left, three, words⟩ := args.call obeys (by omega) (by simp [length]) returnAddress
  obtain ⟨rest, eax, back⟩ := dropArgs_stacked words three
  have found := args.push (by simp [length]) returnAddress
  have slots (e : BitVec 32) : e - 4 - 4 - 4 + 12 = e := by bv_omega
  refine ⟨fun i inside => ?_, ⟨rest, back.trans (by rw [kept, esp, slots])⟩, eax⟩
  rw [called, found i (by simp at inside ⊢; omega)]
  exact @List.getElem_append_left _ i [returnAddress, m.reg .ebx, m.reg .ecx, m.reg .edx] _ inside _

/-- What holds at the `iret` of a system call. -/
structure Linked (callee : Handler → Machine → Machine) (returnAddress : BitVec 32) (entry : Machine)
    (c : Config LinkLabel Handler) : Prop where
  atIret : c.rest.head? = some .iret
  restored : ∀ r, r ≠ .eax → c.machine.reg r = entry.reg r
  frame : iretFrame c.machine = iretFrame entry
  called : 1 ≤ (entry.reg .eax).toInt → (entry.reg .eax).toInt ≤ 10 → ∃ h found,
    jumpTable[(entry.reg .eax).toNat - 1]? = some h ∧ c.calls = [(h, found)] ∧
      Stacked [returnAddress, entry.reg .ebx, entry.reg .ecx, entry.reg .edx] found ∧
        c.machine.reg .eax = (callee h found).reg .eax
  refused : ¬ (1 ≤ (entry.reg .eax).toInt ∧ (entry.reg .eax).toInt ≤ 10) →
    c.calls = [] ∧ c.machine.reg .eax = -1

theorem iretFrame_of_stacked {m m' : Machine} (stacked : Stacked (iretFrame m) m') : iretFrame m' = iretFrame m := by
  refine List.ext_getElem (by rw [iretFrame_length, iretFrame_length]) fun i inside inside' => ?_
  rw [← stacked i inside']
  simp only [iretFrame, List.getElem_map, List.getElem_range]

/-- Every system call comes to its `iret` with the registers of its caller,
for all register contents and handlers that obey the convention. -/
theorem sys_call_links {callee : Handler → Machine → Machine} (obeys : ∀ h, Convention 3 48 (callee h))
    (returnAddress : BitVec 32) (entry : Machine) :
    ∃ n c, (linkage callee returnAddress).run n ⟨sysCall, entry, []⟩ = some c ∧
      Linked callee returnAddress entry c := by
  have saved := saveRegs_saved entry
  have eax : (saveRegs entry).reg .eax = entry.reg .eax := saveRegs_reg entry (by decide)
  by_cases inTable : 1 ≤ (entry.reg .eax).toInt ∧ (entry.reg .eax).toInt ≤ 10
  · obtain ⟨positive, small⟩ := toNat_of_range inTable.1 inTable.2
    have inside : (entry.reg .eax).toNat - 1 < jumpTable.length := by
      change _ < 10
      omega
    have found : jumpTable[(entry.reg .eax).toNat - 1]? = some jumpTable[(entry.reg .eax).toNat - 1] :=
      List.getElem?_eq_getElem inside
    generalize jumpTable[(entry.reg .eax).toNat - 1] = h at found
    obtain ⟨args, after, result⟩ := saved.calls (obeys h) returnAddress
    rw [saveRegs_reg entry (by decide), saveRegs_reg entry (by decide), saveRegs_reg entry (by decide)] at args
    obtain ⟨restored, kept, frame⟩ := after.restores
    refine ⟨9 + 12 + 7, ⟨sysCall.drop 27, restoreRegs (dropArgs (callee h (called returnAddress (saveRegs entry)))),
      [(h, called returnAddress (saveRegs entry))]⟩, ?_, ?_⟩
    · rw [linkage_enters, linkage_calls callee returnAddress (saveRegs entry) [] 9 (by rw [eax]; exact inTable.1)
        (by rw [eax]; exact inTable.2) (by rw [eax]; exact found)]
      exact linkage_leaves callee returnAddress _ _ 0
    · exact ⟨rfl, restored, iretFrame_of_stacked frame,
        fun _ _ => ⟨h, _, found, rfl, args, kept.trans result⟩, fun outside => absurd inTable outside⟩
  · obtain ⟨k, m, esp, mem, refusal, runs⟩ := linkage_refuses callee returnAddress (saveRegs entry) [] 9
      (by rw [eax]; exact inTable)
    obtain ⟨restored, kept, frame⟩ := (saved.same esp mem).restores
    refine ⟨9 + k + 7, ⟨sysCall.drop 27, restoreRegs m, []⟩, ?_, ?_⟩
    · rw [linkage_enters, runs]
      exact linkage_leaves callee returnAddress _ _ 0
    · exact ⟨rfl, restored, iretFrame_of_stacked frame, fun low high => absurd ⟨low, high⟩ inTable,
        fun _ => ⟨rfl, kept.trans refusal⟩⟩

/-- A callee that returns its second argument. -/
def secondArgument (m : Machine) : Machine :=
  (m.set .eax (load m.mem (m.reg .esp + 8))).set .esp (m.reg .esp + 4)

theorem secondArgument_obeys : Convention 3 48 secondArgument where
  saved m r member := by
    simp only [List.mem_cons, List.not_mem_nil, or_false] at member
    rcases member with rfl | rfl | rfl | rfl <;> simp [secondArgument, Machine.set]
  returns m := by simp [secondArgument, Machine.set]
  frame _ _ _ := rfl

/-- The call of `sys_read` with some registers. -/
theorem sys_call_links_sample : ∃ n c, (linkage (fun _ => secondArgument) 0x400000).run n
    ⟨sysCall, ⟨fun r => if r = .eax then 3 else 7, fun _ => 0, false, false, false⟩, []⟩ = some c ∧
      Linked (fun _ => secondArgument) 0x400000
        ⟨fun r => if r = .eax then 3 else 7, fun _ => 0, false, false, false⟩ c :=
  sys_call_links (fun _ => secondArgument_obeys) _ _

end UnixLite
