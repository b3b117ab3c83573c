import UnixLite.CommandLine

namespace UnixLite

open Store

/-- An array of characters with the indices it was written at, the newest first. -/
structure Buffer where
  cells : Nat → UInt8
  written : List Nat

namespace Buffer

def set (b : Buffer) (i : Nat) (c : UInt8) : Buffer := ⟨Function.update b.cells i c, i :: b.written⟩

theorem set_other (b : Buffer) {i x : Nat} (c : UInt8) (other : x ≠ i) :
    (b.set i c).cells x = b.cells x := by
  simp [set, other]

/-- Characters written one after the other from `i` on. -/
def store (b : Buffer) (i : Nat) : List UInt8 → Buffer
  | [] => b
  | c :: cs => (b.set i c).store (i + 1) cs

theorem store_append (b : Buffer) (i : Nat) (cs ds : List UInt8) :
    b.store i (cs ++ ds) = (b.store i cs).store (i + cs.length) ds := by
  induction cs generalizing b i with
  | nil => rfl
  | cons c cs ih =>
    rw [List.cons_append, store, ih, List.length_cons, Nat.add_right_comm, Nat.add_assoc]
    rfl

theorem mem_store_written {b : Buffer} {i j : Nat} {cs : List UInt8} :
    j ∈ (b.store i cs).written ↔ j ∈ b.written ∨ (i ≤ j ∧ j < i + cs.length) := by
  induction cs generalizing b i with
  | nil =>
    simp only [store, List.length_nil]
    constructor
    · exact Or.inl
    · exact fun member => member.resolve_right (by omega)
  | cons c cs ih =>
    simp only [store, ih, set, List.mem_cons, List.length_cons]
    constructor
    · rintro ((rfl | old) | inside)
      · exact Or.inr (by omega)
      · exact Or.inl old
      · exact Or.inr (by omega)
    · rintro (old | inside)
      · exact Or.inl (Or.inr old)
      · by_cases first : j = i
        · exact Or.inl (Or.inl first)
        · exact Or.inr (by omega)

theorem store_cells (b : Buffer) (i : Nat) (cs : List UInt8) :
    (b.store i cs).cells = storeList b.cells i cs := by
  induction cs generalizing b i with
  | nil => exact (storeList_nil b.cells i).symm
  | cons c cs ih =>
    rw [store, ih]
    funext x
    rcases Nat.lt_trichotomy x i with before | here | behind
    · rw [storeList_before (by omega), storeList_before before, b.set_other c (by omega)]
    · subst here
      rw [storeList_before (by omega)]
      simp [storeList, set]
    · have cell : x - i = (x - (i + 1)) + 1 := by omega
      have other : (b.set i c).cells x = b.cells x := b.set_other c (by omega)
      simp only [storeList, if_pos (show i + 1 ≤ x by omega), if_pos behind.le, cell,
        List.getElem?_cons_succ, other]

end Buffer

/-- The loop that fills `f_cmd`, from index `i` on: the array and the two
indices it leaves. -/
def fillName (command : Nat → UInt8) (commandLen : Nat) : Nat → Nat → Nat → Buffer → Buffer × Nat × Nat
  | 0, i, fIdx, b => (b, i, fIdx)
  | n + 1, i, fIdx, b =>
    if fIdx < commandLen then
      if command fIdx = 32 ∨ command fIdx = 10 ∨ command fIdx = 0 then (b, i, fIdx)
      else fillName command commandLen n (i + 1) (fIdx + 1) (b.set i (command fIdx))
    else (b, i, fIdx)

/-- The loop that fills `cmd_args`. -/
def fillArgs (command : Nat → UInt8) (commandLen : Nat) : Nat → Nat → Nat → Buffer → Buffer × Nat
  | 0, i, _, b => (b, i)
  | n + 1, i, fIdx, b =>
    if fIdx < commandLen then
      if command fIdx = 0 then (b, i)
      else fillArgs command commandLen n (i + 1) (fIdx + 1) (b.set i (command fIdx))
    else (b, i)

/-- The parsing of `sys_execute` on its arrays `f_cmd` and `cmd_args`, which
hold anything before. -/
def parseBuffers (command fCmd cmdArgs : Nat → UInt8) : Buffer × Buffer :=
  let commandLen := strlen command
  let fIdx := skipBlanks command commandLen 0
  let name := fillName command commandLen 128 0 fIdx ⟨fCmd, []⟩
  let args := fillArgs command commandLen 128 0 (name.2.2 + 1) ⟨cmdArgs, []⟩
  (name.1.set name.2.1 0, args.1.set args.2 0)

/-- The loop that fills `cur_pcb->cmd_args`, with `n` characters left. -/
def fillPcbArgs (cmdArgs : Nat → UInt8) : Nat → Nat → Buffer → Buffer × Nat
  | 0, i, b => (b, i)
  | n + 1, i, b => fillPcbArgs cmdArgs n (i + 1) (b.set i (cmdArgs i))

/-- The arguments copied to the PCB. -/
def storePcbArgs (cmdArgs pcbArgs : Nat → UInt8) : Buffer :=
  let args := fillPcbArgs cmdArgs (strlen cmdArgs) 0 ⟨pcbArgs, []⟩
  args.1.set args.2 0

theorem fillName_eq (command : Nat → UInt8) (commandLen n i fIdx : Nat) (b : Buffer) :
    fillName command commandLen n i fIdx b =
      (b.store i (takeName command commandLen n fIdx).1,
        i + (takeName command commandLen n fIdx).1.length, (takeName command commandLen n fIdx).2) := by
  induction n generalizing i fIdx b with
  | zero => rfl
  | succ n ih =>
    unfold fillName takeName
    split
    · split
      · rfl
      · rw [ih]
        simp only [Buffer.store, List.length_cons, Prod.mk.injEq, true_and, and_true]
        omega
    · rfl

theorem fillArgs_eq (command : Nat → UInt8) (commandLen n i fIdx : Nat) (b : Buffer) :
    fillArgs command commandLen n i fIdx b =
      (b.store i (takeArgs command commandLen n fIdx),
        i + (takeArgs command commandLen n fIdx).length) := by
  induction n generalizing i fIdx b with
  | zero => rfl
  | succ n ih =>
    unfold fillArgs takeArgs
    split
    · split
      · rfl
      · rw [ih]
        simp only [Buffer.store, List.length_cons, Prod.mk.injEq, true_and]
        omega
    · rfl

/-- The arrays hold the two strings that the parser is modelled by, each with
its NUL. -/
theorem parseBuffers_eq (command fCmd cmdArgs : Nat → UInt8) : parseBuffers command fCmd cmdArgs =
    (Buffer.store ⟨fCmd, []⟩ 0 ((parseCommand command).1 ++ [0]),
      Buffer.store ⟨cmdArgs, []⟩ 0 ((parseCommand command).2 ++ [0])) := by
  simp only [parseBuffers, parseCommand, fillName_eq, fillArgs_eq, Buffer.store_append, Nat.zero_add]
  rfl

theorem fillPcbArgs_eq (cmdArgs : Nat → UInt8) (n i : Nat) (b : Buffer) :
    fillPcbArgs cmdArgs n i b = (b.store i ((List.range' i n).map cmdArgs), i + n) := by
  induction n generalizing i b with
  | zero => rfl
  | succ n ih =>
    rw [fillPcbArgs, ih, List.range'_succ, List.map_cons, Buffer.store, Nat.add_right_comm, Nat.add_assoc]

theorem storePcbArgs_eq (cmdArgs pcbArgs : Nat → UInt8) :
    storePcbArgs cmdArgs pcbArgs = Buffer.store ⟨pcbArgs, []⟩ 0 (stringAt cmdArgs ++ [0]) := by
  rw [Buffer.store_append, stringAt_length, storePcbArgs, fillPcbArgs_eq, stringAt,
    List.range_eq_range', Nat.zero_add]
  rfl

namespace Buffer

/-- The indices written for a string with its NUL. -/
theorem mem_written_string {cells : Nat → UInt8} {cs : List UInt8} {i : Nat} :
    i ∈ (Buffer.store ⟨cells, []⟩ 0 (cs ++ [0])).written ↔ i ≤ cs.length := by
  rw [mem_store_written, List.length_append, List.length_singleton]
  constructor
  · rintro (none | inside)
    · cases none
    · omega
  · intro inside
    exact Or.inr (by omega)

theorem ends_string (cells : Nat → UInt8) (cs : List UInt8) :
    (Buffer.store ⟨cells, []⟩ 0 (cs ++ [0])).cells cs.length = 0 := by
  rw [store_cells]
  simp [storeList]

end Buffer

/-- The array of a string that was stored at its start, with its NUL. -/
theorem Buffer.holds_string (cells : Nat → UInt8) {cs : List UInt8} (text : 0 ∉ cs)
    (short : cs.length < 2 ^ 32) : stringAt (Buffer.store ⟨cells, []⟩ 0 (cs ++ [0])).cells = cs := by
  have char (i : Nat) (inside : i < (cs ++ [0]).length) :
      (Buffer.store ⟨cells, []⟩ 0 (cs ++ [0])).cells i = (cs ++ [0])[i] := by
    have stored := @storeList_within _ cells 0 i (cs ++ [0]) inside
    rw [Nat.zero_add] at stored
    rw [Buffer.store_cells]
    exact stored
  have whole : (cs ++ [0]).length = cs.length + 1 := by rw [List.length_append, List.length_singleton]
  have length : strlen (Buffer.store ⟨cells, []⟩ 0 (cs ++ [0])).cells = cs.length := by
    refine strlen_eq (by omega) (fun i inside => ?_) ?_
    · rw [char i (by omega), List.getElem_append_left inside]
      intro zero
      exact text (zero ▸ List.getElem_mem inside)
    · rw [char _ (by omega)]
      simp
  refine List.ext_getElem (by rw [stringAt_length, length]) fun i inside within => ?_
  simp only [stringAt, List.getElem_map, List.getElem_range, char i (by omega),
    List.getElem_append_left within]

theorem parseCommand_text (command : Nat → UInt8) :
    0 ∉ (parseCommand command).1 ∧ 0 ∉ (parseCommand command).2 := by
  rw [parseCommand_split]
  refine ⟨fun member => ?_, fun member => ?_⟩
  · have inRest := List.mem_of_mem_take ((List.takeWhile_sublist inName).mem member)
    exact stringAt_text command ((List.dropWhile_sublist isBlank).mem inRest)
  · have inRest := List.mem_of_mem_drop (List.mem_of_mem_take member)
    exact stringAt_text command ((List.dropWhile_sublist isBlank).mem inRest)

/-- The arguments that the PCB of a new process is given by the model are
those that the loop stores. -/
theorem newPcb_cmdArgs (k : Kernel) (command cmdArgs : Nat → UInt8) (fCmd : Nat → UInt8) (regs : Regs) :
    (k.newPcb (parseCommand command).2 regs).cmdArgs =
      (storePcbArgs (parseBuffers command fCmd cmdArgs).2.cells k.curPcb.cmdArgs).cells := by
  have short := Kernel.parseCommand_args command
  have text := (parseCommand_text command).2
  generalize args : (parseCommand command).2 = cs at short text
  have held := Buffer.holds_string cmdArgs text (by omega)
  have length : strlen (cString cs) = cs.length := strlen_cString text (by omega)
  rw [storePcbArgs_eq, parseBuffers_eq, args, held, Buffer.store_cells]
  funext x
  simp only [Kernel.newPcb, length]
  rcases Nat.lt_trichotomy x cs.length with before | here | behind
  · rw [Function.update_of_ne (by omega), copyLoop_apply, if_pos before, cString_inside before]
    simp [storeList, List.getElem?_append_left before, before]
  · subst here
    simp [storeList]
  · rw [Function.update_of_ne (by omega), copyLoop_apply, if_neg (by omega)]
    have stored := @storeList_after _ k.curPcb.cmdArgs 0 x (cs ++ [0]) (by simp; omega)
    exact stored.symm

/-- The parser writes inside its arrays, `f_cmd` of 129 bytes, `cmd_args` of 128
and that of the PCB of 128, and ends both of its strings there. -/
structure ParsesInside (command fCmd cmdArgs pcbArgs : Nat → UInt8) : Prop where
  name : ∀ i ∈ (parseBuffers command fCmd cmdArgs).1.written, i < 129
  nameEnds : ∃ i, i < 129 ∧ (parseBuffers command fCmd cmdArgs).1.cells i = 0
  args : ∀ i ∈ (parseBuffers command fCmd cmdArgs).2.written, i < 128
  argsEnd : ∃ i, i < 128 ∧ (parseBuffers command fCmd cmdArgs).2.cells i = 0
  pcbArgs : ∀ i ∈ (storePcbArgs (parseBuffers command fCmd cmdArgs).2.cells pcbArgs).written, i < 128

/-- The parser stays inside its arrays exactly when the argument part of the
command is shorter than `cmd_args`. -/
theorem command_parsing (command fCmd cmdArgs pcbArgs : Nat → UInt8) :
    ParsesInside command fCmd cmdArgs pcbArgs ↔ (argumentPart (stringAt command)).length < 128 := by
  have nameLength : (parseCommand command).1.length ≤ 128 := by
    rw [parseCommand_split]
    have shorter := (List.takeWhile_sublist (l := ((stringAt command).dropWhile isBlank).take 128)
      inName).length_le
    exact shorter.trans (List.length_take_le 128 _)
  have argsLength : (parseCommand command).2.length =
      min 128 (argumentPart (stringAt command)).length := by
    rw [parseCommand_split, List.length_take]
  have text := (parseCommand_text command).2
  constructor
  · intro inside
    have last := inside.args (parseCommand command).2.length (by
      rw [parseBuffers_eq]
      exact Buffer.mem_written_string.mpr le_rfl)
    omega
  · intro short
    constructor
    · intro i member
      rw [parseBuffers_eq] at member
      have below := Buffer.mem_written_string.mp member
      omega
    · refine ⟨(parseCommand command).1.length, by omega, ?_⟩
      rw [parseBuffers_eq]
      exact Buffer.ends_string fCmd _
    · intro i member
      rw [parseBuffers_eq] at member
      have below := Buffer.mem_written_string.mp member
      omega
    · refine ⟨(parseCommand command).2.length, by omega, ?_⟩
      rw [parseBuffers_eq]
      exact Buffer.ends_string cmdArgs _
    · intro i member
      rw [parseBuffers_eq, storePcbArgs_eq, Buffer.holds_string cmdArgs text (by omega)] at member
      have below := Buffer.mem_written_string.mp member
      omega

/-- A name, a blank and 128 more characters: the NUL of `cmd_args` goes behind its end. -/
theorem command_parsing_overrun :
    128 ∈ (parseBuffers (cString (97 :: 32 :: List.replicate 128 120)) (fun _ => 0) fun _ => 0).2.written := by
  have text : (0 : UInt8) ∉ 97 :: 32 :: List.replicate 128 120 := by simp
  have split (rest : List UInt8) : argumentPart (97 :: 32 :: rest) = rest := by
    simp [argumentPart, commandName, isBlank, inName]
  have args : (parseCommand (cString (97 :: 32 :: List.replicate 128 120))).2.length = 128 := by
    rw [parseCommand_split, stringAt_cString text (by simp), split, List.length_take, List.length_replicate]
    rfl
  rw [parseBuffers_eq]
  exact Buffer.mem_written_string.mpr args.ge

end UnixLite
