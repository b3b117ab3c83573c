import UnixLite.Program

namespace UnixLite

def isBlank (c : UInt8) : Bool := c == 32

/-- The characters that do not end the name of a command. -/
def inName (c : UInt8) : Bool := c != 32 && c != 10

/-- A command's name: what comes after its leading blanks, at most 128
characters of it, up to a blank or a newline. -/
def commandName (command : List UInt8) : List UInt8 :=
  ((command.dropWhile isBlank).take 128).takeWhile inName

/-- The rest of a command behind its name and one more character. -/
def argumentPart (command : List UInt8) : List UInt8 :=
  (command.dropWhile isBlank).drop ((commandName command).length + 1)

theorem skipBlanks_eq {command : Nat → UInt8} {n fIdx : Nat} (room : fIdx + n = strlen command) :
    (stringAt command).drop (skipBlanks command n fIdx) =
      ((stringAt command).drop fIdx).dropWhile isBlank := by
  induction n generalizing fIdx with
  | zero =>
    have ended : (stringAt command).drop fIdx = [] :=
      List.drop_eq_nil_of_le (by rw [stringAt_length]; omega)
    simp only [skipBlanks, ended, List.dropWhile_nil]
  | succ n ih =>
    rw [stringAt_drop (by omega : fIdx < strlen command)]
    by_cases blank : command fIdx = 32
    · have goesOn : command fIdx = 32 ∧ command fIdx ≠ 0 := ⟨blank, strlen_chars (by omega)⟩
      rw [skipBlanks, if_pos goesOn, ih (by omega), List.dropWhile_cons_of_pos (by simp [isBlank, blank])]
    · rw [skipBlanks, if_neg fun both => blank both.1, stringAt_drop (by omega),
        List.dropWhile_cons_of_neg (by simp [isBlank, blank])]

theorem takeName_eq {command : Nat → UInt8} (n fIdx : Nat) :
    takeName command (strlen command) n fIdx =
      ((((stringAt command).drop fIdx).take n).takeWhile inName,
        fIdx + ((((stringAt command).drop fIdx).take n).takeWhile inName).length) := by
  induction n generalizing fIdx with
  | zero => simp [takeName]
  | succ n ih =>
    unfold takeName
    by_cases inside : fIdx < strlen command
    · rw [if_pos inside, stringAt_drop inside, List.take_succ_cons]
      by_cases ends : command fIdx = 32 ∨ command fIdx = 10 ∨ command fIdx = 0
      · have stop : ¬ inName (command fIdx) = true := by
          rcases ends with blank | newline | zero
          · simp [inName, blank]
          · simp [inName, newline]
          · exact absurd zero (strlen_chars inside)
        rw [if_pos ends, List.takeWhile_cons_of_neg stop]
        simp
      · have char : inName (command fIdx) = true := by
          simp only [not_or] at ends
          simp [inName, ends.1, ends.2.1]
        rw [if_neg ends, ih, List.takeWhile_cons_of_pos char]
        simp only [List.length_cons, Prod.mk.injEq, true_and]
        omega
    · have ended : (stringAt command).drop fIdx = [] :=
        List.drop_eq_nil_of_le (by rw [stringAt_length]; omega)
      simp [if_neg inside, ended]

theorem takeArgs_eq {command : Nat → UInt8} (n fIdx : Nat) :
    takeArgs command (strlen command) n fIdx = ((stringAt command).drop fIdx).take n := by
  induction n generalizing fIdx with
  | zero => simp [takeArgs]
  | succ n ih =>
    unfold takeArgs
    by_cases inside : fIdx < strlen command
    · rw [if_pos inside, if_neg (strlen_chars inside), ih, stringAt_drop inside, List.take_succ_cons]
    · have ended : (stringAt command).drop fIdx = [] :=
        List.drop_eq_nil_of_le (by rw [stringAt_length]; omega)
      rw [if_neg inside, ended, List.take_nil]

/-- What the parser makes of a command. -/
theorem parseCommand_split (command : Nat → UInt8) : parseCommand command =
    (commandName (stringAt command), (argumentPart (stringAt command)).take 128) := by
  have skipped := @skipBlanks_eq command (strlen command) 0 (Nat.zero_add _)
  rw [List.drop_zero] at skipped
  simp only [parseCommand, takeName_eq, takeArgs_eq, skipped, commandName, argumentPart, Nat.add_assoc]
  rw [← List.drop_drop, skipped]

end UnixLite
