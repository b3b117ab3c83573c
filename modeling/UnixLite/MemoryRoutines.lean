import UnixLite.Library.InlineAsm
import UnixLite.Terminals

namespace UnixLite
open InlineAsm Regions Store

/-- The labels of `memset` and `memcpy`. -/
inductive BlockLabel
  | top | aligned | bottom | done
  deriving DecidableEq

/-- From the label `bottom` on: `edx` bytes, one after the other. -/
def bottomCode (byte : List Op) : List (Instr BlockLabel) :=
  .label .bottom :: .op (.testl (.reg .edx) .edx) :: .jz .done ::
    (byte.map .op ++ [.op (.subl (.imm 1) .edx), .jmp .bottom, .label .done])

/-- From the label `aligned` on: a quarter of `ecx` as words, the rest of it as bytes. -/
def alignedCode (byte : List Op) (words : Op) : List (Instr BlockLabel) :=
  .label .aligned :: .op (.movwFromDs .edx) :: .op (.movwToEs .edx) :: .op (.movl (.reg .ecx) .edx) ::
    .op (.shrl 2 .ecx) :: .op (.andl (.imm 3) .edx) :: .op .cld :: .op words :: bottomCode byte

/-- The code that `memset` and `memcpy` share, around what they do with a byte
and with words. -/
def blockCode (byte : List Op) (words : Op) : List (Instr BlockLabel) :=
  .label .top :: .op (.testl (.reg .ecx) .ecx) :: .jz .done :: .op (.testl (.imm 3) .edi) :: .jz .aligned ::
    (byte.map .op ++ .op (.subl (.imm 1) .ecx) :: .jmp .top :: alignedCode byte words)

def memsetByte : List Op := [.movbStore .eax .edi, .addl (.imm 1) .edi]

def memcpyByte : List Op :=
  [.movbLoad .esi .eax, .movbStore .eax .edi, .addl (.imm 1) .edi, .addl (.imm 1) .esi]

def memset (fuel : Nat) (cpu : Cpu) (s c n : BitVec 32) : Option (Cpu × BitVec 32) :=
  let c := c &&& 0xFF
  let entry := ((cpu.set .eax (c <<< 24 ||| c <<< 16 ||| c <<< 8 ||| c)).set .edi s).set .ecx n
  (run (blockCode memsetByte .repStosl) fuel entry).map (·, s)

def memcpy (fuel : Nat) (cpu : Cpu) (dest src n : BitVec 32) : Option (Cpu × BitVec 32) :=
  let entry := ((cpu.set .esi src).set .edi dest).set .ecx n
  (run (blockCode memcpyByte .repMovsl) fuel entry).map (·, dest)

/-- The label of `memmove`. -/
inductive MoveLabel
  | go
  deriving DecidableEq

def memmoveCode : List (Instr MoveLabel) :=
  [.op (.movwFromDs .edx), .op (.movwToEs .edx), .op .cld, .op (.cmpl (.reg .edi) .esi), .jae .go,
    .op (.leal (-1) .esi .ecx .esi), .op (.leal (-1) .edi .ecx .edi), .op .std,
    .label .go, .op .repMovsb]

def memmove (fuel : Nat) (cpu : Cpu) (dest src n : BitVec 32) : Option (Cpu × BitVec 32) :=
  let entry := ((cpu.set .edi dest).set .esi src).set .ecx n
  (run memmoveCode fuel entry).map (·, dest)

/-- What a routine works on: not its counts, the flags and `es`. -/
structure View where
  eax : BitVec 32
  esi : BitVec 32
  edi : BitVec 32
  origin : BitVec 32
  data : BitVec 32 → BitVec 8

def view (c : Cpu) : View := ⟨c.reg .eax, c.reg .esi, c.reg .edi, c.origin, c.data⟩

section Views

variable (c : Cpu) (v : BitVec 32)

@[simp]
theorem view_flags (carry : Bool) : view (c.flags v carry) = view c := rfl

@[simp]
theorem view_ecx : view (c.set .ecx v) = view c := by simp [view]

@[simp]
theorem view_edx : view (c.set .edx v) = view c := by simp [view]

@[simp]
theorem view_setEs (selector : BitVec 16) : view (c.setEs selector) = view c := rfl

@[simp]
theorem view_setDirection (down : Bool) : view (c.setDirection down) = view c := rfl

end Views

section Targets

variable (byte : List Op) (words : Op)

theorem target_bottom : target (blockCode byte words) .bottom = bottomCode byte := by
  simp [target, blockCode, alignedCode, bottomCode]

theorem target_aligned : target (blockCode byte words) .aligned = alignedCode byte words := by
  simp [target, blockCode, alignedCode, bottomCode]

theorem target_done : target (blockCode byte words) .done = [.label .done] := by
  simp [target, blockCode, alignedCode, bottomCode]

end Targets

/-- What a byte and the words do to `P k`, which says that `k` bytes of `n` are done. -/
structure Advances (byte : List Op) (words : Op) (n : Nat) (P : Nat → View → Prop) : Prop where
  oneByte : ∀ k c, k < n → P k (view c) → P (k + 1) (view (byte.foldl Cpu.exec c))
  counts : ∀ c : Cpu, (byte.foldl Cpu.exec c).reg .ecx = c.reg .ecx ∧ (byte.foldl Cpu.exec c).reg .edx = c.reg .edx
  quarters : ∀ k c, c.es = c.ds → c.direction = false → k + 4 * (c.reg .ecx).toNat ≤ n → P k (view c) →
    P (k + 4 * (c.reg .ecx).toNat) (view (c.exec words))
  rest : ∀ c : Cpu, (c.exec words).reg .edx = c.reg .edx

section Block

variable {byte : List Op} {words : Op} {n k : Nat} {P : Nat → View → Prop} {c : Cpu}

/-- A byte and the countdown behind it, after tests that change flags alone. -/
theorem Advances.once (pieces : Advances byte words n P) (tested : Cpu) {r : I386.Reg} {m : Nat}
    (counter : r = .ecx ∨ r = .edx) (more : (tested.reg r).toNat = m + 1) (done : P k (view tested)) (inside : k < n) :
    P (k + 1) (view ((byte.foldl Cpu.exec tested).exec (.subl (.imm 1) r))) ∧
      (((byte.foldl Cpu.exec tested).exec (.subl (.imm 1) r)).reg r).toNat = m := by
  have once := pieces.oneByte k tested inside done
  have kept : (byte.foldl Cpu.exec tested).reg r = tested.reg r := by
    rcases counter with rfl | rfl
    · exact (pieces.counts tested).1
    · exact (pieces.counts tested).2
  refine ⟨?_, ?_⟩
  · rcases counter with rfl | rfl <;> simpa [Cpu.exec] using once
  · simp only [Cpu.exec, Cpu.flags_reg, Cpu.set_reg_self, Cpu.value_imm, kept]
    bv_omega

theorem Advances.bottom (pieces : Advances byte words n P) (done : P k (view c))
    (left : k + (c.reg .edx).toNat = n) :
    Reaches (blockCode byte words) (bottomCode byte) c fun c' => P n (view c') := by
  obtain ⟨m, count⟩ : ∃ m, (c.reg .edx).toNat = m := ⟨_, rfl⟩
  induction m generalizing k c with
  | zero =>
    refine .label (.testJz (fun _ => ?_) fun more => absurd count more)
    rw [target_done]
    obtain rfl : k = n := by omega
    exact .label (.nil done)
  | succ m ih =>
    obtain ⟨next, smaller⟩ := pieces.once (c.exec (.testl (.reg .edx) .edx)) (.inr rfl) count done (by omega)
    refine .label (.testJz (fun none => by omega) fun _ => .ops (.op (.jmp ?_)))
    rw [target_bottom]
    exact ih (k := k + 1) next (by omega) smaller

/-- What the instructions before the words leave behind. -/
theorem aligned_entry (c : Cpu) : ∃ d, (((((c.exec (.movwFromDs .edx)).exec (.movwToEs .edx)).exec
      (.movl (.reg .ecx) .edx)).exec (.shrl 2 .ecx)).exec (.andl (.imm 3) .edx)).exec .cld = d ∧
    view d = view c ∧ d.es = d.ds ∧ d.direction = false ∧
    (d.reg .ecx).toNat = (c.reg .ecx).toNat / 4 ∧ (d.reg .edx).toNat = (c.reg .ecx).toNat % 4 := by
  refine ⟨_, rfl, ?_, ?_, rfl, ?_, ?_⟩
  · simp [Cpu.exec]
  · simp [Cpu.exec]
  · simp [Cpu.exec, Nat.shiftRight_eq_div_pow]
  · simpa [Cpu.exec] using Nat.and_two_pow_sub_one_eq_mod _ 2

theorem Advances.aligned (pieces : Advances byte words n P) (done : P k (view c))
    (left : k + (c.reg .ecx).toNat = n) :
    Reaches (blockCode byte words) (alignedCode byte words) c fun c' => P n (view c') := by
  obtain ⟨d, entry, same, segments, upwards, quarter, rest⟩ := aligned_entry c
  refine .label (.op (.op (.op (.op (.op (.op (.op ?_)))))))
  rw [entry]
  have done' := pieces.quarters k d segments upwards (by omega) (same ▸ done)
  refine pieces.bottom done' ?_
  rw [pieces.rest, quarter, rest]
  omega

theorem Advances.top (pieces : Advances byte words n P) (done : P k (view c))
    (left : k + (c.reg .ecx).toNat = n) :
    Reaches (blockCode byte words) (blockCode byte words) c fun c' => P n (view c') := by
  obtain ⟨m, count⟩ : ∃ m, (c.reg .ecx).toNat = m := ⟨_, rfl⟩
  induction m generalizing k c with
  | zero =>
    refine .label (.testJz (fun _ => ?_) fun more => absurd count more)
    rw [target_done]
    obtain rfl : k = n := by omega
    exact .label (.nil done)
  | succ m ih =>
    obtain ⟨next, smaller⟩ := pieces.once ((c.exec (.testl (.reg .ecx) .ecx)).exec (.testl (.imm 3) .edi))
      (.inl rfl) count done (by omega)
    refine .label (.testJz (fun none => by omega) fun _ => .op (.jz (fun _ => ?_) fun _ => .ops (.op (.jmp ?_))))
    · rw [target_aligned]
      exact pieces.aligned done left
    · exact ih (k := k + 1) next (by omega) smaller

end Block

theorem memsetByte_view (c : Cpu) : view (memsetByte.foldl Cpu.exec c) =
    { view c with
      edi := c.reg .edi + 1
      data := Function.update c.data (c.reg .edi) ((c.reg .eax).extractLsb' 0 8) } := by
  simp [memsetByte, Cpu.exec, view]

theorem memcpyByte_view (c : Cpu) : view (memcpyByte.foldl Cpu.exec c) =
    { view c with
      eax := (c.reg .eax).extractLsb' 8 24 ++ c.data (c.reg .esi)
      esi := c.reg .esi + 1
      edi := c.reg .edi + 1
      data := Function.update c.data (c.reg .edi) (c.data (c.reg .esi)) } := by
  simp [memcpyByte, Cpu.exec, view]

/-- The first `k` bytes from `dest` on are those of `f`, the others as they were at `entry`. -/
structure Progress (entry : Cpu) (dest : BitVec 32) (f : Nat → BitVec 8) (k : Nat) (v : View) : Prop where
  edi : v.edi = dest + BitVec.ofNat 32 k
  origin : v.origin = entry.origin
  data : v.data = written entry.data dest f 0 k

section Steps

variable {entry : Cpu} {dest : BitVec 32} {f : Nat → BitVec 8} {k : Nat} {v v' : View}

theorem place_add (a : BitVec 32) (k m : Nat) : a + BitVec.ofNat 32 k + BitVec.ofNat 32 m = a + BitVec.ofNat 32 (k + m) := by
  rw [BitVec.ofNat_add, BitVec.add_assoc]

theorem Progress.byte (progress : Progress entry dest f k v) (small : k < 2 ^ 32) (edi : v'.edi = v.edi + 1)
    (origin : v'.origin = v.origin) (data : v'.data = Function.update v.data v.edi (f k)) :
    Progress entry dest f (k + 1) v' where
  edi := by
    rw [edi, progress.edi]
    exact place_add dest k 1
  origin := origin.trans progress.origin
  data := by
    rw [data, progress.data, progress.edi]
    exact update_end entry.data dest f (Nat.zero_le k) small

theorem Progress.word {w : BitVec 32} (progress : Progress entry dest f k v) (small : k + 4 ≤ 2 ^ 32)
    (bytes : ∀ i < 4, w.extractLsb' (8 * i) 8 = f (k + i)) (edi : v'.edi = v.edi + 4)
    (origin : v'.origin = v.origin) (data : v'.data = I386.store v.data v.edi w) :
    Progress entry dest f (k + 4) v' where
  edi := by
    rw [edi, progress.edi]
    exact place_add dest k 4
  origin := origin.trans progress.origin
  data := by
    rw [data, progress.data, progress.edi]
    exact store_end entry.data dest w (Nat.zero_le k) small bytes

end Steps

/-- `memset` keeps the word that it stores in `eax`. -/
structure Filling (entry : Cpu) (s : BitVec 32) (b : BitVec 8) (k : Nat) (v : View) : Prop
    extends Progress entry s (fun _ => b) k v where
  eax : ∀ i < 4, v.eax.extractLsb' (8 * i) 8 = b

/-- `memcpy` has read as far as it has written. -/
structure Copying (entry : Cpu) (dest src : BitVec 32) (k : Nat) (v : View) : Prop
    extends Progress entry dest (fun i => entry.data (src + BitVec.ofNat 32 i)) k v where
  esi : v.esi = src + BitVec.ofNat 32 k

theorem stosl_view {c : Cpu} (segments : c.es = c.ds) (upwards : c.direction = false) : view (c.counted Cpu.stosl) =
    { view c with edi := c.reg .edi + 4, data := I386.store c.data (c.reg .edi) (c.reg .eax) } := by
  simp [Cpu.counted, Cpu.stosl, Cpu.advance, view, segments, upwards]

theorem movsl_view {c : Cpu} (segments : c.es = c.ds) (upwards : c.direction = false) : view (c.counted Cpu.movsl) =
    { view c with
      esi := c.reg .esi + 4
      edi := c.reg .edi + 4
      data := I386.store c.data (c.reg .edi) (I386.load c.data (c.reg .esi)) } := by
  simp [Cpu.counted, Cpu.movsl, Cpu.advance, view, segments, upwards]

/-- A round of a string instruction leaves the segments, the direction and `edx` alone. -/
structure Steady (once : Cpu → Cpu) : Prop where
  segments : ∀ c : Cpu, c.es = c.ds → (c.counted once).es = (c.counted once).ds
  direction : ∀ c : Cpu, (c.counted once).direction = c.direction
  edx : ∀ c : Cpu, (c.counted once).reg .edx = c.reg .edx

theorem stosl_steady : Steady Cpu.stosl := by
  constructor <;> intro c <;> simp [Cpu.counted, Cpu.stosl, Cpu.advance]

theorem movsl_steady : Steady Cpu.movsl := by
  constructor <;> intro c <;> simp [Cpu.counted, Cpu.movsl, Cpu.advance]

theorem Steady.rest {once : Cpu → Cpu} (steady : Steady once) (c : Cpu) : (c.rep once).reg .edx = c.reg .edx :=
  c.rep_rounds (fun _ c' => c'.reg .edx = c.reg .edx) rfl rfl fun _ c' _ same => (steady.edx c').trans same

/-- What the view keeps round by round. -/
theorem Steady.rounds {once : Cpu → Cpu} {P : Nat → View → Prop} {down : Bool} {c : Cpu} {n : Nat}
    (steady : Steady once) (segments : c.es = c.ds) (direction : c.direction = down)
    (count : (c.reg .ecx).toNat = n) (start : P 0 (view c))
    (round : ∀ i (c' : Cpu), c'.es = c'.ds → c'.direction = down → i < n → P i (view c') →
      P (i + 1) (view (c'.counted once))) :
    P n (view (c.rep once)) := by
  have rounds := c.rep_rounds (fun i c' => P i (view c') ∧ c'.es = c'.ds ∧ c'.direction = down) count
    ⟨start, segments, direction⟩ fun i c' inside state => by
      obtain ⟨here, es, same⟩ := state
      exact ⟨round i c' es same inside here, steady.segments c' es, (steady.direction c').trans same⟩
  exact rounds.1

theorem filling_advances (entry : Cpu) (s : BitVec 32) (b : BitVec 8) {n : Nat} (small : n ≤ 2 ^ 32) :
    Advances memsetByte .repStosl n (Filling entry s b) where
  oneByte k c inside filling := by
    rw [memsetByte_view]
    have low : (c.reg .eax).extractLsb' 0 8 = b := filling.eax 0 (by omega)
    rw [low]
    exact ⟨filling.toProgress.byte (by omega) rfl rfl rfl, filling.eax⟩
  counts c := by simp [memsetByte, Cpu.exec]
  quarters k c segments upwards inside filling :=
    stosl_steady.rounds (P := fun i => Filling entry s b (k + 4 * i)) segments upwards rfl filling
      fun i c' es direction before filling => by
        rw [stosl_view es direction]
        exact ⟨filling.toProgress.word (by omega) filling.eax rfl rfl rfl, filling.eax⟩
  rest := stosl_steady.rest

section Copying

variable {entry : Cpu} {dest src : BitVec 32} {n k : Nat} {v v' : View}

/-- What is still to copy is as it was. -/
theorem Copying.unread (copying : Copying entry dest src k v) (upwards : Upwards dest src n) {i : Nat} (next : k ≤ i)
    (inside : i < n) : v.data (src + BitVec.ofNat 32 i) = entry.data (src + BitVec.ofNat 32 i) := by
  rw [copying.data]
  exact upwards.unread entry.data inside next _

theorem Copying.byte (copying : Copying entry dest src k v) (upwards : Upwards dest src n) (inside : k < n)
    (small : n ≤ 2 ^ 32) (esi : v'.esi = v.esi + 1) (edi : v'.edi = v.edi + 1) (origin : v'.origin = v.origin)
    (data : v'.data = Function.update v.data v.edi (v.data v.esi)) : Copying entry dest src (k + 1) v' := by
  rw [copying.esi, copying.unread upwards (Nat.le_refl k) inside] at data
  refine ⟨copying.toProgress.byte (by omega) edi origin data, ?_⟩
  rw [esi, copying.esi]
  exact place_add src k 1

theorem Copying.word (copying : Copying entry dest src k v) (upwards : Upwards dest src n) (inside : k + 4 ≤ n)
    (small : n ≤ 2 ^ 32) (esi : v'.esi = v.esi + 4) (edi : v'.edi = v.edi + 4) (origin : v'.origin = v.origin)
    (data : v'.data = I386.store v.data v.edi (I386.load v.data v.esi)) : Copying entry dest src (k + 4) v' := by
  have bytes (i : Nat) (byte : i < 4) :
      (I386.load v.data v.esi).extractLsb' (8 * i) 8 = entry.data (src + BitVec.ofNat 32 (k + i)) := by
    rw [load_byte _ _ byte, copying.esi, place_add]
    exact copying.unread upwards (by omega) (by omega)
  refine ⟨copying.toProgress.word (by omega) bytes edi origin data, ?_⟩
  rw [esi, copying.esi]
  exact place_add src k 4

theorem copying_advances (entry : Cpu) (small : n ≤ 2 ^ 32) (upwards : Upwards dest src n) :
    Advances memcpyByte .repMovsl n (Copying entry dest src) where
  oneByte k c inside copying := by
    rw [memcpyByte_view]
    exact copying.byte upwards inside small rfl rfl rfl rfl
  counts c := by simp [memcpyByte, Cpu.exec]
  quarters k c segments up inside copying :=
    movsl_steady.rounds (P := fun i => Copying entry dest src (k + 4 * i)) segments up rfl copying
      fun i c' es direction before copying => by
        rw [movsl_view es direction]
        exact copying.word upwards (by omega) small rfl rfl rfl rfl
  rest := movsl_steady.rest

end Copying

/-- From `c` to `c'` the `n` bytes from `a` on become those of `f`, and no other byte changes. -/
structure Writes (c c' : Cpu) (a : BitVec 32) (n : Nat) (f : Nat → BitVec 8) : Prop where
  origin : c'.origin = c.origin
  inside : ∀ i < n, c'.data (a + BitVec.ofNat 32 i) = f i
  outside : ∀ x, (∀ i < n, x ≠ a + BitVec.ofNat 32 i) → c'.data x = c.data x

theorem Writes.of_written {c c' : Cpu} {a : BitVec 32} {n : Nat} {f : Nat → BitVec 8} (small : n ≤ 2 ^ 32)
    (origin : c'.origin = c.origin) (data : c'.data = written c.data a f 0 n) : Writes c c' a n f where
  origin := origin
  inside i before := by
    rw [data]
    exact written_inside c.data a f (Nat.zero_le i) before (by omega)
  outside x other := by
    rw [data]
    refine written_outside c.data a f (.inr ?_)
    by_contra within
    exact other _ (by omega) (add_behind a x).symm

/-- A call ends and returns its destination. The `n` bytes from there on are
those of `f`, as the byte by byte version leaves them, and no other byte changes. -/
def Leaves (routine : Nat → Option (Cpu × BitVec 32)) (cpu : Cpu) (dest n : BitVec 32) (f : Nat → BitVec 8)
    (bytewise : BitVec 32 → BitVec 8) : Prop :=
  ∃ cpu', (∃ enough, ∀ fuel ≥ enough, routine fuel = some (cpu', dest)) ∧ Writes cpu cpu' dest n.toNat f ∧
    cpu'.data = bytewise

theorem leaves_of_reaches {ℓ : Type} [DecidableEq ℓ] {code : List (Instr ℓ)} {cpu entry : Cpu} {dest n : BitVec 32}
    {f : Nat → BitVec 8} {bytewise : BitVec 32 → BitVec 8}
    (reaches : Reaches code code entry fun c' =>
      c'.origin = cpu.origin ∧ c'.data = written cpu.data dest f 0 n.toNat)
    (same : bytewise = written cpu.data dest f 0 n.toNat) :
    Leaves (fun fuel => (run code fuel entry).map (·, dest)) cpu dest n f bytewise := by
  obtain ⟨cpu', holds, enough, ended⟩ := reaches.run
  refine ⟨cpu', ⟨enough, fun fuel more => ?_⟩, .of_written (Nat.le_of_lt n.isLt) holds.1 holds.2, ?_⟩
  · exact congrArg (Option.map (·, dest)) (ended fuel more)
  · rw [same]
    exact holds.2

section Routines

variable (cpu : Cpu)

theorem memset_leaves (s c n : BitVec 32) : Leaves (memset · cpu s c n) cpu s n (fun _ => c.setWidth 8)
    (fill cpu.data s (c.setWidth 8) n.toNat) := by
  let word := (c &&& 0xFF) <<< 24 ||| (c &&& 0xFF) <<< 16 ||| (c &&& 0xFF) <<< 8 ||| (c &&& 0xFF)
  let entry := ((cpu.set .eax word).set .edi s).set .ecx n
  have small : n.toNat ≤ 2 ^ 32 := Nat.le_of_lt n.isLt
  have bytes (i : Nat) (byte : i < 4) : word.extractLsb' (8 * i) 8 = c.setWidth 8 := by
    have masked := low_byte c
    simp only [word, masked]
    exact repeated_byte _ byte
  have start : Filling cpu s (c.setWidth 8) 0 (view entry) :=
    { edi := by simp [entry, view]
      origin := rfl
      data := (written_empty _ _ _ _).symm
      eax := by simpa [entry, view] using bytes }
  have counter : 0 + (entry.reg .ecx).toNat = n.toNat := by simp [entry]
  have filled := (filling_advances cpu s (c.setWidth 8) small).top start counter
  exact leaves_of_reaches (filled.imp fun _ filling => ⟨filling.origin, filling.data⟩) (fill_written _ _ _ small)

/-- `memcpy` is right wherever a copy upwards is, also between ranges that overlap. -/
theorem memcpy_leaves {dest src n : BitVec 32} (upwards : Upwards dest src n.toNat) :
    Leaves (memcpy · cpu dest src n) cpu dest n (fun i => cpu.data (src + BitVec.ofNat 32 i))
      (copyUp cpu.data dest src n.toNat) := by
  let entry := ((cpu.set .esi src).set .edi dest).set .ecx n
  have small : n.toNat ≤ 2 ^ 32 := Nat.le_of_lt n.isLt
  have start : Copying cpu dest src 0 (view entry) :=
    { edi := by simp [entry, view]
      origin := rfl
      data := (written_empty _ _ _ _).symm
      esi := by simp [entry, view] }
  have counter : 0 + (entry.reg .ecx).toNat = n.toNat := by simp [entry]
  have copied := (copying_advances cpu small upwards).top start counter
  exact leaves_of_reaches (copied.imp fun _ copying => ⟨copying.origin, copying.data⟩) (copyUp_written _ upwards small)

end Routines

/-- `memmove` downwards, with `i` bytes of `n` done. -/
structure Receding (entry : Cpu) (dest src : BitVec 32) (n i : Nat) (v : View) : Prop where
  edi : v.edi = dest + BitVec.ofNat 32 (n - i) - 1
  esi : v.esi = src + BitVec.ofNat 32 (n - i) - 1
  origin : v.origin = entry.origin
  data : v.data = written entry.data dest (fun i => entry.data (src + BitVec.ofNat 32 i)) (n - i) n

section Move

variable {c : Cpu} {entry : Cpu} {dest src : BitVec 32} {n i : Nat}

theorem movsb_view (segments : c.es = c.ds) : view (c.counted Cpu.movsb) =
    { view c with
      esi := if c.direction then c.reg .esi - 1 else c.reg .esi + 1
      edi := if c.direction then c.reg .edi - 1 else c.reg .edi + 1
      data := Function.update c.data (c.reg .edi) (c.data (c.reg .esi)) } := by
  simp [Cpu.counted, Cpu.movsb, Cpu.advance, view, segments]

theorem movsb_steady : Steady Cpu.movsb := by
  constructor <;> intro c <;> simp [Cpu.counted, Cpu.movsb, Cpu.advance]

theorem Receding.movsb (downwards : Downwards dest src n) (small : n ≤ 2 ^ 32) (inside : i < n)
    (segments : c.es = c.ds) (direction : c.direction = true) (receding : Receding entry dest src n i (view c)) :
    Receding entry dest src n (i + 1) (view (c.counted Cpu.movsb)) := by
  obtain ⟨j, place⟩ : ∃ j, n - i = j + 1 := ⟨n - i - 1, by omega⟩
  have next : n - (i + 1) = j := by omega
  have back (a : BitVec 32) : a + BitVec.ofNat 32 (j + 1) - 1 = a + BitVec.ofNat 32 j := by
    rw [BitVec.ofNat_add, ← BitVec.add_assoc]
    exact BitVec.add_sub_cancel _ _
  have edi : c.reg .edi = dest + BitVec.ofNat 32 j := by
    have edi := receding.edi
    rwa [place, back] at edi
  have esi : c.reg .esi = src + BitVec.ofNat 32 j := by
    have esi := receding.esi
    rwa [place, back] at esi
  have data : c.data = written entry.data dest (fun i => entry.data (src + BitVec.ofNat 32 i)) (j + 1) n := by
    have data := receding.data
    rwa [place] at data
  rw [movsb_view segments, direction]
  refine ⟨?_, ?_, receding.origin, ?_⟩
  · rw [next]
    exact congrArg (· - 1) edi
  · rw [next]
    exact congrArg (· - 1) esi
  · rw [next, edi, esi, data, downwards.unread entry.data (by omega)]
    exact update_start entry.data dest _ (by omega) (by omega)

end Move

/-- `memmove` in front of its jump, called with `cpu`. -/
structure Entered (cpu c : Cpu) (dest src n : BitVec 32) : Prop where
  edi : c.reg .edi = dest
  esi : c.reg .esi = src
  ecx : c.reg .ecx = n
  origin : c.origin = cpu.origin
  data : c.data = cpu.data
  segments : c.es = c.ds
  direction : c.direction = false
  carry : c.carry = true ↔ src.toNat < dest.toNat

theorem move_entry (cpu : Cpu) (dest src n : BitVec 32) :
    Entered cpu (((((((cpu.set .edi dest).set .esi src).set .ecx n).exec (.movwFromDs .edx)).exec
      (.movwToEs .edx)).exec .cld).exec (.cmpl (.reg .edi) .esi)) dest src n := by
  constructor <;> simp [Cpu.exec, BitVec.usubOverflow]

/-- `leal -1(a, n)` is the last of `n` places from `a` on. -/
theorem last_place (a n : BitVec 32) : -1 + a + n = a + BitVec.ofNat 32 (n.toNat - 0) - 1 := by
  rw [Nat.sub_zero, BitVec.ofNat_toNat, BitVec.setWidth_eq]
  bv_omega

section Directions

variable {cpu c : Cpu} {dest src n : BitVec 32}

/-- The jump is taken, and the copy goes upwards. -/
theorem Entered.up (entered : Entered cpu c dest src n) (upwards : Upwards dest src n.toNat) :
    Copying cpu dest src n.toNat (view (c.rep Cpu.movsb)) := by
  have start : Copying cpu dest src 0 (view c) :=
    { edi := entered.edi.trans (BitVec.add_zero dest).symm
      esi := entered.esi.trans (BitVec.add_zero src).symm
      origin := entered.origin
      data := entered.data.trans (written_empty _ _ _ _).symm }
  refine movsb_steady.rounds entered.segments entered.direction (congrArg _ entered.ecx) start ?_
  intro i c' es direction inside copying
  rw [movsb_view es, direction]
  exact copying.byte upwards inside (Nat.le_of_lt n.isLt) rfl rfl rfl rfl

/-- The pointers go to the last byte, and the copy goes downwards. -/
theorem Entered.down (entered : Entered cpu c dest src n) (downwards : Downwards dest src n.toNat) :
    Receding cpu dest src n.toNat n.toNat
      (view ((((c.exec (.leal (-1) .esi .ecx .esi)).exec (.leal (-1) .edi .ecx .edi)).exec .std).rep Cpu.movsb)) := by
  generalize lowered : ((c.exec (.leal (-1) .esi .ecx .esi)).exec (.leal (-1) .edi .ecx .edi)).exec .std = d
  have start : Receding cpu dest src n.toNat 0 (view d) := by
    subst lowered
    refine ⟨?_, ?_, entered.origin, entered.data.trans (written_empty _ _ _ _).symm⟩
    · simpa [Cpu.exec, view, entered.edi, entered.ecx] using last_place dest n
    · simpa [Cpu.exec, view, entered.esi, entered.ecx] using last_place src n
  have count : (d.reg .ecx).toNat = n.toNat := by simp [← lowered, Cpu.exec, entered.ecx]
  have segments : d.es = d.ds := by simp [← lowered, Cpu.exec, entered.segments]
  have direction : d.direction = true := by simp [← lowered, Cpu.exec]
  exact movsb_steady.rounds segments direction count start fun i c' es direction inside receding =>
    receding.movsb downwards (Nat.le_of_lt n.isLt) inside es direction

end Directions

theorem target_go : target memmoveCode .go = [.label .go, .op .repMovsb] := rfl

theorem memmove_leaves (cpu : Cpu) {dest src n : BitVec 32} (destFits : dest.toNat + n.toNat ≤ 2 ^ 32)
    (srcFits : src.toNat + n.toNat ≤ 2 ^ 32) :
    Leaves (memmove · cpu dest src n) cpu dest n (fun i => cpu.data (src + BitVec.ofNat 32 i))
      (move cpu.data dest src n.toNat) := by
  have entered := move_entry cpu dest src n
  refine leaves_of_reaches (.op (.op (.op (.op (.jae (fun above => ?_) fun below => ?_)))))
    (move_written _ destFits srcFits)
  · have order : dest.toNat ≤ src.toNat := by
      rw [← Bool.not_eq_true, entered.carry] at above
      omega
    have copying := entered.up (.of_le srcFits order)
    rw [target_go]
    exact .label (.op (.nil ⟨copying.origin, copying.data⟩))
  · have order := entered.carry.mp below
    have receding := entered.down (.of_le destFits srcFits (Nat.le_of_lt order))
    have data := receding.data
    rw [Nat.sub_self] at data
    exact .op (.op (.op (.label (.op (.nil ⟨receding.origin, data⟩)))))

/-- `memset`, `memcpy` between ranges that are apart, and `memmove` between any ranges. -/
theorem memory_routines (cpu : Cpu) :
    (∀ s c n, Leaves (memset · cpu s c n) cpu s n (fun _ => c.setWidth 8) (fill cpu.data s (c.setWidth 8) n.toNat)) ∧
    (∀ dest src n, dest.toNat + n.toNat ≤ 2 ^ 32 → src.toNat + n.toNat ≤ 2 ^ 32 →
      src.toNat + n.toNat ≤ dest.toNat ∨ dest.toNat + n.toNat ≤ src.toNat →
      Leaves (memcpy · cpu dest src n) cpu dest n (fun i => cpu.data (src + BitVec.ofNat 32 i))
        (copyUp cpu.data dest src n.toNat)) ∧
    ∀ dest src n, dest.toNat + n.toNat ≤ 2 ^ 32 → src.toNat + n.toNat ≤ 2 ^ 32 →
      Leaves (memmove · cpu dest src n) cpu dest n (fun i => cpu.data (src + BitVec.ofNat 32 i))
        (move cpu.data dest src n.toNat) := by
  refine ⟨memset_leaves cpu, fun dest src n destFits srcFits apart => ?_, fun dest src n destFits srcFits => ?_⟩
  · exact memcpy_leaves cpu (.of_apart destFits srcFits apart)
  · exact memmove_leaves cpu destFits srcFits

/-- A processor whose memory holds at each address its low byte. -/
def sampleCpu : Cpu :=
  { reg := fun _ => 0
    mem := fun a => a.setWidth 8
    base := fun _ => 0
    ds := 0x18
    es := 0
    zero := false
    carry := false
    direction := true }

theorem memory_routines_sample :
    Leaves (memset · sampleCpu 5 0x141 9) sampleCpu 5 9 (fun _ => 0x41) (fill sampleCpu.data 5 0x41 9) ∧
    Leaves (memcpy · sampleCpu 5 30 9) sampleCpu 5 9 (fun i => sampleCpu.data (30 + BitVec.ofNat 32 i))
      (copyUp sampleCpu.data 5 30 9) ∧
    Leaves (memmove · sampleCpu 5 3 6) sampleCpu 5 6 (fun i => sampleCpu.data (3 + BitVec.ofNat 32 i))
      (move sampleCpu.data 5 3 6) :=
  ⟨(memory_routines sampleCpu).1 5 0x141 9, (memory_routines sampleCpu).2.1 5 30 9 (by decide) (by decide) (by decide),
    (memory_routines sampleCpu).2.2 5 3 6 (by decide) (by decide)⟩

example : (memmove 20 sampleCpu 5 3 6).map (fun r => (List.range 14).map fun i => r.1.data (BitVec.ofNat 32 i)) =
    some [0, 1, 2, 3, 4, 3, 4, 5, 6, 7, 8, 11, 12, 13] := by decide +kernel

/-- The memory of a processor is the one that the kernel's model has. -/
def Mirrors (cpu : Cpu) (mem : Nat → UInt8) : Prop := ∀ a < 2 ^ 32, cpu.data (BitVec.ofNat 32 a) = (mem a).toBitVec

theorem ofNat_place (a : BitVec 32) (i : Nat) : BitVec.ofNat 32 (a.toNat + i) = a + BitVec.ofNat 32 i := by
  rw [BitVec.ofNat_add, BitVec.ofNat_toNat, BitVec.setWidth_eq]

theorem Mirrors.blockCopy {cpu cpu' : Cpu} {mem : Nat → UInt8} {dest src n : BitVec 32} (mirrors : Mirrors cpu mem)
    (destFits : dest.toNat + n.toNat ≤ 2 ^ 32) (srcFits : src.toNat + n.toNat ≤ 2 ^ 32)
    (writes : Writes cpu cpu' dest n.toNat (fun i => cpu.data (src + BitVec.ofNat 32 i))) :
    Mirrors cpu' (blockCopy mem dest.toNat src.toNat n.toNat) := by
  intro a small
  by_cases within : dest.toNat ≤ a ∧ a < dest.toNat + n.toNat
  · obtain ⟨i, rfl⟩ : ∃ i, a = dest.toNat + i := ⟨a - dest.toNat, by omega⟩
    have source := mirrors (src.toNat + i) (by omega)
    rw [blockCopy_inside (by omega), ofNat_place, writes.inside i (by omega), ← ofNat_place, source]
  · rw [blockCopy_outside (by omega), ← mirrors a small]
    refine writes.outside _ fun i before same => within ?_
    have place := congrArg BitVec.toNat same
    rw [BitVec.toNat_ofNat, Nat.mod_eq_of_lt small, toNat_place destFits before] at place
    omega

/-- `memcpy` does to the kernel's memory what a copy of the model does. -/
theorem Mirrors.memcpy {cpu : Cpu} {mem : Nat → UInt8} {dest src n : Nat} (mirrors : Mirrors cpu mem) (small : n < 2 ^ 32)
    (destFits : dest + n ≤ 2 ^ 32) (srcFits : src + n ≤ 2 ^ 32) (apart : src + n ≤ dest ∨ dest + n ≤ src)
    (nonempty : 0 < n) :
    ∃ cpu', Mirrors cpu' (Store.blockCopy mem dest src n) ∧ ∃ enough, ∀ fuel ≥ enough,
      UnixLite.memcpy fuel cpu (BitVec.ofNat 32 dest) (BitVec.ofNat 32 src) (BitVec.ofNat 32 n) =
        some (cpu', BitVec.ofNat 32 dest) := by
  have value (a : Nat) (low : a < 2 ^ 32) : (BitVec.ofNat 32 a).toNat = a := by
    rw [BitVec.toNat_ofNat, Nat.mod_eq_of_lt low]
  have destAt := value dest (by omega)
  have srcAt := value src (by omega)
  have count := value n small
  rw [← count, ← destAt] at destFits
  rw [← count, ← srcAt] at srcFits
  have upwards : Upwards (BitVec.ofNat 32 dest) (BitVec.ofNat 32 src) (BitVec.ofNat 32 n).toNat :=
    .of_apart destFits srcFits (by omega)
  obtain ⟨cpu', ended, writes, -⟩ := memcpy_leaves cpu upwards
  have mirrors' := mirrors.blockCopy destFits srcFits writes
  rw [destAt, srcAt, count] at mirrors'
  exact ⟨cpu', mirrors', ended⟩

/-- The two calls of `memcpy` in `terminal_switch` swap the screens as the kernel's model does. -/
theorem swapScreens_memcpy {k : Kernel} {cpu : Cpu} (mirrors : Mirrors cpu k.mem) (t : Fin 3) :
    ∃ stored shown : Cpu, Mirrors shown (k.swapScreens t).mem ∧ ∃ enough, ∀ fuel ≥ enough,
      memcpy fuel cpu (BitVec.ofNat 32 (termVid k.ts)) (BitVec.ofNat 32 video) 4096 =
          some (stored, BitVec.ofNat 32 (termVid k.ts)) ∧
        memcpy fuel stored (BitVec.ofNat 32 video) (BitVec.ofNat 32 (termVid t)) 4096 =
          some (shown, BitVec.ofNat 32 video) := by
  have low (u : Fin 3) : termVid u + 4096 ≤ 2 ^ 32 := by
    unfold termVid
    omega
  have lowScreen : video + 4096 ≤ 2 ^ 32 := by decide
  obtain ⟨stored, firstMirrors, first, firstEnded⟩ :=
    mirrors.memcpy (by decide) (low k.ts) lowScreen (.inl (video_below k.ts)) (by decide)
  obtain ⟨shown, secondMirrors, second, secondEnded⟩ :=
    firstMirrors.memcpy (by decide) lowScreen (low t) (.inr (video_below t)) (by decide)
  refine ⟨stored, shown, secondMirrors, max first second, fun fuel more => ⟨?_, ?_⟩⟩
  · exact firstEnded fuel (by omega)
  · exact secondEnded fuel (by omega)

end UnixLite
