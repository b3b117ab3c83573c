import Mathlib.Algebra.BigOperators.Group.Finset.Piecewise
import Mathlib.Data.Fintype.Basic
import UnixLite.Library.Run

namespace Nesting

open Transition

/-- An interrupt controller: what it would deliver next, and how the lines in
service change. `δ` is what devices and their drivers do to it. -/
structure Controller (σ δ ι : Type*) [DecidableEq ι] where
  next : σ → Option ι
  take : σ → σ
  finish : σ → ι → σ
  device : σ → δ → σ
  serving : σ → ι → Bool
  keepsOut : ι → ι → Prop
  free : ∀ s n, next s = some n → keepsOut n n ∧ ∀ m, keepsOut m n → serving s m = false
  takes : ∀ s n, next s = some n → serving (take s) = Function.update (serving s) n true
  finishes : ∀ s n, serving (finish s n) = Function.update (serving s) n false
  leaves : ∀ s d, serving (device s d) = serving s

/-- The instructions of a handler that the controller or the interrupt flag
see, and the change to another stack. -/
inductive Op (ι : Type*)
  | cli
  | sti
  | popfl
  | eoi (n : ι)
  | switch
  deriving DecidableEq

/-- A handler that has been entered: for which interrupt, with which flag, and
what it still does. -/
structure Activation (ι : Type*) where
  irq : ι
  saved : Bool
  left : List (Op ι)

/-- A processor with a stack of activations for each of its contexts. -/
structure Machine (σ ι κ : Type*) where
  pic : σ
  flag : Bool
  running : κ
  stack : κ → List (Activation ι)

/-- What happens next. Where there is a choice the label has made it: which way
a handler goes, which context is switched to, and what a program does. -/
inductive Act (δ ι κ : Type*)
  | device (d : δ)
  | deliver (path : List (Op ι))
  | run (target : κ)
  | leave
  | program (flag : Bool) (target : κ)
  deriving DecidableEq

section Steps

variable {σ δ ι κ : Type*} [DecidableEq ι] [DecidableEq κ] (c : Controller σ δ ι)

def Machine.exec (s : Machine σ ι κ) (saved : Bool) (target : κ) : Op ι → Machine σ ι κ
  | .cli => { s with flag := false }
  | .sti => { s with flag := true }
  | .popfl => { s with flag := saved }
  | .eoi n => { s with pic := c.finish s.pic n }
  | .switch => { s with running := target }

/-- The stack of the running context. -/
def Machine.push (s : Machine σ ι κ) (l : List (Activation ι)) : Machine σ ι κ :=
  { s with stack := Function.update s.stack s.running l }

/-- One step. `handlers` are the ways through the handlers, `gate` tells whose
entry clears the flag. A handler that has no instruction left returns to where
interrupts were on; a program changes its context only to another program. -/
def Machine.perform (handlers : ι → List (List (Op ι))) (gate : ι → Bool) (s : Machine σ ι κ) :
    Act δ ι κ → Option (Machine σ ι κ)
  | .device d => some { s with pic := c.device s.pic d }
  | .deliver path =>
    match c.next s.pic with
    | none => none
    | some n =>
      if s.flag = true ∧ path ∈ handlers n then
        some ({ s with pic := c.take s.pic, flag := !gate n }.push (⟨n, !gate n, path⟩ :: s.stack s.running))
      else none
  | .run target =>
    match s.stack s.running with
    | ⟨n, saved, op :: left⟩ :: rest => some ((s.push (⟨n, saved, left⟩ :: rest)).exec c saved target op)
    | _ => none
  | .leave =>
    match s.stack s.running with
    | ⟨_, _, []⟩ :: rest => some ({ s with flag := true }.push rest)
    | _ => none
  | .program flag target =>
    if s.stack s.running = [] ∧ s.stack target = [] then some { s with flag := flag, running := target } else none

end Steps

section Effects

variable {σ δ ι κ : Type*} [DecidableEq ι] [DecidableEq κ] {c : Controller σ δ ι} {handlers : ι → List (List (Op ι))}
  {gate : ι → Bool} {s s' : Machine σ ι κ} {a : Act δ ι κ}

/-- What a step has found and done. -/
inductive Effect (c : Controller σ δ ι) (handlers : ι → List (List (Op ι))) (gate : ι → Bool) (s : Machine σ ι κ) :
    Act δ ι κ → Machine σ ι κ → Prop
  | device (d) : Effect c handlers gate s (.device d) { s with pic := c.device s.pic d }
  | deliver {n path} : s.flag = true → c.next s.pic = some n → path ∈ handlers n →
      Effect c handlers gate s (.deliver path)
        ({ s with pic := c.take s.pic, flag := !gate n }.push (⟨n, !gate n, path⟩ :: s.stack s.running))
  | run {n saved op left rest} (target) : s.stack s.running = ⟨n, saved, op :: left⟩ :: rest →
      Effect c handlers gate s (.run target) ((s.push (⟨n, saved, left⟩ :: rest)).exec c saved target op)
  | leave {n saved rest} : s.stack s.running = ⟨n, saved, []⟩ :: rest →
      Effect c handlers gate s .leave ({ s with flag := true }.push rest)
  | program (flag) {target} : s.stack s.running = [] → s.stack target = [] →
      Effect c handlers gate s (.program flag target) { s with flag := flag, running := target }

theorem perform_effect (done : s.perform c handlers gate a = some s') : Effect c handlers gate s a s' := by
  cases a with
  | device d =>
    cases done
    exact .device d
  | deliver path =>
    simp only [Machine.perform] at done
    split at done
    · cases done
    · rename_i n next
      split at done
      · rename_i both
        cases done
        exact .deliver both.1 next both.2
      · cases done
  | run target =>
    simp only [Machine.perform] at done
    split at done
    · rename_i top
      cases done
      exact .run target top
    · cases done
  | leave =>
    simp only [Machine.perform] at done
    split at done
    · rename_i top
      cases done
      exact .leave top
    · cases done
  | program flag target =>
    simp only [Machine.perform] at done
    split at done
    · rename_i both
      cases done
      exact .program flag both.1 both.2
    · cases done

omit [DecidableEq κ] in
/-- An instruction changes no stack. -/
theorem exec_stack (s : Machine σ ι κ) (saved : Bool) (target : κ) (op : Op ι) :
    (s.exec c saved target op).stack = s.stack := by
  cases op <;> rfl

omit [DecidableEq κ] in
theorem exec_serving (s : Machine σ ι κ) (saved : Bool) (target : κ) (op : Op ι) (n : ι) :
    c.serving (s.exec c saved target op).pic n = if op = .eoi n then false else c.serving s.pic n := by
  cases op with
  | eoi m =>
    simp only [Machine.exec, c.finishes, Function.update_apply, Op.eoi.injEq, eq_comm]
  | cli | sti | popfl | switch => simp [Machine.exec]

/-- What the controller keeps is kept. -/
theorem perform_pic {P : σ → Prop} (took : ∀ p, P p → P (c.take p)) (ended : ∀ p n, P p → P (c.finish p n))
    (came : ∀ p d, P p → P (c.device p d)) (held : P s.pic) (done : s.perform c handlers gate a = some s') :
    P s'.pic := by
  cases perform_effect done with
  | device d => exact came _ d held
  | deliver => exact took _ held
  | run target =>
    rename_i op _ _ _
    cases op with
    | eoi n => exact ended _ n held
    | cli | sti | popfl | switch => exact held
  | leave | program => exact held

/-- Where only some of the ways through the handlers were taken, there need be no others. -/
theorem perform_filter {keep : List (Op ι) → Bool} (kept : ∀ path, a = .deliver path → keep path = true)
    (done : s.perform c handlers gate a = some s') :
    s.perform c (fun n => (handlers n).filter keep) gate a = some s' := by
  cases a with
  | deliver path =>
    simp only [Machine.perform, List.mem_filter, kept path rfl, and_true] at done ⊢
    exact done
  | device | run | leave | program => exact done

end Effects

section Discipline

variable {σ δ ι κ : Type*} [DecidableEq ι] [DecidableEq κ] (c : Controller σ δ ι) (handlers : ι → List (List (Op ι)))

/-- The activation has still to end its interrupt. -/
def Activation.awaits (n : ι) (a : Activation ι) : Prop := a.irq = n ∧ .eoi n ∈ a.left

instance (n : ι) (a : Activation ι) : Decidable (a.awaits n) := inferInstanceAs (Decidable (_ ∧ _))

def pending (n : ι) (l : List (Activation ι)) : Nat := l.countP fun a => decide (a.awaits n)

/-- Every handler of line `n` ends its interrupt once, and no other handler ends it. -/
structure Disciplined (n : ι) : Prop where
  once : ∀ path ∈ handlers n, path.count (.eoi n) = 1
  alone : ∀ m, m ≠ n → ∀ path ∈ handlers m, .eoi n ∉ path

/-- What activations still do is the end of a way through their handler. -/
def Tracked (s : Machine σ ι κ) : Prop := ∀ k, ∀ a ∈ s.stack k, ∃ path ∈ handlers a.irq, a.left <:+ path

variable {c handlers} {gate : ι → Bool} {s s' : Machine σ ι κ} {a : Act δ ι κ} {n : ι}

omit [DecidableEq ι] in
theorem push_stack (s : Machine σ ι κ) (l : List (Activation ι)) (k : κ) :
    (s.push l).stack k = if k = s.running then l else s.stack k := Function.update_apply ..

theorem Tracked.perform (tracked : Tracked handlers s) (done : s.perform c handlers gate a = some s') :
    Tracked handlers s' := by
  have top {l : List (Activation ι)} {s'' : Machine σ ι κ} (stack : s''.stack = (s.push l).stack)
      (fine : ∀ b ∈ l, ∃ path ∈ handlers b.irq, b.left <:+ path) : Tracked handlers s'' := by
    intro k b member
    rw [stack, push_stack] at member
    split at member
    · exact fine b member
    · exact tracked k b member
  cases perform_effect done with
  | device d => exact tracked
  | @deliver m path _ _ known =>
    refine top rfl fun b member => ?_
    rcases List.mem_cons.mp member with rfl | old
    · exact ⟨path, known, List.suffix_rfl⟩
    · exact tracked _ b old
  | @run m saved op left rest target found =>
    refine top (exec_stack _ _ _ _) fun b member => ?_
    rcases List.mem_cons.mp member with rfl | old
    · obtain ⟨path, known, tail⟩ := tracked s.running ⟨m, saved, op :: left⟩ (by rw [found]; exact List.mem_cons_self ..)
      exact ⟨path, known, (List.suffix_cons op left).trans tail⟩
    · exact tracked s.running b (by rw [found]; exact List.mem_cons_of_mem _ old)
  | leave found =>
    exact top rfl fun b member => tracked s.running b (by rw [found]; exact List.mem_cons_of_mem _ member)
  | program flag _ _ => exact tracked

end Discipline

section Accounts

variable {σ δ ι κ : Type*} [DecidableEq ι] [DecidableEq κ] [Fintype κ] {c : Controller σ δ ι}
  {handlers : ι → List (List (Op ι))} {gate : ι → Bool} {s s' : Machine σ ι κ} {a : Act δ ι κ} {n : ι}

/-- The activations on all stacks that have still to end interrupt `n`. -/
def total (n : ι) (s : Machine σ ι κ) : Nat := ∑ k, pending n (s.stack k)

/-- Only the stack of the running context counts for a change. -/
theorem total_push {s'' : Machine σ ι κ} {l : List (Activation ι)} (stack : s''.stack = (s.push l).stack) :
    total n s'' + pending n (s.stack s.running) = total n s + pending n l := by
  have changed : (fun k => pending n (s''.stack k)) =
      Function.update (fun k => pending n (s.stack k)) s.running (pending n l) := by
    funext k
    rw [stack, push_stack, Function.update_apply]
    split <;> rfl
  unfold total
  rw [changed, Finset.sum_update_of_mem (Finset.mem_univ _),
    Finset.sum_eq_add_sum_sdiff_singleton_of_mem (Finset.mem_univ s.running) fun k => pending n (s.stack k)]
  omega

theorem pending_cons (b : Activation ι) (l : List (Activation ι)) :
    pending n (b :: l) = pending n l + if b.awaits n then 1 else 0 := by
  simp [pending, List.countP_cons]

/-- Exactly the line in service has an activation that is still to end it. -/
def Accounted (c : Controller σ δ ι) (n : ι) (s : Machine σ ι κ) : Prop :=
  total n s = if c.serving s.pic n then 1 else 0

/-- Once the end has been told there is no second time. -/
theorem Disciplined.told (disciplined : Disciplined handlers n) {path left : List (Op ι)} (known : path ∈ handlers n)
    (tail : (.eoi n :: left) <:+ path) : .eoi n ∉ left := by
  have once := disciplined.once path known
  have fewer := tail.sublist.count_le (.eoi n)
  rw [List.count_cons_self, once] at fewer
  exact List.count_eq_zero.mp (by omega)

theorem Accounted.perform (disciplined : Disciplined handlers n) (tracked : Tracked handlers s)
    (accounted : Accounted c n s) (done : s.perform c handlers gate a = some s') : Accounted c n s' := by
  unfold Accounted at accounted ⊢
  cases perform_effect done with
  | device d =>
    rw [c.leaves]
    exact accounted
  | @deliver m path on next known =>
    have count : total n ({ s with pic := c.take s.pic, flag := !gate m }.push (⟨m, !gate m, path⟩ :: s.stack s.running)) +
        pending n (s.stack s.running) = total n s + pending n (⟨m, !gate m, path⟩ :: s.stack s.running) := total_push rfl
    rw [pending_cons] at count
    change total n _ = if c.serving (c.take s.pic) n then 1 else 0
    rw [c.takes _ _ next, Function.update_apply]
    by_cases same : n = m
    · subst same
      have member : .eoi n ∈ path := List.one_le_count_iff.mp (disciplined.once path known).ge
      obtain ⟨itself, free⟩ := c.free _ _ next
      rw [free n itself, if_neg (by simp)] at accounted
      rw [if_pos ⟨rfl, member⟩] at count
      simp only [if_true]
      omega
    · rw [if_neg fun awaits => same awaits.1.symm] at count
      rw [if_neg same]
      omega
  | @run m saved op left rest target found =>
    have count := total_push (n := n) (s := s) (exec_stack (c := c) (s.push (⟨m, saved, left⟩ :: rest)) saved target op)
    rw [found, pending_cons, pending_cons] at count
    rw [exec_serving]
    obtain ⟨path, known, tail⟩ := tracked s.running ⟨m, saved, op :: left⟩ (by rw [found]; exact List.mem_cons_self ..)
    by_cases ends : op = .eoi n
    · subst ends
      have own : m = n := by
        by_contra other
        exact disciplined.alone m other path known (tail.subset (List.mem_cons_self ..))
      subst own
      have told := disciplined.told known tail
      rw [if_pos ⟨rfl, List.mem_cons_self ..⟩, if_neg fun awaits => told awaits.2] at count
      have bound : total m s ≤ 1 := by
        rw [accounted]
        split <;> omega
      simp only [if_true, Bool.false_eq_true, if_false]
      omega
    · have same : (Activation.awaits n ⟨m, saved, left⟩ ↔ Activation.awaits n ⟨m, saved, op :: left⟩) := by
        refine and_congr_right fun _ => ?_
        rw [List.mem_cons]
        exact (or_iff_right fun h => ends h.symm).symm
      rw [if_neg ends]
      simp only [same] at count
      change total n _ = if c.serving s.pic n then 1 else 0
      omega
  | @leave m saved rest found =>
    have count : total n ({ s with flag := true }.push rest) + pending n (s.stack s.running) = total n s + pending n rest :=
      total_push rfl
    rw [found, pending_cons, if_neg fun awaits => List.not_mem_nil awaits.2] at count
    change total n _ = if c.serving s.pic n then 1 else 0
    omega
  | program flag _ _ => exact accounted

/-- Line `n` keeps every line out, and its handlers change no stack before they end it. -/
structure Foremost (c : Controller σ δ ι) (handlers : ι → List (List (Op ι))) (n : ι) : Prop where
  blocks : ∀ m, c.keepsOut n m
  stays : ∀ path ∈ handlers n, ∀ left, (.switch :: left) <:+ path → .eoi n ∉ left

/-- If some activation is to end interrupt `n`, it is the one that runs. -/
def Ahead (n : ι) (s : Machine σ ι κ) : Prop :=
  total n s = 0 ∨ ∃ b rest, s.stack s.running = b :: rest ∧ b.awaits n

theorem pending_le_total (s : Machine σ ι κ) (k : κ) : pending n (s.stack k) ≤ total n s := by
  unfold total
  rw [Finset.sum_eq_add_sum_sdiff_singleton_of_mem (Finset.mem_univ k) fun k => pending n (s.stack k)]
  exact Nat.le_add_right _ _

theorem Accounted.serving_of_top (accounted : Accounted c n s) {b : Activation ι} {rest : List (Activation ι)}
    (found : s.stack s.running = b :: rest) (awaits : b.awaits n) : c.serving s.pic n = true := by
  have below := pending_le_total (n := n) s s.running
  rw [found, pending_cons, if_pos awaits] at below
  by_contra out
  rw [Accounted, if_neg out] at accounted
  omega

theorem Ahead.perform (disciplined : Disciplined handlers n) (foremost : Foremost c handlers n)
    (tracked : Tracked handlers s) (accounted : Accounted c n s) (ahead : Ahead n s)
    (done : s.perform c handlers gate a = some s') : Ahead n s' := by
  have after := accounted.perform disciplined tracked done
  unfold Accounted at after
  by_cases serves : c.serving s'.pic n = true
  swap
  · rw [if_neg serves] at after
    exact Or.inl after
  rcases ahead with none | ⟨b, rest, found, awaits⟩
  · have out : ¬ c.serving s.pic n = true := by
      intro busy
      rw [Accounted, if_pos busy] at accounted
      omega
    cases perform_effect done with
    | device d =>
      rw [c.leaves] at serves
      exact absurd serves out
    | @deliver m path on next known =>
      change c.serving (c.take s.pic) n = true at serves
      rw [c.takes _ _ next, Function.update_apply] at serves
      split at serves
      · rename_i same
        subst same
        have member : .eoi n ∈ path := List.one_le_count_iff.mp (disciplined.once path known).ge
        exact Or.inr ⟨_, _, Function.update_self .., rfl, member⟩
      · exact absurd serves out
    | run target found =>
      rw [exec_serving] at serves
      split at serves
      · cases serves
      · exact absurd serves out
    | leave | program => exact absurd serves out
  · have busy := accounted.serving_of_top found awaits
    cases perform_effect done with
    | device d => exact Or.inr ⟨b, rest, found, awaits⟩
    | @deliver m path on next known =>
      have free := (c.free _ _ next).2 n (foremost.blocks m)
      rw [busy] at free
      cases free
    | @run m saved op left rest' target top =>
      rw [found] at top
      cases top
      obtain ⟨own, member⟩ := awaits
      dsimp only at own
      subst own
      rw [exec_serving] at serves
      have notEnd : op ≠ .eoi m := by
        rintro rfl
        rw [if_pos rfl] at serves
        cases serves
      have still : .eoi m ∈ left := (List.mem_cons.mp member).resolve_left fun same => notEnd same.symm
      obtain ⟨path, known, tail⟩ := tracked s.running ⟨m, saved, op :: left⟩ (by rw [found]; exact List.mem_cons_self ..)
      have top : (s.push (⟨m, saved, left⟩ :: rest)).stack s.running = ⟨m, saved, left⟩ :: rest :=
        Function.update_self ..
      cases op with
      | switch => exact absurd still (foremost.stays path known left tail)
      | cli | sti | popfl | eoi => exact Or.inr ⟨_, _, top, rfl, still⟩
    | leave top =>
      rw [found] at top
      cases top
      exact absurd awaits.2 List.not_mem_nil
    | program flag empty _ =>
      rw [found] at empty
      cases empty

/-- While interrupt `n` is to be ended only its handler runs, whatever the flag is. -/
theorem Ahead.alone (foremost : Foremost c handlers n) (accounted : Accounted c n s) (ahead : Ahead n s)
    (open_ : total n s ≠ 0) (done : s.perform c handlers gate a = some s') :
    (∃ d, a = .device d) ∨ ∃ target b rest, a = .run target ∧ s.stack s.running = b :: rest ∧ b.awaits n := by
  rcases ahead with none | ⟨b, rest, found, awaits⟩
  · exact absurd none open_
  have busy := accounted.serving_of_top found awaits
  cases perform_effect done with
  | device d => exact Or.inl ⟨d, rfl⟩
  | @deliver m path on next known =>
    have free := (c.free _ _ next).2 n (foremost.blocks m)
    rw [busy] at free
    cases free
  | run target top => exact Or.inr ⟨target, b, rest, rfl, found, awaits⟩
  | leave top =>
    rw [found] at top
    cases top
    exact absurd awaits.2 List.not_mem_nil
  | program flag empty _ =>
    rw [found] at empty
    cases empty

section Runs

variable {first : Machine σ ι κ} {history : List (Event (Machine σ ι κ) (Act δ ι κ))}

/-- From empty stacks on, an interrupt is in service exactly as long as one
activation has still to end it. -/
theorem accounted_run (disciplined : Disciplined handlers n) (empty : ∀ k, first.stack k = [])
    (idle : c.serving first.pic n = false)
    (run : Run (fun s a s' => s.perform c handlers gate a = some s') first history s) :
    Tracked handlers s ∧ Accounted c n s := by
  refine run.invariant (fun s => Tracked handlers s ∧ Accounted c n s) ⟨?_, ?_⟩ ?_
  · intro k b member
    rw [empty k] at member
    cases member
  · rw [Accounted, idle, total]
    simp [empty, pending]
  · rintro s a s' ⟨tracked, accounted⟩ done
    exact ⟨tracked.perform done, accounted.perform disciplined tracked done⟩

theorem ahead_run (disciplined : Disciplined handlers n) (foremost : Foremost c handlers n)
    (empty : ∀ k, first.stack k = []) (idle : c.serving first.pic n = false)
    (run : Run (fun s a s' => s.perform c handlers gate a = some s') first history s) : Ahead n s := by
  have both : (Tracked handlers s ∧ Accounted c n s) ∧ Ahead n s := by
    refine run.history_invariant (fun _ s => (Tracked handlers s ∧ Accounted c n s) ∧ Ahead n s) ⟨?_, ?_⟩ ?_
    · exact accounted_run disciplined empty idle
        (.start : Run (fun s a s' => s.perform c handlers gate a = some s') first [] first)
    · exact Or.inl (by simp [total, empty, pending])
    · rintro past s a s' _ ⟨⟨tracked, accounted⟩, ahead⟩ done
      exact ⟨⟨tracked.perform done, accounted.perform disciplined tracked done⟩,
        ahead.perform disciplined foremost tracked accounted done⟩
  exact both.2

end Runs

end Accounts

end Nesting
