import UnixLite.Library.Loops
import Mathlib.Logic.Function.Basic
import Mathlib.Data.List.Basic
import Mathlib.Data.List.Nodup

namespace LinkedLists

open Loops

variable {ι : Type*}

/-- From the pointer `p` the links of `nodes` lead to the pointer `q`. -/
inductive Segment (next : ι → Option ι) : Option ι → List ι → Option ι → Prop
  | stop {p} : Segment next p [] p
  | step {i nodes q} : Segment next (next i) nodes q → Segment next (some i) (i :: nodes) q

variable {next next' : ι → Option ι} {p q : Option ι} {nodes : List ι}

theorem Segment.split {before after : List ι} (path : Segment next p (before ++ after) q) :
    ∃ middle, Segment next p before middle ∧ Segment next middle after q := by
  induction before generalizing p with
  | nil => exact ⟨p, .stop, path⟩
  | cons i before ih =>
    cases path with
    | step rest =>
      obtain ⟨middle, first, second⟩ := ih rest
      exact ⟨middle, .step first, second⟩

theorem Segment.congr (path : Segment next p nodes q) (same : ∀ i ∈ nodes, next' i = next i) :
    Segment next' p nodes q := by
  induction path with
  | stop => exact .stop
  | @step i nodes q _ ih =>
    refine .step ?_
    rw [same i (List.mem_cons_self ..)]
    exact ih fun j member => same j (List.mem_cons_of_mem _ member)

/-- The link of `last` is made to skip the node after it. -/
theorem Segment.bypass {before after : List ι} {last i : ι}
    (path : Segment next p (before ++ last :: i :: after) q) (skips : next' last = next i)
    (same : ∀ j ∈ before ++ after, next' j = next j) :
    Segment next' p (before ++ last :: after) q := by
  induction before generalizing p with
  | nil =>
    cases path with
    | step rest =>
      generalize next last = p at rest
      cases rest with
      | step rest =>
        refine .step ?_
        rw [skips]
        exact rest.congr same
  | cons j before ih =>
    cases path with
    | step rest =>
      refine .step ?_
      rw [same j (List.mem_cons_self ..)]
      exact ih rest fun j' member => same j' (List.mem_cons_of_mem _ member)

/-- A list that ends is determined by where it starts. -/
theorem Segment.unique {other : List ι} (path : Segment next p nodes none)
    (path' : Segment next p other none) : nodes = other := by
  induction nodes generalizing p other with
  | nil =>
    cases path
    cases path'
    rfl
  | cons i nodes ih =>
    cases path with
    | step rest =>
      cases path' with
      | step rest' => rw [ih rest rest']

/-- No node comes up twice: the list would not end. -/
theorem Segment.nodup (path : Segment next p nodes none) : nodes.Nodup := by
  induction nodes generalizing p with
  | nil => exact List.nodup_nil
  | cons i nodes ih =>
    cases path with
    | step rest =>
      refine List.nodup_cons.mpr ⟨fun again => ?_, ih rest⟩
      obtain ⟨before, after, rfl⟩ := List.append_of_mem again
      obtain ⟨middle, _, second⟩ := rest.split
      cases second with
      | step second =>
        have same := congrArg List.length (rest.unique second)
        simp at same
        omega

/-- A place that holds a pointer: the head of the list or the link of a node. -/
inductive Place (ι : Type*)
  | head
  | after (i : ι)

/-- The head of a list and the links of all nodes there are. -/
structure Links (ι : Type*) where
  head : Option ι
  next : ι → Option ι

namespace Links

def get (l : Links ι) : Place ι → Option ι
  | .head => l.head
  | .after i => l.next i

def set [DecidableEq ι] (l : Links ι) (p : Option ι) : Place ι → Links ι
  | .head => { l with head := p }
  | .after i => { l with next := Function.update l.next i p }

/-- The list is finite and its nodes are `nodes`, in this order. -/
def Chain (l : Links ι) (nodes : List ι) : Prop := Segment l.next l.head nodes none

/-- The place that leads on after the nodes `before`, starting at `place`. -/
def placeAfter : Place ι → List ι → Place ι
  | place, [] => place
  | _, i :: before => placeAfter (.after i) before

theorem placeAfter_concat (place : Place ι) (front : List ι) (last : ι) :
    placeAfter place (front ++ [last]) = .after last := by
  induction front generalizing place with
  | nil => rfl
  | cons i front ih => exact ih (.after i)

theorem mem_of_placeAfter {before : List ι} {i : ι} (place : placeAfter .head before = .after i) :
    i ∈ before := by
  rcases List.eq_nil_or_concat before with rfl | ⟨front, last, rfl⟩
  · cases place
  · rw [List.concat_eq_append, placeAfter_concat] at place
    cases place
    simp

variable {l : Links ι}

theorem Chain.insert [DecidableEq ι] (chain : l.Chain nodes) {i : ι} (fresh : i ∉ nodes) :
    Chain ⟨some i, Function.update l.next i l.head⟩ (i :: nodes) := by
  refine .step ?_
  have link : Function.update l.next i l.head i = l.head := Function.update_self ..
  simp only [link]
  refine Segment.congr chain fun j member => ?_
  have other : j ≠ i := fun same => fresh (same ▸ member)
  exact Function.update_of_ne other _ _

/-- The node after `before` is taken out by writing its link over the pointer to it. -/
theorem Chain.unlink [DecidableEq ι] {before after : List ι} {i : ι}
    (chain : l.Chain (before ++ i :: after)) :
    (l.set (l.next i) (placeAfter .head before)).Chain (before ++ after) := by
  have distinct := Segment.nodup chain
  rcases List.eq_nil_or_concat before with rfl | ⟨front, last, rfl⟩
  · unfold Chain at chain
    generalize l.head = p at chain
    cases chain with
    | step rest => exact rest
  · rw [List.concat_eq_append, placeAfter_concat, List.append_assoc]
    rw [List.concat_eq_append, List.append_assoc] at chain distinct
    refine Segment.bypass chain (Function.update_self ..) fun j member => ?_
    have other : j ≠ last := by
      rintro rfl
      simp only [List.singleton_append, List.nodup_append, List.nodup_cons, List.mem_cons] at distinct
      rcases List.mem_append.mp member with early | late
      · exact distinct.2.2 j early j (Or.inl rfl) rfl
      · exact distinct.2.1.1 (Or.inr late)
    exact Function.update_of_ne other _ _

/-- Follows the links from a pointer on until a node passes the test. -/
def searchBody (l : Links ι) (test : ι → Bool) : Option ι → Option ι ⊕ Option ι
  | none => .inr none
  | some i => if test i then .inr (some i) else .inl (l.next i)

theorem Chain.search (chain : l.Chain nodes) (test : ι → Bool) :
    Ends (l.searchBody test) l.head (nodes.find? test) := by
  unfold Chain at chain
  generalize l.head = p at chain
  induction nodes generalizing p with
  | nil =>
    cases chain
    exact .done rfl
  | cons i nodes ih =>
    cases chain with
    | step rest =>
      cases passes : test i with
      | true =>
        rw [List.find?_cons_of_pos passes]
        exact .done (by simp [searchBody, passes])
      | false =>
        rw [List.find?_cons_of_neg (by simp [passes])]
        exact (ih _ rest).next (by simp [searchBody, passes])

/-- Looks for the place that holds the pointer `target`, from a place on; it
comes out empty-handed after the last link. -/
def seekBody [DecidableEq ι] (l : Links ι) (target : Option ι) (place : Place ι) : Place ι ⊕ Option (Place ι) :=
  if l.get place = target then .inr (some place)
  else
    match l.get place with
    | none => .inr none
    | some i => .inl (.after i)

theorem seek_from [DecidableEq ι] {before after : List ι} {i : ι} (apart : i ∉ before) (place : Place ι)
    (path : Segment l.next (l.get place) (before ++ i :: after) none) :
    Ends (l.seekBody (some i)) place (some (placeAfter place before)) := by
  induction before generalizing place with
  | nil =>
    generalize here : l.get place = p at path
    cases path
    refine .done ?_
    rw [seekBody, if_pos here]
    rfl
  | cons j before ih =>
    rw [List.mem_cons, not_or] at apart
    generalize here : l.get place = p at path
    cases path with
    | step rest =>
      have other : l.get place ≠ some i := by
        rw [here]
        exact fun same => apart.1 (Option.some.inj same).symm
      refine (ih apart.2 (.after j) rest).next ?_
      rw [seekBody, if_neg other, here]

theorem Chain.seek [DecidableEq ι] {before after : List ι} {i : ι}
    (chain : l.Chain (before ++ i :: after)) :
    Ends (l.seekBody (some i)) .head (some (placeAfter .head before)) := by
  have distinct := Segment.nodup chain
  simp only [List.nodup_append, List.mem_cons] at distinct
  exact seek_from (fun member => distinct.2.2 i member i (Or.inl rfl) rfl) .head chain

end Links

/-- Visits the nodes one after the other; the link is read after the visit. -/
def visitBody {σ : Type*} (next : σ → ι → Option ι) (visit : σ → ι → σ) :
    σ × Option ι → (σ × Option ι) ⊕ σ
  | (s, none) => .inr s
  | (s, some i) => .inl (visit s i, next (visit s i) i)

theorem Segment.visit {σ : Type*} (next : σ → ι → Option ι) (visit : σ → ι → σ) {s : σ} {p : Option ι}
    (keeps : ∀ s i, next (visit s i) = next s) (path : Segment (next s) p nodes none) :
    Ends (visitBody next visit) (s, p) (nodes.foldl visit s) := by
  induction nodes generalizing s p with
  | nil =>
    cases path
    exact .done rfl
  | cons i nodes ih =>
    cases path with
    | step rest =>
      have on : Segment (next (visit s i)) (next (visit s i) i) nodes none := by
        rw [keeps]
        exact rest
      exact (ih on).next rfl

end LinkedLists
