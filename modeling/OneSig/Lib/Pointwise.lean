/-
# Lists that correspond element by element

Two runs that differ in their data only have lists that correspond place by place: the waiting
tasks of the one beside those of the other, the entries of one map beside those of the other.
`List.Forall₂ R` says so.  Mathlib has the rules for building such lists; this module adds what it
says of the operations a process works with:

* looking at one place (`forall₂_getElem?`): the two answers are both absent, or they correspond;
* writing one place (`forall₂_set`), and rewriting it by two functions that keep the
  correspondence (`forall₂_modify`): the lists still correspond;
* counting (`forall₂_countP`): tests that agree on corresponding elements count alike;
* sorting (`forall₂_mergeSort`): two sorts whose orders agree on corresponding elements produce
  corresponding lists.

The last one is the only rule with an argument in it.  `List.mergeSort` has no equation that lines
two runs of it up directly, so the correspondence is carried as one list of pairs: sorting the
pairs by either order gives the same list, and the two sorts are its two halves.  Stability is not
used; that the orders agree is enough.

The relation is arbitrary throughout: it need not be an equivalence, and the two element types
need not be the same.
-/
import Mathlib.Data.List.Forall2
import Mathlib.Data.List.Sort

namespace List

variable {α β : Type} {R : α → β → Prop} {l : List α} {l' : List β}

theorem forall₂_getElem? (h : Forall₂ R l l') (i : Nat) : Option.Rel R l[i]? l'[i]? := by
  induction h generalizing i with
  | nil => exact .none
  | cons hab _ ih =>
    cases i with
    | zero => exact .some hab
    | succ i => exact ih i

theorem forall₂_modify {f : α → α} {g : β → β} (hfg : ∀ a b, R a b → R (f a) (g b))
    (h : Forall₂ R l l') (i : Nat) : Forall₂ R (l.modify i f) (l'.modify i g) := by
  induction h generalizing i with
  | nil =>
    rw [modify_nil, modify_nil]
    exact .nil
  | cons hab htail ih =>
    cases i with
    | zero => exact .cons (hfg _ _ hab) htail
    | succ i => exact .cons hab (ih i)

theorem forall₂_set {a : α} {b : β} (hab : R a b) (h : Forall₂ R l l') (i : Nat) :
    Forall₂ R (l.set i a) (l'.set i b) := by
  induction h generalizing i with
  | nil => exact .nil
  | cons hcd htail ih =>
    cases i with
    | zero => exact .cons hab htail
    | succ i => exact .cons hcd (ih i)

theorem forall₂_countP {p : α → Bool} {q : β → Bool} (hpq : ∀ a b, R a b → q b = p a)
    (h : Forall₂ R l l') : l'.countP q = l.countP p := by
  induction h with
  | nil => rfl
  | cons hab _ ih => rw [countP_cons, countP_cons, ih, hpq _ _ hab]

/-- Two sorts agree when their orders do. -/
theorem forall₂_mergeSort {r : α → α → Bool} {s : β → β → Bool}
    (hrs : ∀ a b, R a b → ∀ a' b', R a' b' → s b b' = r a a') (h : Forall₂ R l l') :
    Forall₂ R (l.mergeSort r) (l'.mergeSort s) := by
  -- both are the two halves of one sorted list of pairs
  have hzip : ∀ p ∈ l.zip l', R p.1 p.2 := fun p hp => forall₂_zip h hp
  have hfst : (l.zip l').map Prod.fst = l := map_fst_zip h.length_eq.le
  have hsnd : (l.zip l').map Prod.snd = l' := map_snd_zip h.length_eq.ge
  have hleft := map_mergeSort (r := fun p q => r p.1 q.1) (s := r) (f := Prod.fst)
    (l := l.zip l') fun _ _ _ _ => rfl
  have hright := map_mergeSort (r := fun p q => r p.1 q.1) (s := s) (f := Prod.snd)
    (l := l.zip l') fun p hp q hq => (hrs _ _ (hzip p hp) _ _ (hzip q hq)).symm
  rw [hfst] at hleft
  rw [hsnd] at hright
  rw [← hleft, ← hright, forall₂_map_left_iff, forall₂_map_right_iff, forall₂_same]
  exact fun p hp => hzip p (mem_mergeSort.mp hp)

end List
