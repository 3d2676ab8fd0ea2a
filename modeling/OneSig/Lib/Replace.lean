/-
# One word written for another, and one name for another

Two runs of a program that differ in a secret can be told apart when the secret gets into a text
that is shown.  To say that it does not, one compares a text of the first run with the same text
of the second in which one word has been written for another.

`replaceAll old new l` is what `replaceAll` of a string is: from the left, every occurrence of
`old` becomes `new`, and the search goes on behind what it has replaced.  An empty word is never
replaced.  Replacing is no homomorphism, since an occurrence can begin in one part of a text and
end in the next, and the rules here are the ones that still hold:

* `replaceAll_of_absent`: a text in which the word does not occur stays as it is;
* `replaceAll_self`: the word itself becomes the other one;
* `replaceAll_split`: an element that the word does not contain splits the work, since no
  occurrence can cover it;
* `replaceAll_append_of_notMem`: a stretch without the word's first element is passed over.

With these a message that is put together from fixed texts and one word is replaced part by part.

`SameKey a a'` relates two names when the one is `a` and the other `a'`, or both are one name that
is neither: what two runs call the same thing when only `a` has another name in the second.  It is
one-to-one (`sameKey_biUnique`), which is what looking a name up in the two runs asks for.
-/
import Mathlib.Data.List.Infix
import Mathlib.Logic.Relator

namespace List

variable {α : Type} [DecidableEq α]

/-- `l` with `new` for every occurrence of `old`. -/
def replaceAll (old new : List α) : List α → List α
  | [] => []
  | a :: l =>
    if _h : old ≠ [] ∧ old <+: a :: l then new ++ replaceAll old new ((a :: l).drop old.length)
    else a :: replaceAll old new l
termination_by l => l.length
decreasing_by
  · have hpos := List.length_pos_iff.mpr _h.1
    simp only [List.length_drop, List.length_cons]
    omega
  · simp

section Rules

variable {old new : List α}

theorem replaceAll_nil : replaceAll old new [] = [] := by
  rw [replaceAll]

theorem replaceAll_cons_of_absent {a : α} {l : List α} (h : ¬old <+: a :: l) :
    replaceAll old new (a :: l) = a :: replaceAll old new l := by
  rw [replaceAll, dif_neg fun hpre => h hpre.2]

theorem replaceAll_cons_of_begins {a : α} {l : List α} (hne : old ≠ []) (h : old <+: a :: l) :
    replaceAll old new (a :: l) = new ++ replaceAll old new ((a :: l).drop old.length) := by
  rw [replaceAll, dif_pos ⟨hne, h⟩]

/-- A list in which the word does not occur stays as it is. -/
theorem replaceAll_of_absent {l : List α} (h : ¬old <:+: l) : replaceAll old new l = l := by
  induction l with
  | nil => exact replaceAll_nil
  | cons a l ih =>
    rw [infix_cons_iff, not_or] at h
    rw [replaceAll_cons_of_absent h.1, ih h.2]

/-- The word itself becomes the other one. -/
theorem replaceAll_self (hne : old ≠ []) : replaceAll old new old = new := by
  obtain ⟨a, l, rfl⟩ := List.exists_cons_of_ne_nil hne
  rw [replaceAll_cons_of_begins hne (prefix_refl _), drop_length, replaceAll_nil, append_nil]

/-- No occurrence begins in a stretch without the word's first element. -/
theorem replaceAll_append_of_notMem {a : α} {l l' : List α} (h : a ∉ l) :
    replaceAll (a :: old) new (l ++ l') = l ++ replaceAll (a :: old) new l' := by
  induction l with
  | nil => rfl
  | cons b l ih =>
    rw [mem_cons, not_or] at h
    have hpre : ¬a :: old <+: b :: (l ++ l') := fun hp => h.1 (cons_prefix_cons.mp hp).1
    rw [cons_append, replaceAll_cons_of_absent hpre, ih h.2, cons_append]

end Rules

section Split

omit [DecidableEq α]

variable {old : List α}

/-- A word that does not contain an element ends before it. -/
theorem begins_of_notMem {a : α} {l l' : List α} (h : a ∉ old) (hpre : old <+: l ++ a :: l') :
    old <+: l := by
  rcases Nat.lt_or_ge l.length old.length with hlt | hle
  · have hmem : a ∈ old := by
      obtain ⟨rest, hrest⟩ := hpre
      have hat : (l ++ a :: l')[l.length]? = some a := by simp
      rw [← hrest, getElem?_append_left hlt] at hat
      exact mem_of_getElem? hat
    exact absurd hmem h
  · exact prefix_of_prefix_length_le hpre (prefix_append l _) hle

end Split

/-- An element that the word does not contain splits the list. -/
theorem replaceAll_split {old new : List α} {a : α} (hne : old ≠ []) (h : a ∉ old)
    (l l' : List α) :
    replaceAll old new (l ++ a :: l') = replaceAll old new l ++ a :: replaceAll old new l' := by
  induction hl : l.length using Nat.strong_induction_on generalizing l with
  | _ n ih =>
    cases l with
    | nil =>
      have hpre : ¬old <+: a :: l' := fun hp => hne (prefix_nil.mp (begins_of_notMem h hp))
      rw [nil_append, replaceAll_cons_of_absent hpre, replaceAll_nil, nil_append]
    | cons b l =>
      subst hl
      by_cases hpre : old <+: b :: l
      · -- the occurrence lies in the first part
        have hlen := hpre.length_le
        have hpos := length_pos_iff.mpr hne
        have hlonger : old <+: b :: (l ++ a :: l') := hpre.trans (prefix_append _ _)
        have hdrop : (b :: (l ++ a :: l')).drop old.length =
            (b :: l).drop old.length ++ a :: l' := by
          rw [← cons_append, drop_append_of_le_length hlen]
        have hshort : ((b :: l).drop old.length).length < (b :: l).length := by
          rw [length_drop]
          omega
        rw [cons_append, replaceAll_cons_of_begins hne hlonger, hdrop,
          ih _ hshort ((b :: l).drop old.length) rfl, replaceAll_cons_of_begins hne hpre,
          append_assoc]
      · have hlonger : ¬old <+: b :: (l ++ a :: l') := fun hp =>
          hpre (begins_of_notMem (l := b :: l) h hp)
        rw [cons_append, replaceAll_cons_of_absent hlonger, ih l.length (by simp) l rfl,
          replaceAll_cons_of_absent hpre, cons_append]

end List

/-- Two names that correspond: the names exchanged, or one name. -/
inductive SameKey {α : Type} (a a' : α) : α → α → Prop
  | named : SameKey a a' a a'
  | other {b : α} (h : b ≠ a) (h' : b ≠ a') : SameKey a a' b b

theorem sameKey_biUnique {α : Type} (a a' : α) : Relator.BiUnique (SameKey a a') := by
  constructor
  · intro b₁ b b₂ h₁ h₂
    cases h₁ with
    | named =>
      cases h₂ with
      | named => rfl
      | other _ h' => exact absurd rfl h'
    | other _ h' =>
      cases h₂ with
      | named => exact absurd rfl h'
      | other => rfl
  · intro b b₁ b₂ h₁ h₂
    cases h₁ with
    | named =>
      cases h₂ with
      | named => rfl
      | other h _ => exact absurd rfl h
    | other h _ =>
      cases h₂ with
      | named => exact absurd rfl h
      | other => rfl
