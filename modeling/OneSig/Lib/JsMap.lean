/-
# Maps that remember insertion order

The `Map` of ECMAScript.  A key keeps its place from its first insertion until it is deleted, and
setting it again changes its value and not its place.  A loop over the map walks by place: it sees
the entries that are added behind it while it runs, steps over the ones that are deleted in front
of it, and never sees one twice.

So a map is the list of its places, with `none` for a deleted one, and an iteration is an index
into that list which survives every change to the map.  Deleting does not close the gap; a key
that is set again after it was deleted gets a new place at the end.  No key has two places: that
is a field of the type, so every map that can be built has it.

`pairs` are the entries that are there, in order; `get?`, `has`, `set` and `delete` are the
methods of the source.  The lemmas say

* what is in the map after a `set` or a `delete` (`mem_pairs_set`, `mem_pairs_delete`,
  `get?_set`), from which everything about the contents follows without the places;
* where an insertion puts a new key (`pairs_set_new`), and that setting a key to what it holds is
  nothing at all (`set_same`);
* that the rest of an iteration does not notice what happens behind it (`delete_drop`).

The last section compares two maps whose keys have other names: values correspond in the same
places (`Alike`), lookups of corresponding keys agree, and both updates keep the correspondence.
Key equality is the equality of the type; the `SameValueZero` of numbers has no part here.
-/
import Mathlib.Data.List.Forall2
import Mathlib.Data.List.Nodup

/-- An insertion-ordered map. -/
structure JsMap (κ ν : Type) where
  entries : List (Option (κ × ν))
  nodup : ((entries.filterMap id).map Prod.fst).Nodup

namespace JsMap

variable {κ ν : Type}

instance [Repr κ] [Repr ν] : Repr (JsMap κ ν) := ⟨fun m n => reprPrec m.entries n⟩

/-- `new Map()`. -/
def empty : JsMap κ ν := ⟨[], by simp⟩

/-- The entries that are not deleted, in order. -/
def pairs (m : JsMap κ ν) : List (κ × ν) := m.entries.filterMap id

theorem mem_pairs {m : JsMap κ ν} {p : κ × ν} : p ∈ m.pairs ↔ some p ∈ m.entries := by
  simp [pairs]

theorem keys_nodup (m : JsMap κ ν) : (m.pairs.map Prod.fst).Nodup := m.nodup

/-- A key has one value. -/
theorem value_unique {m : JsMap κ ν} {k : κ} {v v' : ν} (h : (k, v) ∈ m.pairs)
    (h' : (k, v') ∈ m.pairs) : v = v' := by
  have := List.inj_on_of_nodup_map m.keys_nodup h h' rfl
  exact congrArg Prod.snd this

section Ops

variable [DecidableEq κ]

/-- `m.get(k)`. -/
def get? (m : JsMap κ ν) (k : κ) : Option ν := (m.pairs.find? fun p => p.1 = k).map Prod.snd

/-- `m.has(k)`. -/
def has (m : JsMap κ ν) (k : κ) : Bool := (m.get? k).isSome

theorem get?_eq_some {m : JsMap κ ν} {k : κ} {v : ν} : m.get? k = some v ↔ (k, v) ∈ m.pairs := by
  unfold get?
  constructor
  · intro h
    obtain ⟨⟨k', v'⟩, hf, rfl⟩ := Option.map_eq_some_iff.mp h
    have hk := List.find?_some hf
    simp only [decide_eq_true_eq] at hk
    subst hk
    exact List.mem_of_find?_eq_some hf
  · intro h
    cases hf : m.pairs.find? fun p => p.1 = k with
    | none =>
      have := List.find?_eq_none.mp hf _ h
      simp at this
    | some p =>
      obtain ⟨k', v'⟩ := p
      have hk := List.find?_some hf
      simp only [decide_eq_true_eq] at hk
      subst hk
      rw [Option.map_some, value_unique h (List.mem_of_find?_eq_some hf)]

theorem has_iff {m : JsMap κ ν} {k : κ} : m.has k = true ↔ ∃ v, (k, v) ∈ m.pairs := by
  unfold has
  rw [Option.isSome_iff_exists]
  constructor
  · rintro ⟨v, hv⟩
    exact ⟨v, get?_eq_some.mp hv⟩
  · rintro ⟨v, hv⟩
    exact ⟨v, get?_eq_some.mpr hv⟩

/-- One place of a map in which `k` is given the value `v`. -/
def setPlace (k : κ) (v : ν) : Option (κ × ν) → Option (κ × ν)
  | some (k', v') => if k' = k then some (k, v) else some (k', v')
  | none => none

/-- One place of a map in which `k` is deleted. -/
def deletePlace (k : κ) : Option (κ × ν) → Option (κ × ν)
  | some (k', v') => if k' = k then none else some (k', v')
  | none => none

theorem filterMap_setPlace (k : κ) (v : ν) (l : List (Option (κ × ν))) :
    ((l.map (setPlace k v)).filterMap id).map Prod.fst = (l.filterMap id).map Prod.fst := by
  induction l with
  | nil => rfl
  | cons e l ih =>
    cases e with
    | none => exact ih
    | some p =>
      obtain ⟨k', v'⟩ := p
      by_cases hk : k' = k
      · simpa [setPlace, hk] using ih
      · simpa [setPlace, hk] using ih

theorem filterMap_deletePlace (k : κ) (l : List (Option (κ × ν))) :
    (l.map (deletePlace k)).filterMap id = (l.filterMap id).filter fun p => p.1 ≠ k := by
  induction l with
  | nil => rfl
  | cons e l ih =>
    cases e with
    | none => exact ih
    | some p =>
      obtain ⟨k', v'⟩ := p
      by_cases hk : k' = k
      · simpa [deletePlace, hk] using ih
      · simpa [deletePlace, hk] using ih

theorem not_mem_keys {m : JsMap κ ν} {k : κ} (h : m.has k = false) :
    k ∉ m.pairs.map Prod.fst := by
  intro hk
  obtain ⟨⟨k', v⟩, hp, rfl⟩ := List.mem_map.mp hk
  rw [has_iff.mpr ⟨v, hp⟩] at h
  exact absurd h (by simp)

/-- `m.set(k, v)`: in place when the key is there, else at the end. -/
def set (m : JsMap κ ν) (k : κ) (v : ν) : JsMap κ ν :=
  if h : m.has k = true then
    ⟨m.entries.map (setPlace k v), by rw [filterMap_setPlace]; exact m.nodup⟩
  else
    ⟨m.entries ++ [some (k, v)], by
      have hk := not_mem_keys (Bool.not_eq_true _ ▸ h)
      rw [List.filterMap_append, List.map_append, List.nodup_append]
      refine ⟨m.nodup, by simp, ?_⟩
      intro a ha b hb hab
      simp only [List.filterMap_cons, id_eq, List.filterMap_nil, List.map_cons, List.map_nil,
        List.mem_singleton] at hb
      subst hb hab
      exact hk ha⟩

/-- `m.delete(k)`. -/
def delete (m : JsMap κ ν) (k : κ) : JsMap κ ν :=
  ⟨m.entries.map (deletePlace k), by
    rw [filterMap_deletePlace]
    exact m.nodup.sublist (List.filter_sublist.map _)⟩

/-! ## What an update leaves behind -/

theorem mem_pairs_delete {m : JsMap κ ν} {k k' : κ} {v : ν} :
    (k', v) ∈ (m.delete k).pairs ↔ k' ≠ k ∧ (k', v) ∈ m.pairs := by
  unfold delete pairs
  simp only [filterMap_deletePlace, List.mem_filter, decide_eq_true_eq]
  exact and_comm

theorem mem_pairs_set {m : JsMap κ ν} {k k' : κ} {v v' : ν} :
    (k', v') ∈ (m.set k v).pairs ↔ (k' = k ∧ v' = v) ∨ (k' ≠ k ∧ (k', v') ∈ m.pairs) := by
  unfold set
  split
  case isTrue h =>
    obtain ⟨w, hw⟩ := has_iff.mp h
    rw [mem_pairs, List.mem_map]
    constructor
    · rintro ⟨e, he, hset⟩
      cases e with
      | none => simp [setPlace] at hset
      | some p =>
        obtain ⟨a, b⟩ := p
        by_cases hk : a = k
        · simp only [setPlace, hk, if_true, Option.some.injEq, Prod.mk.injEq] at hset
          exact Or.inl ⟨hset.1.symm, hset.2.symm⟩
        · simp only [setPlace, if_neg hk, Option.some.injEq, Prod.mk.injEq] at hset
          obtain ⟨rfl, rfl⟩ := hset
          exact Or.inr ⟨hk, mem_pairs.mpr he⟩
    · rintro (⟨rfl, rfl⟩ | ⟨hk, hp⟩)
      · exact ⟨_, mem_pairs.mp hw, by simp [setPlace]⟩
      · exact ⟨_, mem_pairs.mp hp, by simp [setPlace, hk]⟩
  case isFalse h =>
    have hk := not_mem_keys (Bool.not_eq_true _ ▸ h)
    have happ : JsMap.pairs ⟨m.entries ++ [some (k, v)], by
        have := (m.set k v).nodup
        unfold set at this
        rw [dif_neg h] at this
        exact this⟩ = m.pairs ++ [(k, v)] := by
      simp [pairs]
    rw [happ, List.mem_append, List.mem_singleton, Prod.mk.injEq]
    constructor
    · rintro (hp | ⟨rfl, rfl⟩)
      · refine Or.inr ⟨?_, hp⟩
        rintro rfl
        exact hk (List.mem_map.mpr ⟨_, hp, rfl⟩)
      · exact Or.inl ⟨rfl, rfl⟩
    · rintro (⟨rfl, rfl⟩ | ⟨-, hp⟩)
      · exact Or.inr ⟨rfl, rfl⟩
      · exact Or.inl hp

theorem has_set {m : JsMap κ ν} {k k' : κ} {v : ν} :
    (m.set k v).has k' = true ↔ k' = k ∨ m.has k' = true := by
  simp only [has_iff, mem_pairs_set]
  constructor
  · rintro ⟨w, ⟨rfl, -⟩ | ⟨-, hp⟩⟩
    · exact Or.inl rfl
    · exact Or.inr ⟨w, hp⟩
  · rintro (rfl | ⟨w, hp⟩)
    · exact ⟨v, Or.inl ⟨rfl, rfl⟩⟩
    · by_cases hk : k' = k
      · exact ⟨v, Or.inl ⟨hk, rfl⟩⟩
      · exact ⟨w, Or.inr ⟨hk, hp⟩⟩

/-- The key just set has its new value; the others keep theirs. -/
theorem has_of_get? {m : JsMap κ ν} {k : κ} {v : ν} (h : m.get? k = some v) : m.has k = true :=
  has_iff.mpr ⟨v, get?_eq_some.mp h⟩

theorem has_of_get?_none {m : JsMap κ ν} {k : κ} (h : m.get? k = none) : m.has k = false := by
  cases hhas : m.has k with
  | false => rfl
  | true =>
    obtain ⟨v, hv⟩ := has_iff.mp hhas
    rw [get?_eq_some.mpr hv] at h
    cases h

/-- The key just set has its new value; the others keep theirs. -/
theorem get?_set {m : JsMap κ ν} {k k' : κ} {v : ν} :
    (m.set k v).get? k' = if k' = k then some v else m.get? k' := by
  apply Option.ext
  intro w
  rw [get?_eq_some, mem_pairs_set]
  split
  case isTrue h =>
    subst h
    simp [eq_comm]
  case isFalse h => simp [h, get?_eq_some]

/-- A new key comes last. -/
theorem pairs_set_new {m : JsMap κ ν} {k : κ} {v : ν} (h : m.has k = false) :
    (m.set k v).pairs = m.pairs ++ [(k, v)] := by
  unfold set
  rw [dif_neg (by rw [h]; decide)]
  exact List.filterMap_append

/-- Setting a key to what it holds changes nothing. -/
theorem set_same {m : JsMap κ ν} {k : κ} {v : ν} (h : (k, v) ∈ m.pairs) : m.set k v = m := by
  have hentries : m.entries.map (setPlace k v) = m.entries := by
    refine (List.map_congr_left fun e he => ?_).trans (List.map_id _)
    cases e with
    | none => rfl
    | some p =>
      obtain ⟨k', v'⟩ := p
      by_cases hk : k' = k
      · subst hk
        rw [setPlace, if_pos rfl, value_unique (mem_pairs.mpr he) h]
        rfl
      · rw [setPlace, if_neg hk]
        rfl
  have hhas := has_iff.mpr ⟨v, h⟩
  obtain ⟨entries, nodup⟩ := m
  unfold set
  rw [dif_pos hhas]
  simp only [mk.injEq]
  exact hentries

/-- What is behind a place does not notice that its key is deleted. -/
theorem delete_drop {m : JsMap κ ν} {k : κ} {v : ν} {place : Nat}
    (h : m.entries[place]? = some (some (k, v))) :
    (m.delete k).entries.drop (place + 1) = m.entries.drop (place + 1) := by
  obtain ⟨hlt, hget⟩ := List.getElem?_eq_some_iff.mp h
  have hsplit : m.entries = m.entries.take place ++ some (k, v) :: m.entries.drop (place + 1) := by
    rw [← hget, ← List.drop_eq_getElem_cons hlt, List.take_append_drop]
  have hnodup := m.nodup
  rw [hsplit, List.filterMap_append, List.map_append] at hnodup
  have hbehind := (List.nodup_append.mp hnodup).2.1
  simp only [List.filterMap_cons, id_eq, List.map_cons, List.nodup_cons] at hbehind
  simp only [delete, ← List.map_drop]
  refine (List.map_congr_left fun e he => ?_).trans (List.map_id _)
  cases e with
  | none => rfl
  | some p =>
    obtain ⟨k', v'⟩ := p
    have hk : k' ≠ k := by
      rintro rfl
      exact hbehind.1 (List.mem_map.mpr ⟨(k', v'), List.mem_filterMap.mpr ⟨_, he, rfl⟩, rfl⟩)
    rw [deletePlace, if_neg hk]
    rfl

end Ops

/-! ## Maps that differ in the names of their keys -/

section Alike

variable {κ' ν' : Type} {R : κ → κ' → Prop} {V : ν → ν' → Prop}

/-- Values that correspond in the same places, under keys that correspond. -/
def Alike (R : κ → κ' → Prop) (V : ν → ν' → Prop) (m : JsMap κ ν) (m' : JsMap κ' ν') : Prop :=
  List.Forall₂ (Option.Rel fun p p' => R p.1 p'.1 ∧ V p.2 p'.2) m.entries m'.entries

variable {m : JsMap κ ν} {m' : JsMap κ' ν'}

theorem Alike.pairs (h : Alike R V m m') :
    List.Forall₂ (fun p p' => R p.1 p'.1 ∧ V p.2 p'.2) m.pairs m'.pairs :=
  List.rel_filterMap (fun _ _ he => he) h

variable [DecidableEq κ] [DecidableEq κ'] {k : κ} {k' : κ'} {v : ν} {v' : ν'}

/-- Keys that correspond are found in the same place. -/
theorem Alike.get? (h : Alike R V m m') (hR : Relator.BiUnique R) (hk : R k k') :
    Option.Rel V (m.get? k) (m'.get? k') := by
  have hpairs := h.pairs
  unfold JsMap.get?
  generalize m.pairs = l at hpairs
  generalize m'.pairs = l' at hpairs
  induction hpairs with
  | nil => exact .none
  | @cons p p' l l' hp _ ih =>
    have heq : p.1 = k ↔ p'.1 = k' := Relator.rel_eq hR hp.1 hk
    rw [List.find?_cons, List.find?_cons]
    by_cases hfound : p.1 = k
    · simpa [hfound, heq.mp hfound] using hp.2
    · have hfound' : p'.1 ≠ k' := fun h => hfound (heq.mpr h)
      simpa [hfound, hfound'] using ih

theorem setPlace_alike (hR : Relator.BiUnique R) (hk : R k k') (hv : V v v') {e : Option (κ × ν)}
    {e' : Option (κ' × ν')} (he : Option.Rel (fun p p' => R p.1 p'.1 ∧ V p.2 p'.2) e e') :
    Option.Rel (fun p p' => R p.1 p'.1 ∧ V p.2 p'.2) (setPlace k v e) (setPlace k' v' e') := by
  cases he with
  | none => exact .none
  | @some p p' hp =>
    obtain ⟨a, b⟩ := p
    obtain ⟨a', b'⟩ := p'
    have heq : a = k ↔ a' = k' := Relator.rel_eq hR hp.1 hk
    by_cases hfound : a = k
    · simpa [setPlace, hfound, heq.mp hfound] using ⟨hk, hv⟩
    · have hfound' : a' ≠ k' := fun h => hfound (heq.mpr h)
      simpa [setPlace, hfound, hfound'] using hp

theorem Alike.has (h : Alike R V m m') (hR : Relator.BiUnique R) (hk : R k k') :
    m'.has k' = m.has k := by
  have hget := h.get? hR hk
  unfold JsMap.has
  generalize m.get? k = x at hget
  generalize m'.get? k' = x' at hget
  cases hget <;> rfl

theorem Alike.set (h : Alike R V m m') (hR : Relator.BiUnique R) (hk : R k k') (hv : V v v') :
    Alike R V (m.set k v) (m'.set k' v') := by
  have hhas := h.has hR hk
  unfold JsMap.set Alike
  by_cases hold : m.has k = true
  · rw [dif_pos hold, dif_pos (hhas.trans hold)]
    exact List.rel_map (fun _ _ he => setPlace_alike hR hk hv he) h
  · rw [dif_neg hold, dif_neg fun hold' => hold (hhas.symm.trans hold')]
    exact List.rel_append h (.cons (.some ⟨hk, hv⟩) .nil)

end Alike

@[simp] theorem pairs_empty : (empty : JsMap κ ν).pairs = [] := rfl

end JsMap
