/-
# A map behind a cache

Two partial maps hold the values of one: a near map, which a lookup asks first and fills, and a
far one, which survives a restart.  They are not asked the same question.  A caller spells a key;
the near map is asked for the key that is meant, the far one for the name the spelling gives,
while a value is filed under the name of its key.  And they need not give the same answer: what
comes back from the far map may be less than what was given to it, as when it keeps texts and not
every value has one.  `kept r` is what it gives back for `r`; the near map has `r` itself as long
as it has not been emptied since.

`Refines` says which map the two of them hold, and which of its keys were given their value since
the near map was last emptied.  Each operation is followed by one rule for it: a lookup changes
nothing, a restart makes every key an old one, and a value that is put in is a new one.  From these
a lookup is settled completely (`Refines.lookup_iff`): it agrees with the map exactly when there
is nothing to find, or the value is a new one, or the spelling gives the name of its key, or the
near map has the key, and in the last two cases nothing of the value is lost.

Section 3 is about a value that reached the near map and perhaps its place in the far one, though
its caller was told that it did not.  `lookup_write_iff` says when no lookup can tell, before a
restart and after it.
-/
import Mathlib.Logic.Function.Basic

namespace Cache

/-- The two maps. -/
structure Store (κ ν ρ : Type) where
  near : κ → Option ρ
  far : ν → Option ρ

/-- What is asked for a spelling, and where the value of a key is filed.  A name that a valid
key's spelling gives is the name of no other valid key. -/
structure Keys (σ κ ν : Type) where
  key : σ → κ
  name : σ → ν
  home : κ → ν
  valid : κ → Prop
  home_inj : ∀ {k k' : κ}, valid k → valid k' → home k = home k' → k = k'
  spelled : ∀ {c : σ} {k : κ}, valid (key c) → valid k → home k = name c → k = key c

variable {σ κ ν ρ : Type}

/-! ## 1. Operations -/

/-- Look a spelling up. -/
def lookup (K : Keys σ κ ν) (s : Store κ ν ρ) (c : σ) : Option ρ :=
  (s.near (K.key c)).or (s.far (K.name c))

/-- What a lookup leaves behind. -/
def fill [DecidableEq κ] (K : Keys σ κ ν) (c : σ) (s : Store κ ν ρ) : Store κ ν ρ :=
  { s with near := Function.update s.near (K.key c) (lookup K s c) }

/-- Give a key a value in the near map, while its place in the far one comes to read `x`. -/
def write [DecidableEq κ] [DecidableEq ν] (K : Keys σ κ ν) (k : κ) (r : ρ) (x : Option ρ)
    (s : Store κ ν ρ) : Store κ ν ρ :=
  ⟨Function.update s.near k (some r), Function.update s.far (K.home k) x⟩

/-- Give a key a value in both maps. -/
def put [DecidableEq κ] [DecidableEq ν] (K : Keys σ κ ν) (kept : ρ → ρ) (k : κ) (r : ρ)
    (s : Store κ ν ρ) : Store κ ν ρ :=
  write K k r (some (kept r)) s

/-- Lose the near map. -/
def restart (s : Store κ ν ρ) : Store κ ν ρ := { s with near := fun _ => none }

@[simp] theorem lookup_restart (K : Keys σ κ ν) (s : Store κ ν ρ) (c : σ) :
    lookup K (restart s) c = s.far (K.name c) := rfl

@[simp] theorem fill_near [DecidableEq κ] (K : Keys σ κ ν) (s : Store κ ν ρ) (c : σ) :
    (fill K c s).near = Function.update s.near (K.key c) (lookup K s c) := rfl

section Write

variable [DecidableEq κ] [DecidableEq ν] (K : Keys σ κ ν) (s : Store κ ν ρ) (k : κ) (r : ρ)
  (x : Option ρ) (kept : ρ → ρ)

@[simp] theorem write_near : (write K k r x s).near = Function.update s.near k (some r) := rfl

@[simp] theorem write_far : (write K k r x s).far = Function.update s.far (K.home k) x := rfl

@[simp] theorem put_near : (put K kept k r s).near = Function.update s.near k (some r) := rfl

@[simp] theorem put_far :
    (put K kept k r s).far = Function.update s.far (K.home k) (some (kept r)) := rfl

end Write

theorem lookup_of_near {K : Keys σ κ ν} {s : Store κ ν ρ} {c : σ} {r : ρ}
    (h : s.near (K.key c) = some r) : lookup K s c = some r := by
  rw [lookup, h, Option.some_or]

theorem lookup_of_not_near {K : Keys σ κ ν} {s : Store κ ν ρ} {c : σ}
    (h : s.near (K.key c) = none) : lookup K s c = s.far (K.name c) := by
  rw [lookup, h, Option.none_or]

/-- A key that the near map has is not changed by a lookup. -/
theorem fill_of_near [DecidableEq κ] {K : Keys σ κ ν} {s : Store κ ν ρ} {c : σ}
    (h : s.near (K.key c) = lookup K s c) : fill K c s = s := by
  rw [fill, ← h, Function.update_eq_self]

/-- A lookup does not change what a spelling finds that names its key as the first one did. -/
theorem lookup_fill [DecidableEq κ] {K : Keys σ κ ν} {s : Store κ ν ρ} {c c' : σ}
    (h : K.key c' = K.key c → K.name c' = K.name c) :
    lookup K (fill K c s) c' = lookup K s c' := by
  by_cases hkey : K.key c' = K.key c
  · rw [lookup, lookup, fill_near, hkey, h hkey, Function.update_self]
    change (lookup K s c).or (s.far (K.name c)) = lookup K s c
    rw [lookup, Option.or_assoc, Option.or_self]
  · rw [lookup, lookup, fill_near, Function.update_of_ne hkey]
    rfl

/-! ## 2. The map the two hold -/

/-- What a lookup can find for a key: its value if it is a new one, else what is kept of it. -/
def served (kept : ρ → ρ) (reg : κ → Option ρ) (recent : κ → Bool) (k : κ) : Option ρ :=
  if recent k = true then reg k else (reg k).map kept

/-- The two maps hold `reg`: the far one what is kept of all of it, under the names of its keys,
the near one a part of it, as far as valid keys go, with all the new values. -/
structure Refines (K : Keys σ κ ν) (kept : ρ → ρ) (s : Store κ ν ρ) (reg : κ → Option ρ)
    (recent : κ → Bool) : Prop where
  valid : ∀ {k : κ} {r : ρ}, reg k = some r → K.valid k
  near : ∀ {k : κ} {r : ρ}, K.valid k → s.near k = some r → served kept reg recent k = some r
  recent : ∀ {k : κ}, recent k = true → (s.near k).isSome
  far : ∀ {n : ν} {r : ρ}, s.far n = some r ↔ ∃ k, K.home k = n ∧ (reg k).map kept = some r

section Refines

variable {K : Keys σ κ ν} {kept : ρ → ρ} {s : Store κ ν ρ} {reg : κ → Option ρ} {recent : κ → Bool}

theorem served_recent {k : κ} (h : recent k = true) : served kept reg recent k = reg k := by
  rw [served, if_pos h]

theorem served_old {k : κ} (h : recent k = false) :
    served kept reg recent k = (reg k).map kept := by
  rw [served, if_neg (by simp [h])]

/-- What is kept of a value is the value, when that is all there is. -/
theorem map_kept_iff {x : Option ρ} : x.map kept = x ↔ ∀ r, x = some r → kept r = r := by
  cases x with
  | none => simp
  | some r => simp

theorem Refines.empty : Refines K kept (⟨fun _ => none, fun _ => none⟩ : Store κ ν ρ)
    (fun _ => none) fun _ => false := by
  constructor <;> simp

theorem Refines.restart (h : Refines K kept s reg recent) :
    Refines K kept (restart s) reg fun _ => false := by
  refine ⟨h.valid, ?_, nofun, h.far⟩
  intro k r _ hnear
  simp [Cache.restart] at hnear

/-- What is filed under the name a spelling gives is what is kept of the value of its key. -/
theorem Refines.far_name (h : Refines K kept s reg recent) {c : σ} (hc : K.valid (K.key c)) {r : ρ}
    (hfar : s.far (K.name c) = some r) :
    (reg (K.key c)).map kept = some r ∧ K.home (K.key c) = K.name c := by
  obtain ⟨k, hhome, hreg⟩ := h.far.mp hfar
  obtain ⟨r₀, hr₀, -⟩ := Option.map_eq_some_iff.mp hreg
  have hkey := K.spelled hc (h.valid hr₀) hhome
  subst hkey
  exact ⟨hreg, hhome⟩

/-- A new value is in the near map. -/
theorem Refines.not_recent (h : Refines K kept s reg recent) {k : κ} (hnear : s.near k = none) :
    recent k = false := by
  by_contra hrecent
  have hsome := h.recent (eq_true_of_ne_false hrecent)
  rw [hnear] at hsome
  cases hsome

/-- A lookup that finds something finds what is served for the key that is meant. -/
theorem Refines.lookup_some (h : Refines K kept s reg recent) {c : σ} (hc : K.valid (K.key c))
    {r : ρ} (hlook : lookup K s c = some r) : served kept reg recent (K.key c) = some r := by
  cases hnear : s.near (K.key c) with
  | some r' =>
    rw [lookup_of_near hnear] at hlook
    rw [← hlook]
    exact h.near hc hnear
  | none =>
    rw [lookup_of_not_near hnear] at hlook
    rw [served_old (h.not_recent hnear)]
    exact (h.far_name hc hlook).1

/-- A lookup finds what is served unless it misses, in the near map and by its name, a value that is
there. -/
theorem Refines.lookup_served_iff (h : Refines K kept s reg recent) {c : σ}
    (hc : K.valid (K.key c)) : lookup K s c = served kept reg recent (K.key c) ↔
      K.home (K.key c) = K.name c ∨ (s.near (K.key c)).isSome ∨ reg (K.key c) = none := by
  constructor
  · intro heq
    cases hnear : s.near (K.key c) with
    | some r => exact Or.inr (Or.inl rfl)
    | none =>
      rw [lookup_of_not_near hnear] at heq
      cases hreg : reg (K.key c) with
      | none => exact Or.inr (Or.inr rfl)
      | some r =>
        rw [served_old (h.not_recent hnear), hreg, Option.map_some] at heq
        exact Or.inl (h.far_name hc heq).2
  · intro hcond
    cases hlook : lookup K s c with
    | some r => exact (h.lookup_some hc hlook).symm
    | none =>
      have hmiss := Option.or_eq_none_iff.mp hlook
      rw [served_old (h.not_recent hmiss.1)]
      rcases hcond with hname | hsome | hreg
      · cases hreg : (reg (K.key c)).map kept with
        | none => rfl
        | some r =>
          have hfar := h.far.mpr ⟨K.key c, hname, hreg⟩
          rw [hmiss.2] at hfar
          cases hfar
      · rw [hmiss.1] at hsome
        cases hsome
      · rw [hreg]
        rfl

/-- **When a lookup agrees with the map**: there is nothing to find, or the value is a new one, or
it is found and nothing of it was lost. -/
theorem Refines.lookup_iff (h : Refines K kept s reg recent) {c : σ} (hc : K.valid (K.key c)) :
    lookup K s c = reg (K.key c) ↔ reg (K.key c) = none ∨ recent (K.key c) = true ∨
      (K.home (K.key c) = K.name c ∨ (s.near (K.key c)).isSome) ∧
        ∀ r, reg (K.key c) = some r → kept r = r := by
  have hserved := h.lookup_served_iff hc
  by_cases hrecent : recent (K.key c) = true
  · rw [served_recent hrecent] at hserved
    exact iff_of_true (hserved.mpr (Or.inr (Or.inl (h.recent hrecent)))) (Or.inr (Or.inl hrecent))
  · rw [served_old (eq_false_of_ne_true hrecent)] at hserved
    rw [or_iff_right hrecent]
    constructor
    · intro heq
      -- what is found is what is served, so that is the value
      have hkept : (reg (K.key c)).map kept = reg (K.key c) := by
        cases hlook : lookup K s c with
        | none =>
          rw [hlook] at heq
          rw [← heq, Option.map_none]
        | some r =>
          have hfound := h.lookup_some hc hlook
          rw [served_old (eq_false_of_ne_true hrecent)] at hfound
          rw [hfound, ← hlook, heq]
      rcases hserved.mp (heq.trans hkept.symm) with hname | hnear | hnone
      · exact Or.inr ⟨Or.inl hname, map_kept_iff.mp hkept⟩
      · exact Or.inr ⟨Or.inr hnear, map_kept_iff.mp hkept⟩
      · exact Or.inl hnone
    · rintro (hnone | ⟨hfinds, hkept⟩)
      · rw [hserved.mpr (Or.inr (Or.inr hnone)), hnone, Option.map_none]
      · rw [hserved.mpr (hfinds.imp_right Or.inl), map_kept_iff.mpr hkept]

variable [DecidableEq κ]

theorem Refines.fill (h : Refines K kept s reg recent) (c : σ) :
    Refines K kept (fill K c s) reg recent := by
  refine ⟨h.valid, ?_, ?_, h.far⟩
  · intro k r hk hnear
    by_cases hkey : k = K.key c
    · subst hkey
      rw [fill_near, Function.update_self] at hnear
      exact h.lookup_some hk hnear
    · rw [fill_near, Function.update_of_ne hkey] at hnear
      exact h.near hk hnear
  · intro k hrecent
    obtain ⟨r, hr⟩ := Option.isSome_iff_exists.mp (h.recent hrecent)
    by_cases hkey : k = K.key c
    · subst hkey
      rw [fill_near, Function.update_self, lookup_of_near hr]
      rfl
    · rw [fill_near, Function.update_of_ne hkey, hr]
      rfl

theorem Refines.put [DecidableEq ν] (h : Refines K kept s reg recent) {k : κ} (hk : K.valid k)
    (r : ρ) : Refines K kept (put K kept k r s) (Function.update reg k (some r))
      (Function.update recent k true) := by
  have hother : ∀ {k' : κ}, k' ≠ k → served kept (Function.update reg k (some r))
      (Function.update recent k true) k' = served kept reg recent k' := by
    intro k' hkey
    rw [served, served, Function.update_of_ne hkey, Function.update_of_ne hkey]
  refine ⟨?_, ?_, ?_, ?_⟩
  · intro k' r' hreg
    by_cases hkey : k' = k
    · rw [hkey]
      exact hk
    · rw [Function.update_of_ne hkey] at hreg
      exact h.valid hreg
  · intro k' r' hk' hnear
    by_cases hkey : k' = k
    · subst hkey
      rw [put_near, Function.update_self] at hnear
      rw [served_recent (Function.update_self ..), Function.update_self, hnear]
    · rw [put_near, Function.update_of_ne hkey] at hnear
      rw [hother hkey]
      exact h.near hk' hnear
  · intro k' hrecent
    by_cases hkey : k' = k
    · subst hkey
      rw [put_near, Function.update_self]
      rfl
    · rw [Function.update_of_ne hkey] at hrecent
      rw [put_near, Function.update_of_ne hkey]
      exact h.recent hrecent
  · intro n r'
    by_cases hn : n = K.home k
    · -- no other valid key is filed under this name
      subst hn
      rw [put_far, Function.update_self]
      constructor
      · intro hr
        exact ⟨k, rfl, by rw [Function.update_self, Option.map_some, hr]⟩
      · rintro ⟨k', hhome, hreg⟩
        by_cases hkey : k' = k
        · rw [hkey, Function.update_self, Option.map_some] at hreg
          exact hreg
        · rw [Function.update_of_ne hkey] at hreg
          obtain ⟨r₀, hr₀, -⟩ := Option.map_eq_some_iff.mp hreg
          exact absurd (K.home_inj (h.valid hr₀) hk hhome) hkey
    · rw [put_far, Function.update_of_ne hn, h.far]
      refine exists_congr fun k' => and_congr_right fun hhome => ?_
      have hkey : k' ≠ k := by
        rintro rfl
        exact hn hhome.symm
      rw [Function.update_of_ne hkey]

end Refines

/-! ## 3. A value that is not filed -/

section Write

variable [DecidableEq κ] [DecidableEq ν] {K : Keys σ κ ν} {s : Store κ ν ρ} {k : κ} {r : ρ}
  {x : Option ρ} {c : σ}

theorem lookup_write_self (hc : K.key c = k) : lookup K (write K k r x s) c = some r :=
  lookup_of_near (by rw [write_near, hc, Function.update_self])

/-- The spellings of other keys find what they found. -/
theorem lookup_write_of_ne (hk : K.valid k) (hvalid : K.valid (K.key c)) (hc : K.key c ≠ k) :
    lookup K (write K k r x s) c = lookup K s c := by
  have hname : K.name c ≠ K.home k := fun h => hc (K.spelled hvalid hk h.symm).symm
  rw [lookup, lookup, write_near, write_far, Function.update_of_ne hc, Function.update_of_ne hname]

/-- A value that was given to a key leaves no trace, before a restart and after it, exactly when
every spelling of the key found that value already, and its place reads as it did. -/
theorem lookup_write_iff {P : σ → Prop} (hk : K.valid k) (hP : ∀ c, P c → K.valid (K.key c))
    (hhome : ∃ c, P c ∧ K.name c = K.home k) :
    (∀ c, P c → lookup K (write K k r x s) c = lookup K s c ∧
        lookup K (restart (write K k r x s)) c = lookup K (restart s) c) ↔
      (∀ c, P c → K.key c = k → lookup K s c = some r) ∧ x = s.far (K.home k) := by
  constructor
  · intro h
    refine ⟨fun c hc hkey => ?_, ?_⟩
    · rw [← (h c hc).1, lookup_write_self hkey]
    · obtain ⟨c, hc, hname⟩ := hhome
      have hlost := (h c hc).2
      rw [lookup_restart, lookup_restart, hname, write_far, Function.update_self] at hlost
      exact hlost
  · rintro ⟨hheld, hx⟩ c hc
    constructor
    · by_cases hkey : K.key c = k
      · rw [lookup_write_self hkey, hheld c hc hkey]
      · exact lookup_write_of_ne hk (hP c hc) hkey
    · rw [lookup_restart, lookup_restart, write_far, hx, Function.update_eq_self]

end Write

end Cache
