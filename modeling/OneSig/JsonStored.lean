/-
# What a file keeps of a value

`store.ts` and `pipeline.ts` write their records with `JSON.stringify` and read them back with
`JSON.parse`.  Nearly everything a request body can hold comes back as it was.  The exception is a
number too large for a double: `JSON.parse` reads `1e400` as `Infinity`, and `JSON.stringify`
writes `Infinity` as `null`, since the grammar has no literal for it.  So a value that was read
from a request and then went through a file is the same value with `null` in the place of every
such number, however deep it stands.

`Json.stored` is that value.  It is the identity exactly on the values whose numbers are all finite
(`Json.stored_eq_self_iff`), it has the text of the value it came from (`stringify_stored`), and it
is what the parser makes of that text (`parse_stringify_stored`), for every value that the parser
can have produced in the first place (`Parsed`).

Such a value converts differently afterwards: `Infinity` joins as its name and `null` as the empty
text, so `BigInt` throws on `[1e400]` and is 0 on what its file gives back.  In the other direction
nothing changes.  A value that converts to an integer has no infinite number that its conversion
could see, and what comes back converts to the same integer (`bigInt_stored`).

A negative zero, which is written as `0`, is the number 0 already when it is read: a value of the
model is a rational number, and `===` does not tell the two apart either.
-/
import OneSig.JsonStringify

namespace OneSig

namespace Json

/-! ## 1. The value that comes back -/

mutual

/-- Every number in the value is finite. -/
def finite : Json → Bool
  | .infinite _ => false
  | .arr items => finiteItems items
  | .obj fields => finiteFields fields
  | _ => true

def finiteItems : List Json → Bool
  | [] => true
  | j :: rest => finite j && finiteItems rest

def finiteFields : List (Str × Json) → Bool
  | [] => true
  | p :: rest => finite p.2 && finiteFields rest

end

mutual

/-- `JSON.parse(JSON.stringify(value))`. -/
def stored : Json → Json
  | .infinite _ => .null
  | .arr items => .arr (storedItems items)
  | .obj fields => .obj (storedFields fields)
  | j => j

def storedItems : List Json → List Json
  | [] => []
  | j :: rest => stored j :: storedItems rest

def storedFields : List (Str × Json) → List (Str × Json)
  | [] => []
  | p :: rest => (p.1, stored p.2) :: storedFields rest

end

/-- An infinite number becomes `null`, also in an array. -/
example : stored (.arr [.infinite false, .str ['a']]) = .arr [.null, .str ['a']] := rfl

theorem storedItems_eq (items : List Json) : storedItems items = items.map stored := by
  induction items with
  | nil => rfl
  | cons j rest ih => rw [storedItems, ih, List.map_cons]

theorem storedFields_eq (fields : List (Str × Json)) :
    storedFields fields = fields.map fun p => (p.1, stored p.2) := by
  induction fields with
  | nil => rfl
  | cons p rest ih => rw [storedFields, ih, List.map_cons]

mutual

/-- A value of finite numbers comes back as it was. -/
theorem stored_of_finite : ∀ {j : Json}, finite j = true → stored j = j
  | .null, _ => rfl
  | .bool _, _ => rfl
  | .num _ _, _ => rfl
  | .infinite _, h => by cases h
  | .str _, _ => rfl
  | .arr items, h => by
    have hitems : finiteItems items = true := h
    rw [stored, storedItems_of_finite hitems]
  | .obj fields, h => by
    have hfields : finiteFields fields = true := h
    rw [stored, storedFields_of_finite hfields]

theorem storedItems_of_finite : ∀ {items : List Json}, finiteItems items = true →
    storedItems items = items
  | [], _ => rfl
  | j :: rest, h => by
    rw [finiteItems, Bool.and_eq_true] at h
    rw [storedItems, stored_of_finite h.1, storedItems_of_finite h.2]

theorem storedFields_of_finite : ∀ {fields : List (Str × Json)}, finiteFields fields = true →
    storedFields fields = fields
  | [], _ => rfl
  | (name, j) :: rest, h => by
    rw [finiteFields, Bool.and_eq_true] at h
    rw [storedFields, stored_of_finite h.1, storedFields_of_finite h.2]

end

mutual

/-- What comes back has finite numbers only. -/
theorem finite_stored : ∀ j : Json, finite (stored j) = true
  | .null => rfl
  | .bool _ => rfl
  | .num _ _ => rfl
  | .infinite _ => rfl
  | .str _ => rfl
  | .arr items => finiteItems_stored items
  | .obj fields => finiteFields_stored fields

theorem finiteItems_stored : ∀ items : List Json, finiteItems (storedItems items) = true
  | [] => rfl
  | j :: rest => by
    rw [storedItems, finiteItems, finite_stored j, finiteItems_stored rest, Bool.and_self]

theorem finiteFields_stored : ∀ fields : List (Str × Json),
    finiteFields (storedFields fields) = true
  | [] => rfl
  | (name, j) :: rest => by
    rw [storedFields, finiteFields, finite_stored j, finiteFields_stored rest, Bool.and_self]

end

/-- **A value comes back as it was if and only if its numbers are finite**: `null` for a number
that is not is the only thing that printing changes. -/
theorem stored_eq_self_iff {j : Json} : stored j = j ↔ finite j = true := by
  constructor
  · intro h
    rw [← h]
    exact finite_stored j
  · exact stored_of_finite

/-- The second time nothing changes. -/
@[simp] theorem stored_stored (j : Json) : stored (stored j) = stored j :=
  stored_of_finite (finite_stored j)

/-! ## 2. What it converts to -/

/-- The text of a part, before and after: the same, or with an infinite number in it before. -/
def TextKept (before after : Option Str) : Prop :=
  after = before ∨ ∃ t t', before = some t ∧ after = some t' ∧ 'I' ∈ t

theorem TextKept.isSome {before after : Option Str} (h : TextKept before after) :
    after.isSome = before.isSome := by
  rcases h with rfl | ⟨t, t', rfl, rfl, -⟩
  · rfl
  · rfl

theorem TextKept.element {j : Json} (h : TextKept (prim j) (prim (stored j))) :
    TextKept (element j (prim j)) (element (stored j) (prim (stored j))) := by
  cases j with
  | null => exact Or.inl rfl
  | infinite negative =>
    refine Or.inr ⟨_, _, rfl, rfl, ?_⟩
    cases negative <;> decide
  | _ => exact h

/-- The text that a part with an infinite number goes into has one too. -/
theorem TextKept.join {a a' b b' : Option Str} (ha : TextKept a a') (hb : TextKept b b') :
    TextKept (Json.join a b) (Json.join a' b') := by
  rcases ha with rfl | ⟨t, t', rfl, rfl, ht⟩
  · rcases hb with rfl | ⟨u, u', rfl, rfl, hu⟩
    · exact Or.inl rfl
    · cases a' with
      | none => exact Or.inl rfl
      | some t => exact Or.inr ⟨_, _, rfl, rfl, List.mem_append_right _ hu⟩
  · rcases hb with rfl | ⟨u, u', rfl, rfl, -⟩
    · cases b' with
      | none => exact Or.inl rfl
      | some u =>
        exact Or.inr ⟨_, _, rfl, rfl, List.mem_append_left _ (List.mem_append_left _ ht)⟩
    · exact Or.inr ⟨_, _, rfl, rfl, List.mem_append_left _ (List.mem_append_left _ ht)⟩

mutual

/-- Only an infinite number changes the text of a value. -/
theorem prim_stored : ∀ j : Json, TextKept (prim j) (prim (stored j))
  | .null => Or.inl rfl
  | .bool _ => Or.inl rfl
  | .num _ _ => Or.inl rfl
  | .infinite negative => Or.inr ⟨_, _, rfl, rfl, by cases negative <;> decide⟩
  | .str _ => Or.inl rfl
  | .arr items => joined_stored items
  | .obj fields => by
    have hlookup : ((storedFields fields).lookup "toString".toList).isSome =
        (fields.lookup "toString".toList).isSome := by
      induction fields with
      | nil => rfl
      | cons p rest ih =>
        rw [storedFields, List.lookup_cons, List.lookup_cons]
        cases "toString".toList == p.1 with
        | true => rfl
        | false => exact ih
    refine Or.inl ?_
    rw [stored, prim, prim, hlookup]

theorem joined_stored : ∀ items : List Json, TextKept (joined items) (joined (storedItems items))
  | [] => Or.inl rfl
  | [j] => (prim_stored j).element
  | j :: j' :: rest => (prim_stored j).element.join (joined_stored (j' :: rest))

end

/-- A value that converts to text comes back as one that converts to text. -/
theorem text_stored_isOk (j : Json) : (text (stored j)).isOk = (text j).isOk := by
  have hkept := (prim_stored j).isSome
  unfold text
  cases hprim : prim j with
  | none =>
    rw [hprim, Option.isSome_none, Option.isSome_eq_false_iff, Option.isNone_iff_eq_none] at hkept
    rw [hkept]
  | some t =>
    rw [hprim, Option.isSome_some, Option.isSome_iff_exists] at hkept
    obtain ⟨t', ht'⟩ := hkept
    rw [ht']
    rfl

/-- A value that converts to an integer comes back as one that converts to the same. -/
theorem bigInt_stored {j : Json} {n : Int} (h : bigInt j = .ok n) : bigInt (stored j) = .ok n := by
  have htext : ∀ {j' : Json}, TextKept (prim j') (prim (stored j')) →
      (text j').bind bigIntOfString = .ok n → (text (stored j')).bind bigIntOfString = .ok n := by
    rintro j' (heq | ⟨t, t', hprim, -, ht⟩) h
    · rw [text, heq]
      exact h
    · rw [text, hprim] at h
      have hnone : bigIntOfString t = .ok n := h
      rw [bigIntOfString, stringToBigInt_none (by decide) ht] at hnone
      cases hnone
  cases j with
  | arr items => exact htext (prim_stored (.arr items)) h
  | obj fields => exact htext (prim_stored (.obj fields)) h
  | infinite negative => cases h
  | _ => exact h

end Json

namespace JsonText

open Json

/-! ## 3. The text of it -/

mutual

/-- The value that comes back has the same text. -/
theorem stringify_stored : ∀ j : Json, stringify (stored j) = stringify j
  | .null => rfl
  | .bool _ => rfl
  | .num _ _ => rfl
  | .infinite _ => rfl
  | .str _ => rfl
  | .arr items => by rw [stored, stringify, stringify, stringifyItems_stored items]
  | .obj fields => by rw [stored, stringify, stringify, stringifyFields_stored fields]

theorem stringifyItems_stored : ∀ items : List Json,
    stringifyItems (storedItems items) = stringifyItems items
  | [] => rfl
  | [j] => stringify_stored j
  | j :: j' :: rest => by
    have hrest := stringifyItems_stored (j' :: rest)
    rw [storedItems] at hrest
    rw [storedItems, storedItems, stringifyItems_cons, stringifyItems_cons, stringify_stored j,
      hrest]

theorem stringifyFields_stored : ∀ fields : List (Str × Json),
    stringifyFields (storedFields fields) = stringifyFields fields
  | [] => rfl
  | [(name, j)] => congrArg (quote name ++ ':' :: ·) (stringify_stored j)
  | (name, j) :: p' :: rest => by
    have hrest := stringifyFields_stored (p' :: rest)
    rw [storedFields] at hrest
    rw [storedFields, storedFields, stringifyFields_cons, stringifyFields_cons,
      stringify_stored j, hrest]

end

/-- A value that `JSON.parse` can produce: unlike `Wellformed`, with infinite numbers. -/
inductive Parsed (num : Numbers) : Json → Prop
  | null : Parsed num .null
  | bool (b : Bool) : Parsed num (.bool b)
  | num {q : ℚ} (h : num.Double q) : Parsed num (.num q (num.text q))
  | infinite (negative : Bool) : Parsed num (.infinite negative)
  | str (s : Str) : Parsed num (.str s)
  | arr {items : List Json} (h : ∀ j ∈ items, Parsed num j) : Parsed num (.arr items)
  | obj {fields : List (Str × Json)} (hnames : (fields.map Prod.fst).Nodup)
      (h : ∀ p ∈ fields, Parsed num p.2) : Parsed num (.obj fields)

theorem Parsed.wellformed_stored {num : Numbers} {j : Json} (h : Parsed num j) :
    Wellformed num (stored j) := by
  induction h with
  | null => exact .null
  | bool b => exact .bool b
  | num h => exact .num h
  | infinite negative => exact .null
  | str s => exact .str s
  | arr _ ih =>
    rw [stored, storedItems_eq]
    refine .arr fun j hj => ?_
    obtain ⟨i, hi, rfl⟩ := List.mem_map.mp hj
    exact ih i hi
  | obj hnames _ ih =>
    rw [stored, storedFields_eq]
    refine .obj ?_ fun p hp => ?_
    · rw [List.map_map]
      exact hnames
    · obtain ⟨q, hq, rfl⟩ := List.mem_map.mp hp
      exact ih q hq

/-- **The value that comes back is what the parser makes of the text**: `stored` is the round trip
through a file for every value that came out of the parser. -/
theorem parse_stringify_stored {num : Numbers} (hnum : num.Lawful) {j : Json} (h : Parsed num j) :
    parse num (stringify j) = some (stored j) := by
  rw [← stringify_stored]
  exact parse_stringify hnum h.wellformed_stored

end JsonText

end OneSig
