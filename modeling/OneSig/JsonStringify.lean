/-
# `JSON.stringify`, and back

The text of a value without spaces, as `JSON.stringify` with one argument writes it, and that
`JSON.parse` reads the value back off it.  A non-finite number is written as `null`, the
characters below U+0020 by their short escapes or their codes, and no other character is escaped.

Not every value of the type comes back.  `Wellformed` are the ones that the parser can produce:
the names of an object are distinct, and a number is the value of some literal.  That such a
number prints as a literal of itself is the engine's part and the only hypothesis
(`Numbers.Lawful`).

The proof follows the parser.  Each of its readers stops exactly where the printed part ends,
whatever stands behind it:

* `string_flatMap` for a string literal: an escaped character is read back as the character it
  was, and the closing quote is the first one that is not escaped;
* `number_append` for a number, behind which nothing may stand that a number could go on with
  (`Delimited`: a comma, a bracket, a brace or the end);
* `readsBack` for a value, by induction on its structure, with `elements_stringify` and
  `members_stringify` for the two kinds of list; fuel for the printed text is enough.

`parse_stringify` is the whole text.  `parse_double` goes the other way: a number that stands in a
parsed object is one that JSON can hold, so a record that was read and is written again comes
back.

The last section is about texts that need no escapes, for which quoting is putting quotes around.
-/
import Mathlib.Data.List.TakeWhile
import OneSig.JsonText

namespace OneSig

/-- A number that JSON can hold. -/
def Numbers.Double (num : Numbers) (q : ℚ) : Prop := ∃ literal, num.value literal = some q

/-- Such a number prints as a literal, and reads back. -/
structure Numbers.Lawful (num : Numbers) : Prop where
  zero : num.value ['0'] = some 0
  literal : ∀ q, num.Double q → JsonText.number (num.text q) = some (num.text q, [])
  value : ∀ q, num.Double q → num.value (num.text q) = some q

namespace JsonText

/-! ## 1. The text of a value -/

/-- A character of a string literal. -/
def escaped (c : Char) : Str :=
  if c = '"' then ['\\', '"']
  else if c = '\\' then ['\\', '\\']
  else if c = Char.ofNat 0x08 then ['\\', 'b']
  else if c = Char.ofNat 0x0C then ['\\', 'f']
  else if c = '\n' then ['\\', 'n']
  else if c = '\r' then ['\\', 'r']
  else if c = '\t' then ['\\', 't']
  else if c.toNat < 0x20 then '\\' :: 'u' :: Bytes.hexEncode [0, UInt8.ofNat c.toNat]
  else [c]

/-- A string literal. -/
def quote (s : Str) : Str := '"' :: (s.flatMap escaped ++ ['"'])

mutual

/-- `JSON.stringify(value)`. -/
def stringify : Json → Str
  | .null => "null".toList
  | .bool b => if b then "true".toList else "false".toList
  | .num _ text => text
  | .infinite _ => "null".toList
  | .str s => quote s
  | .arr items => '[' :: (stringifyItems items ++ [']'])
  | .obj fields => '{' :: (stringifyFields fields ++ ['}'])

def stringifyItems : List Json → Str
  | [] => []
  | [j] => stringify j
  | j :: rest => stringify j ++ ',' :: stringifyItems rest

def stringifyFields : List (Str × Json) → Str
  | [] => []
  | [p] => quote p.1 ++ ':' :: stringify p.2
  | p :: rest => quote p.1 ++ ':' :: (stringify p.2 ++ ',' :: stringifyFields rest)

end

theorem stringifyItems_cons (j j' : Json) (rest : List Json) : stringifyItems (j :: j' :: rest) =
    stringify j ++ ',' :: stringifyItems (j' :: rest) := rfl

theorem stringifyFields_cons (p p' : Str × Json) (rest : List (Str × Json)) :
    stringifyFields (p :: p' :: rest) =
      quote p.1 ++ ':' :: (stringify p.2 ++ ',' :: stringifyFields (p' :: rest)) := rfl

example : stringify (.obj [(['a'], .arr [.null, .str ['\n', 'b', '"']])]) =
    "\x7b\"a\":[null,\"\\nb\\\"\"]\x7d".toList := by decide

/-- A value that `JSON.parse` can give back. -/
inductive Wellformed (num : Numbers) : Json → Prop
  | null : Wellformed num .null
  | bool (b : Bool) : Wellformed num (.bool b)
  | num {q : ℚ} (h : num.Double q) : Wellformed num (.num q (num.text q))
  | str (s : Str) : Wellformed num (.str s)
  | arr {items : List Json} (h : ∀ j ∈ items, Wellformed num j) : Wellformed num (.arr items)
  | obj {fields : List (Str × Json)} (hnames : (fields.map Prod.fst).Nodup)
      (h : ∀ p ∈ fields, Wellformed num p.2) : Wellformed num (.obj fields)

/-! ## 2. Strings -/

theorem string_escape {c : Char} {tail rest : Str} (n : Nat) (h : escape tail = some (c, rest)) :
    string (n + 1) ('\\' :: tail) = (string n rest).map fun p => (c :: p.1, p.2) := by
  rw [string, h]

theorem string_plain {c : Char} (n : Nat) (rest : Str) (hquote : c ≠ '"') (hback : c ≠ '\\')
    (hc : ¬c.toNat < 0x20) :
    string (n + 1) (c :: rest) = (string n rest).map fun p => (c :: p.1, p.2) := by
  conv_lhs => unfold string
  split
  case h_1 heq => exact absurd (List.cons.inj heq).1 hquote
  case h_2 heq => exact absurd (List.cons.inj heq).1 hback
  case h_3 heq =>
    cases heq
    rw [if_neg hc]
  case h_4 heq => cases heq

/-- A control character is escaped by its code. -/
theorem escape_code {c : Char} (rest : Str) (hc : c.toNat < 0x20) :
    escape ('u' :: (Bytes.hexEncode [0, UInt8.ofNat c.toNat] ++ rest)) = some (c, rest) := by
  have hbyte : (UInt8.ofNat c.toNat).toNat = c.toNat := by
    rw [UInt8.toNat_ofNat']
    omega
  have hunit : hexUnit (Bytes.hexEncode [0, UInt8.ofNat c.toNat] ++ rest) = some (c.toNat, rest) := by
    have hnat := Bytes.hexNat_hexEncode [0, UInt8.ofNat c.toNat]
    have hvalue : Bytes.beNat [0, UInt8.ofNat c.toNat] = c.toNat := by
      simp [Bytes.beNat, hbyte]
    rw [hvalue] at hnat
    change (Bytes.hexNat (Bytes.hexEncode [0, UInt8.ofNat c.toNat])).map _ = _
    rw [hnat]
    rfl
  rw [escape, hunit]
  dsimp only
  rw [if_neg (by omega), Char.ofNat_toNat]

theorem string_escaped (n : Nat) (c : Char) (rest : Str) :
    string (n + 1) (escaped c ++ rest) = (string n rest).map fun p => (c :: p.1, p.2) := by
  unfold escaped
  split_ifs with hquote hback hbs hff hnl hcr htab hcode
  · subst hquote
    exact string_escape n rfl
  · subst hback
    exact string_escape n rfl
  · subst hbs
    exact string_escape n rfl
  · subst hff
    exact string_escape n rfl
  · subst hnl
    exact string_escape n rfl
  · subst hcr
    exact string_escape n rfl
  · subst htab
    exact string_escape n rfl
  · exact string_escape n (escape_code rest hcode)
  · exact string_plain n rest hquote hback hcode

/-- **A string literal is read back**, with every escape that `JSON.stringify` writes, and what
stands behind the closing quote is left. -/
theorem string_flatMap {s : Str} {n : Nat} (rest : Str) (h : s.length < n) :
    string n (s.flatMap escaped ++ '"' :: rest) = some (s, rest) := by
  induction s generalizing n with
  | nil =>
    cases n with
    | zero => cases h
    | succ n => rfl
  | cons c s ih =>
    cases n with
    | zero => cases h
    | succ n =>
      rw [List.flatMap_cons, List.append_assoc, string_escaped, ih (Nat.lt_of_succ_lt_succ h)]
      rfl

theorem length_escaped (c : Char) : 0 < (escaped c).length := by
  unfold escaped
  split_ifs <;> simp

theorem length_flatMap_escaped (s : Str) : s.length ≤ (s.flatMap escaped).length := by
  induction s with
  | nil => exact Nat.le_refl _
  | cons c s ih =>
    have hc := length_escaped c
    rw [List.flatMap_cons, List.length_append, List.length_cons]
    omega

/-- As the readers of values call it. -/
theorem string_quote (s rest : Str) :
    string ((s.flatMap escaped ++ '"' :: rest).length + 1) (s.flatMap escaped ++ '"' :: rest) =
      some (s, rest) := by
  refine string_flatMap rest ?_
  have hlen := length_flatMap_escaped s
  rw [List.length_append]
  omega

/-! ## 3. Numbers -/

/-- What can stand behind a number without being read as part of it. -/
def Delimited (rest : Str) : Prop := ∀ c ∈ rest.head?, c.isDigit = false ∧ c ∉ ['.', 'e', 'E', '+', '-']

theorem delimited_nil : Delimited [] := by simp [Delimited]

theorem Delimited.cons {c : Char} (rest : Str)
    (h : c.isDigit = false ∧ c ∉ ['.', 'e', 'E', '+', '-']) : Delimited (c :: rest) := by
  intro d hd
  cases hd
  exact h

section Number

variable {rest : Str}

theorem digits_append (hrest : Delimited rest) (s : Str) :
    digits (s ++ rest) = ((digits s).1, (digits s).2 ++ rest) := by
  induction s with
  | nil =>
    cases rest with
    | nil => rfl
    | cons c rest =>
      have hc := (hrest c rfl).1
      simp [digits, hc]
  | cons c s ih =>
    rw [digits, Prod.mk.injEq] at ih
    cases hc : c.isDigit with
    | false => simp [digits, hc]
    | true =>
      simp only [digits, List.cons_append, List.takeWhile_cons, List.dropWhile_cons, hc, if_true,
        Prod.mk.injEq, List.cons.injEq, true_and]
      exact ih

theorem signOf_append {signs : List Char} (hsigns : ∀ c ∈ signs, c ∈ ['+', '-'])
    (hrest : Delimited rest) (s : Str) :
    signOf signs (s ++ rest) = ((signOf signs s).1, (signOf signs s).2 ++ rest) := by
  cases s with
  | nil =>
    cases rest with
    | nil => rfl
    | cons c rest =>
      have hc : c ∉ signs := fun h => by
        have hsign := hsigns c h
        exact (hrest c rfl).2 (by revert hsign; simp; tauto)
      simp [signOf, hc]
  | cons c s =>
    by_cases hc : c ∈ signs
    · simp [signOf, hc]
    · simp [signOf, hc]

theorem wholePart_append (hrest : Delimited rest) (s : Str) :
    wholePart (s ++ rest) = ((wholePart s).1, (wholePart s).2 ++ rest) := by
  have hplain : ∀ {c : Char} (t : Str), c ≠ '0' → wholePart (c :: t) = digits (c :: t) := by
    intro c t hc
    unfold wholePart
    split
    case h_1 heq => exact absurd (List.cons.inj heq).1 hc
    case h_2 => rfl
  cases s with
  | nil =>
    cases rest with
    | nil => rfl
    | cons c rest =>
      have hc : c ≠ '0' := fun h => by
        have hdigit := (hrest c rfl).1
        subst h
        cases hdigit
      rw [List.nil_append, hplain rest hc]
      exact digits_append hrest []
  | cons c s =>
    by_cases hc : c = '0'
    · subst hc
      rfl
    · rw [List.cons_append, hplain _ hc, hplain _ hc]
      exact digits_append hrest (c :: s)

theorem numberPart_append {marks signs : List Char} (hmarks : ∀ c ∈ marks, c ∈ ['.', 'e', 'E'])
    (hsigns : ∀ c ∈ signs, c ∈ ['+', '-']) (hrest : Delimited rest) {s t tail : Str}
    (h : numberPart marks signs s = some (t, tail)) :
    numberPart marks signs (s ++ rest) = some (t, tail ++ rest) := by
  cases s with
  | nil =>
    cases h
    cases rest with
    | nil => rfl
    | cons c rest =>
      have hc : c ∉ marks := fun h => by
        have hmark := hmarks c h
        exact (hrest c rfl).2 (by revert hmark; simp; tauto)
      simp [numberPart, hc]
  | cons c s =>
    by_cases hc : c ∈ marks
    · simp only [numberPart, List.cons_append, if_pos hc] at h ⊢
      rw [signOf_append hsigns hrest, digits_append hrest]
      cases hd : digits (signOf signs s).2 with
      | mk ds tail' =>
        rw [hd] at h
        cases ds with
        | nil => cases h
        | cons d ds =>
          cases h
          rfl
    · simp only [numberPart, List.cons_append, if_neg hc] at h ⊢
      cases h
      rfl

/-- **A number is read to its end and no further**, when what stands behind it cannot continue a
number: a comma, a bracket, a space or nothing. -/
theorem number_append (hrest : Delimited rest) {s t tail : Str}
    (h : number s = some (t, tail)) : number (s ++ rest) = some (t, tail ++ rest) := by
  unfold number at h ⊢
  dsimp only at h ⊢
  rw [signOf_append (by simp) hrest, wholePart_append hrest]
  dsimp only
  split at h
  case isTrue => cases h
  case isFalse hwhole =>
    rw [if_neg hwhole]
    split at h
    case h_1 => cases h
    case h_2 fraction tail' hfraction =>
      rw [numberPart_append (by simp) (by simp) hrest hfraction]
      obtain ⟨⟨t', tail''⟩, hexp, hp⟩ := Option.map_eq_some_iff.mp h
      dsimp only
      rw [numberPart_append (by simp) (by simp) hrest hexp]
      simp only [Prod.mk.injEq] at hp
      obtain ⟨rfl, rfl⟩ := hp
      rfl

/-- A number begins with a sign or a digit. -/
theorem number_head {s t tail : Str} (h : number s = some (t, tail)) :
    ∃ c s', s = c :: s' ∧ (c = '-' ∨ c.isDigit = true) := by
  cases s with
  | nil => cases h
  | cons c s =>
    refine ⟨c, s, rfl, ?_⟩
    by_contra hc
    obtain ⟨hminus, hdigit⟩ := not_or.mp hc
    have hzero : c ≠ '0' := by
      rintro rfl
      exact hdigit rfl
    have hwhole : wholePart (c :: s) = ([], c :: s) := by
      unfold wholePart
      split
      case h_1 heq => exact absurd (List.cons.inj heq).1 hzero
      case h_2 => simp [digits, hdigit]
    have hsign : signOf ['-'] (c :: s) = ([], c :: s) := by simp [signOf, hminus]
    simp only [number, hsign, hwhole] at h
    cases h

end Number

/-! ## 4. Values -/

theorem skipWs_cons {c : Char} (rest : Str) (h : isWs c = false) : skipWs (c :: rest) = c :: rest := by
  simp [skipWs, h]

theorem digit_not_ws {c : Char} (h : c.isDigit = true) : isWs c = false := by
  have hall : ∀ d : Char, d.isDigit = false → c ≠ d := by
    rintro d hd rfl
    rw [h] at hd
    cases hd
  simp [isWs, hall ' ' rfl, hall '\t' rfl, hall '\n' rfl, hall '\r' rfl]

theorem value_string (num : Numbers) (n : Nat) (s : Str) : value num (n + 1) ('"' :: s) =
    (string (s.length + 1) s).map fun p => (.str p.1, p.2) := rfl

theorem value_brace (num : Numbers) (n : Nat) (s : Str) :
    value num (n + 1) ('\x7b' :: s) = match skipWs s with
      | '\x7d' :: rest => some (.obj [], rest)
      | rest => (members num n [] rest).map fun p => (.obj p.1, p.2) := rfl

theorem value_open (num : Numbers) (n : Nat) (c : Char) (s : Str) (hc : isWs c = false)
    (hend : c ≠ '\x7d') : value num (n + 1) ('\x7b' :: c :: s) =
      (members num n [] (c :: s)).map fun p => (.obj p.1, p.2) := by
  rw [value_brace, skipWs_cons s hc]
  split
  case h_1 heq => exact absurd (List.cons.inj heq).1 hend
  case h_2 => rfl

theorem value_square (num : Numbers) (n : Nat) (s : Str) :
    value num (n + 1) ('[' :: s) = match skipWs s with
      | ']' :: rest => some (.arr [], rest)
      | rest => (elements num n rest).map fun p => (.arr p.1, p.2) := rfl

theorem value_bracket (num : Numbers) (n : Nat) (c : Char) (s : Str) (hc : isWs c = false)
    (hend : c ≠ ']') : value num (n + 1) ('[' :: c :: s) =
      (elements num n (c :: s)).map fun p => (.arr p.1, p.2) := by
  rw [value_square, skipWs_cons s hc]
  split
  case h_1 heq => exact absurd (List.cons.inj heq).1 hend
  case h_2 => rfl

section Readers

variable {num : Numbers} {n : Nat} {s rest : Str} {j : Json}

theorem elements_comma (h : value num n s = some (j, ',' :: rest)) :
    elements num (n + 1) s = (elements num n rest).map fun p => (j :: p.1, p.2) := by
  rw [elements, h]
  rfl

theorem elements_close (h : value num n s = some (j, ']' :: rest)) :
    elements num (n + 1) s = some ([j], rest) := by
  rw [elements, h]
  rfl

/-- What follows the value of a member. -/
def memberEnd (num : Numbers) (n : Nat) (fields : List (Str × Json)) (name : Str) :
    Option (Json × Str) → Option (List (Str × Json) × Str)
  | none => none
  | some (j, rest) =>
    match skipWs rest with
    | ',' :: rest => members num n (setMember name j fields) rest
    | '\x7d' :: rest => some (setMember name j fields, rest)
    | _ => none

theorem members_name (num : Numbers) (n : Nat) (fields : List (Str × Json)) (s : Str) :
    members num (n + 1) fields ('"' :: s) =
      match string (s.length + 1) s with
      | none => none
      | some (name, rest) =>
        match skipWs rest with
        | ':' :: rest => memberEnd num n fields name (value num n rest)
        | _ => none := rfl

theorem members_quote (num : Numbers) (n : Nat) (fields : List (Str × Json)) (name s : Str) :
    members num (n + 1) fields (quote name ++ ':' :: s) =
      memberEnd num n fields name (value num n s) := by
  rw [quote, List.cons_append, members_name, List.append_assoc, List.singleton_append,
    string_quote]
  rfl

theorem members_comma {fields : List (Str × Json)} (name : Str)
    (h : value num n s = some (j, ',' :: rest)) : members num (n + 1) fields (quote name ++ ':' :: s) =
      members num n (setMember name j fields) rest := by
  rw [members_quote, h]
  rfl

theorem members_close {fields : List (Str × Json)} (name : Str)
    (h : value num n s = some (j, '\x7d' :: rest)) :
    members num (n + 1) fields (quote name ++ ':' :: s) = some (setMember name j fields, rest) := by
  rw [members_quote, h]
  rfl

end Readers

/-- A value that begins like a number is read as one. -/
theorem value_number (num : Numbers) (n : Nat) {c : Char} (s : Str)
    (hc : c = '-' ∨ c.isDigit = true) : value num (n + 1) (c :: s) =
      (number (c :: s)).map fun p => (num.json p.1, p.2) := by
  have hws : isWs c = false := by
    rcases hc with rfl | hc
    · rfl
    · exact digit_not_ws hc
  have hother : ∀ d : Char, d.isDigit = false → d ≠ '-' → c ≠ d := by
    rintro d hd hne rfl
    rcases hc with rfl | hc
    · exact hne rfl
    · rw [hc] at hd
      cases hd
  unfold value
  rw [skipWs_cons s hws]
  split
  case h_1 heq => exact absurd (List.cons.inj heq).1 (hother _ rfl (by decide))
  case h_2 heq => exact absurd (List.cons.inj heq).1 (hother _ rfl (by decide))
  case h_3 heq => exact absurd (List.cons.inj heq).1 (hother _ rfl (by decide))
  case h_4 heq => exact absurd (List.cons.inj heq).1 (hother _ rfl (by decide))
  case h_5 heq => exact absurd (List.cons.inj heq).1 (hother _ rfl (by decide))
  case h_6 heq => exact absurd (List.cons.inj heq).1 (hother _ rfl (by decide))
  case h_7 => rfl

/-- How the text of a value begins: not with white space, and not like the end of an array. -/
theorem stringify_head {num : Numbers} (hnum : num.Lawful) {j : Json} (h : Wellformed num j) :
    ∃ c t, stringify j = c :: t ∧ isWs c = false ∧ c ≠ ']' := by
  cases h with
  | null => exact ⟨_, _, rfl, rfl, by decide⟩
  | bool b =>
    cases b with
    | true => exact ⟨_, _, rfl, rfl, by decide⟩
    | false => exact ⟨_, _, rfl, rfl, by decide⟩
  | num h =>
    obtain ⟨c, t, hcons, hc⟩ := number_head (hnum.literal _ h)
    refine ⟨c, t, hcons, ?_, ?_⟩
    · rcases hc with rfl | hc
      · rfl
      · exact digit_not_ws hc
    · rintro rfl
      rcases hc with hc | hc
      · cases hc
      · cases hc
  | str s => exact ⟨_, _, rfl, rfl, by decide⟩
  | arr h => exact ⟨_, _, rfl, rfl, by decide⟩
  | obj hnames h => exact ⟨_, _, rfl, rfl, by decide⟩

/-- The reader of values reads a printed value back, given fuel for its text. -/
def ReadsBack (num : Numbers) (j : Json) : Prop :=
  ∀ n rest, (stringify j).length < n → Delimited rest →
    value num n (stringify j ++ rest) = some (j, rest)

section Parts

variable {num : Numbers}

/-- The elements of an array are read back. -/
theorem elements_stringify {items : List Json} (hread : ∀ j ∈ items, ReadsBack num j)
    (hne : items ≠ []) {n : Nat} (rest : Str) (hn : (stringifyItems items).length + 1 < n) :
    elements num n (stringifyItems items ++ ']' :: rest) = some (items, rest) := by
  induction items generalizing n with
  | nil => exact absurd rfl hne
  | cons j items ih =>
    obtain ⟨n, rfl⟩ := Nat.exists_eq_add_of_lt (Nat.zero_lt_of_lt hn)
    have hj := hread j (List.mem_cons_self ..)
    cases items with
    | nil => exact elements_close (hj _ _ (Nat.lt_of_succ_lt_succ hn) (.cons rest (by decide)))
    | cons j' items =>
      rw [stringifyItems_cons, List.length_append, List.length_cons] at hn
      have hrest := ih (fun i hi => hread i (List.mem_cons_of_mem j hi)) (by simp) (n := 0 + n)
        (by omega)
      rw [stringifyItems_cons, List.append_assoc, List.cons_append,
        elements_comma (hj _ _ (by omega) (.cons _ (by decide))), hrest]
      rfl

/-- The members of an object are read back behind those before them. -/
theorem members_stringify {fields : List (Str × Json)} (hread : ∀ p ∈ fields, ReadsBack num p.2)
    (hne : fields ≠ []) {before : List (Str × Json)}
    (hnames : ((before ++ fields).map Prod.fst).Nodup) {n : Nat} (rest : Str)
    (hn : (stringifyFields fields).length + 1 < n) :
    members num n before (stringifyFields fields ++ '\x7d' :: rest) = some (before ++ fields, rest) := by
  induction fields generalizing n before with
  | nil => exact absurd rfl hne
  | cons p fields ih =>
    obtain ⟨n, rfl⟩ := Nat.exists_eq_add_of_lt (Nat.zero_lt_of_lt hn)
    have hj := hread p (List.mem_cons_self ..)
    have hset : setMember p.1 p.2 before = before ++ [p] := by
      rw [setMember, List.filter_eq_self.mpr]
      intro q hq
      rw [List.map_append, List.nodup_append] at hnames
      exact decide_eq_true (hnames.2.2 _ (List.mem_map_of_mem hq) _ (by simp))
    cases fields with
    | nil =>
      rw [stringifyFields, List.length_append, List.length_cons] at hn
      rw [stringifyFields, List.append_assoc, List.cons_append,
        members_close p.1 (hj _ _ (by omega) (.cons rest (by decide))), hset]
    | cons q fields =>
      rw [stringifyFields_cons, List.length_append, List.length_cons, List.length_append,
        List.length_cons] at hn
      rw [stringifyFields_cons, List.append_assoc, List.cons_append, List.append_assoc,
        List.cons_append, members_comma p.1 (hj _ _ (by omega) (.cons _ (by decide))), hset,
        ih (fun i hi => hread i (List.mem_cons_of_mem p hi)) (by simp) (by simpa using hnames)
          (by omega)]
      simp

theorem readsBack_obj {fields : List (Str × Json)} (hnames : (fields.map Prod.fst).Nodup)
    (hread : ∀ p ∈ fields, ReadsBack num p.2) : ReadsBack num (.obj fields) := by
  intro n rest hn _
  obtain ⟨n, rfl⟩ := Nat.exists_eq_add_of_lt (Nat.zero_lt_of_lt hn)
  rw [stringify, List.length_cons, List.length_append, List.length_singleton] at hn
  rw [stringify, List.cons_append, List.append_assoc, List.singleton_append]
  cases fields with
  | nil => rfl
  | cons p fields =>
    have hhead : ∃ t, stringifyFields (p :: fields) ++ '\x7d' :: rest = '"' :: t := by
      cases fields with
      | nil => exact ⟨_, rfl⟩
      | cons q fields => exact ⟨_, rfl⟩
    obtain ⟨t, ht⟩ := hhead
    have hmembers : members num (0 + n) [] (stringifyFields (p :: fields) ++ '\x7d' :: rest) =
        some ([] ++ p :: fields, rest) :=
      members_stringify hread (by simp) hnames rest (by omega)
    rw [ht] at hmembers ⊢
    rw [value_open num _ '"' t rfl (by decide), hmembers]
    rfl

end Parts

section Lawful

variable {num : Numbers} (hnum : num.Lawful)

include hnum

theorem readsBack_num {q : ℚ} (h : num.Double q) : ReadsBack num (.num q (num.text q)) := by
  intro n rest hn hrest
  have hliteral := hnum.literal q h
  obtain ⟨c, t, hcons, hc⟩ := number_head hliteral
  cases n with
  | zero => cases hn
  | succ n =>
    have hread := number_append hrest hliteral
    rw [stringify]
    rw [hcons, List.cons_append] at hread ⊢
    rw [value_number num n _ hc, hread, Option.map_some, ← hcons, Numbers.json, hnum.value q h]
    rfl

theorem readsBack_arr {items : List Json} (hitems : ∀ j ∈ items, Wellformed num j)
    (hread : ∀ j ∈ items, ReadsBack num j) : ReadsBack num (.arr items) := by
  intro n rest hn _
  obtain ⟨n, rfl⟩ := Nat.exists_eq_add_of_lt (Nat.zero_lt_of_lt hn)
  rw [stringify, List.length_cons, List.length_append, List.length_singleton] at hn
  rw [stringify, List.cons_append, List.append_assoc, List.singleton_append]
  cases items with
  | nil => rfl
  | cons j items =>
    obtain ⟨c, t, hhead, hws, hclose⟩ := stringify_head hnum (hitems j (List.mem_cons_self ..))
    have hbegins : ∃ t, stringifyItems (j :: items) ++ ']' :: rest = c :: t := by
      cases items with
      | nil => exact ⟨_, by rw [stringifyItems, hhead]; rfl⟩
      | cons j' items => exact ⟨_, by rw [stringifyItems_cons, hhead]; rfl⟩
    obtain ⟨t', ht⟩ := hbegins
    have helements := elements_stringify hread (by simp) (n := 0 + n) rest (by omega)
    rw [ht] at helements ⊢
    rw [value_bracket num _ c t' hws hclose, helements]
    rfl

/-- **Every well-formed value is read back**, whatever stands behind it, by induction over the
value with one case for each kind. -/
theorem readsBack {j : Json} (h : Wellformed num j) : ReadsBack num j := by
  induction h with
  | null =>
    intro n rest hn _
    obtain ⟨n, rfl⟩ := Nat.exists_eq_add_of_lt (Nat.zero_lt_of_lt hn)
    rfl
  | bool b =>
    intro n rest hn _
    obtain ⟨n, rfl⟩ := Nat.exists_eq_add_of_lt (Nat.zero_lt_of_lt hn)
    cases b with
    | true => rfl
    | false => rfl
  | num h => exact readsBack_num hnum h
  | str s =>
    intro n rest hn _
    obtain ⟨n, rfl⟩ := Nat.exists_eq_add_of_lt (Nat.zero_lt_of_lt hn)
    have hquote : stringify (.str s) ++ rest = '"' :: (s.flatMap escaped ++ '"' :: rest) := by
      simp [stringify, quote]
    rw [hquote, value_string, string_quote]
    rfl
  | arr h ih => exact readsBack_arr hnum h ih
  | obj hnames h ih => exact readsBack_obj hnames ih

/-- **`JSON.parse` undoes `JSON.stringify`** on every value whose numbers are printed by their own
text and whose members have distinct names. -/
theorem parse_stringify {j : Json} (h : Wellformed num j) : parse num (stringify j) = some j := by
  have hread := readsBack hnum h ((stringify j).length + 1) [] (Nat.lt_succ_self _) delimited_nil
  rw [List.append_nil] at hread
  rw [parse, hread]
  rfl

end Lawful

/-! ## 5. Numbers that were read -/

section Read

variable {num : Numbers}

theorem value_double {n : Nat} {s rest t : Str} {q : ℚ}
    (h : value num n s = some (.num q t, rest)) : num.Double q := by
  cases n with
  | zero => cases h
  | succ n =>
    unfold value at h
    split at h
    case h_1 =>
      split at h
      case h_1 => cases h
      case h_2 =>
        obtain ⟨p, -, hp⟩ := Option.map_eq_some_iff.mp h
        cases hp
    case h_2 =>
      split at h
      case h_1 => cases h
      case h_2 =>
        obtain ⟨p, -, hp⟩ := Option.map_eq_some_iff.mp h
        cases hp
    case h_7 =>
      obtain ⟨⟨literal, rest'⟩, -, hp⟩ := Option.map_eq_some_iff.mp h
      rcases num.json_cases literal with ⟨q', hq', hjson⟩ | ⟨negative, -, hjson⟩
      · rw [hjson] at hp
        cases hp
        exact ⟨literal, hq'⟩
      · rw [hjson] at hp
        cases hp
    all_goals
      obtain ⟨p, -, hp⟩ := Option.map_eq_some_iff.mp h
      cases hp

/-- Every member was read as a value. -/
theorem members_read {n : Nat} {fields out : List (Str × Json)} {s rest : Str}
    (h : members num n fields s = some (out, rest)) :
    ∀ p ∈ out, p ∈ fields ∨ ∃ n s rest, value num n s = some (p.2, rest) := by
  induction n generalizing fields s with
  | zero => cases h
  | succ n ih =>
    unfold members at h
    split at h
    case h_2 => cases h
    case h_1 =>
    split at h
    case h_1 => cases h
    case h_2 name rest₁ _ =>
    split at h
    case h_2 => cases h
    case h_1 rest₂ _ =>
    split at h
    case h_1 => cases h
    case h_2 j rest₃ hval =>
    have hset : ∀ p ∈ setMember name j fields,
        p ∈ fields ∨ ∃ n s rest, value num n s = some (p.2, rest) := by
      intro p hp
      rcases List.mem_append.mp hp with hold | hnew
      · exact Or.inl (List.mem_filter.mp hold).1
      · rw [List.mem_singleton.mp hnew]
        exact Or.inr ⟨n, _, _, hval⟩
    split at h
    case h_1 =>
      intro p hp
      rcases ih h p hp with hold | hread
      · exact hset p hold
      · exact Or.inr hread
    case h_2 =>
      cases h
      exact hset
    case h_3 => cases h

/-- **A number in a parsed object is one that JSON can hold**: the parser rounds what it reads to
a double, under whatever name it stands. -/
theorem parse_double {text name t : Str} {j : Json} {q : ℚ} (h : parse num text = some j)
    (hmember : Json.member name (some j) = some (.num q t)) : num.Double q := by
  unfold parse at h
  split at h
  case h_2 => cases h
  case h_1 j' rest hval =>
  split at h
  case isFalse => cases h
  case isTrue =>
  cases h
  cases j with
  | obj fields =>
    obtain ⟨l, r, hsplit, -⟩ := List.lookup_eq_some_iff.mp hmember
    have hmem : (name, Json.num q t) ∈ fields := by simp [hsplit]
    unfold value at hval
    split at hval
    case h_1 =>
      split at hval
      case h_1 =>
        cases hval
        cases hmem
      case h_2 =>
        obtain ⟨⟨out, rest'⟩, hmembers, hp⟩ := Option.map_eq_some_iff.mp hval
        simp only [Prod.mk.injEq, Json.obj.injEq] at hp
        obtain ⟨rfl, -⟩ := hp
        rcases members_read hmembers _ hmem with hold | ⟨n, s, rest, hread⟩
        · cases hold
        · exact value_double hread
    case h_2 =>
      split at hval
      case h_1 => cases hval
      case h_2 =>
        obtain ⟨p, -, hp⟩ := Option.map_eq_some_iff.mp hval
        cases hp
    case h_7 =>
      obtain ⟨⟨literal, rest'⟩, -, hp⟩ := Option.map_eq_some_iff.mp hval
      rcases num.json_cases literal with ⟨q', -, hjson⟩ | ⟨negative, -, hjson⟩
      · rw [hjson] at hp
        cases hp
      · rw [hjson] at hp
        cases hp
    all_goals
      obtain ⟨p, -, hp⟩ := Option.map_eq_some_iff.mp hval
      cases hp
  | _ => cases hmember

end Read

/-! ## 6. Texts without escapes -/

/-- Every character stands for itself in a string literal. -/
def Unescaped (s : Str) : Prop := ∀ c ∈ s, 0x20 ≤ c.toNat ∧ c.toNat < 0x80 ∧ c ≠ '"' ∧ c ≠ '\\'

instance (s : Str) : Decidable (Unescaped s) :=
  List.decidableBAll (fun c : Char => 0x20 ≤ c.toNat ∧ c.toNat < 0x80 ∧ c ≠ '"' ∧ c ≠ '\\') s

theorem escaped_plain {c : Char} (hc : 0x20 ≤ c.toNat) (hquote : c ≠ '"') (hback : c ≠ '\\') :
    escaped c = [c] := by
  have hne : ∀ d : Char, d.toNat < 0x20 → c ≠ d := by
    rintro d hd rfl
    omega
  rw [escaped, if_neg hquote, if_neg hback, if_neg (hne _ (by decide)), if_neg (hne _ (by decide)),
    if_neg (hne _ (by decide)), if_neg (hne _ (by decide)), if_neg (hne _ (by decide)),
    if_neg (by omega)]

theorem quote_plain {s : Str} (h : Unescaped s) : quote s = '"' :: (s ++ ['"']) := by
  have hself : s.flatMap escaped = s := by
    induction s with
    | nil => rfl
    | cons c s ih =>
      obtain ⟨hc, -, hquote, hback⟩ := h c (List.mem_cons_self ..)
      rw [List.flatMap_cons, escaped_plain hc hquote hback,
        ih fun d hd => h d (List.mem_cons_of_mem c hd)]
      rfl
  rw [quote, hself]

theorem digit_plain {c : Char} (h : c.isDigit = true) :
    0x20 ≤ c.toNat ∧ c.toNat < 0x80 ∧ c ≠ '"' ∧ c ≠ '\\' := by
  rw [Char.isDigit, Bool.and_eq_true, decide_eq_true_eq, decide_eq_true_eq] at h
  have hlo : 48 ≤ c.toNat := h.1
  have hhi : c.toNat ≤ 57 := h.2
  refine ⟨by omega, by omega, ?_, ?_⟩
  · rintro rfl
    exact absurd hlo (by decide)
  · rintro rfl
    exact absurd hhi (by decide)

theorem plain_takeWhile (s : Str) : Unescaped (s.takeWhile Char.isDigit) :=
  fun _ hc => digit_plain (List.mem_takeWhile_imp hc)

theorem plain_sign {signs : List Char} (h : Unescaped signs) (s : Str) : Unescaped (signOf signs s).1 := by
  unfold signOf
  split
  · split_ifs with hc
    · intro d hd
      rw [List.mem_singleton.mp hd]
      exact h _ hc
    · simp [Unescaped]
  · simp [Unescaped]

theorem plain_part {marks signs : List Char} (hmarks : Unescaped marks) (hsigns : Unescaped signs)
    {s t rest : Str} (h : numberPart marks signs s = some (t, rest)) : Unescaped t := by
  unfold numberPart at h
  split at h
  case h_2 =>
    cases h
    simp [Unescaped]
  case h_1 c tail =>
  split at h
  case isFalse =>
    cases h
    simp [Unescaped]
  case isTrue hc =>
  split at h
  case h_1 => cases h
  case h_2 ds rest' _ hdigits =>
    cases h
    have hds : ds = (signOf signs tail).2.takeWhile Char.isDigit := (congrArg Prod.fst hdigits).symm
    intro d hd
    rcases List.mem_cons.mp hd with rfl | hd
    · exact hmarks _ hc
    · rcases List.mem_append.mp hd with hd | hd
      · exact plain_sign hsigns tail d hd
      · rw [hds] at hd
        exact plain_takeWhile _ d hd

/-- The text of a number is plain. -/
theorem number_plain {s t rest : Str} (h : number s = some (t, rest)) : Unescaped t := by
  unfold number at h
  dsimp only at h
  split at h
  case isTrue => cases h
  case isFalse =>
  split at h
  case h_1 => cases h
  case h_2 fraction rest' hfraction =>
    obtain ⟨⟨t', rest''⟩, hexp, hp⟩ := Option.map_eq_some_iff.mp h
    simp only [Prod.mk.injEq] at hp
    obtain ⟨rfl, -⟩ := hp
    have hwhole : Unescaped (wholePart (signOf ['-'] s).2).1 := by
      unfold wholePart
      split
      · simp [Unescaped]
      · exact plain_takeWhile _
    intro c hc
    rcases List.mem_append.mp hc with hc | hc
    · rcases List.mem_append.mp hc with hc | hc
      · rcases List.mem_append.mp hc with hc | hc
        · exact plain_sign (by simp [Unescaped]) s c hc
        · exact hwhole c hc
      · exact plain_part (by simp [Unescaped]) (by simp [Unescaped]) hfraction c hc
    · exact plain_part (by simp [Unescaped]) (by simp [Unescaped]) hexp c hc

end JsonText

end OneSig
