/-
# `JSON.parse`

The grammar of ECMA-404 over the text as a list of characters, one function for each of its rules:
`string` with its `escape`s, `number` with its three parts, and the mutually recursive `value`,
`elements` and `members`.  A member that is given twice has its last value, at the place of its
first.  What is left over behind the value must be white space.

`value` and its companions recurse on fuel.  `parse` gives them the length of the text, which is
enough, since each of their calls is made behind a character of its own; so a text that is well
formed is never refused for want of fuel.

Two things of the language are not embedded.  The value and the printed form of a number literal
are floating point: `Numbers` is the engine's conversion, which has no value for a literal beyond
the range of a double, and its inverse.  And a lone surrogate, which no list of characters can
hold, is read as the replacement character.

* `parse_short`: a string member of a parsed object is no longer than the text.  Every value of
  the result is read off some part of the text (`Bounded`, an induction on the fuel for all three
  readers at once), and this is all that the bounds on messages need of the parser.

What the parser makes of a text that `JSON.stringify` has printed is in the next module, and what
of a value survives being written and read in the one after it.
-/
import OneSig.Js
import OneSig.Lib.Utf8

namespace OneSig

/-- The engine's number literals: the value, absent when it is infinite, and how a value prints. -/
structure Numbers where
  value : Str → Option ℚ
  text : ℚ → Str

/-- The value of a literal. -/
def Numbers.json (num : Numbers) (literal : Str) : Json :=
  match num.value literal with
  | some q => .num q (num.text q)
  | none => .infinite (['-'].isPrefixOf literal)

theorem Numbers.json_cases (num : Numbers) (literal : Str) :
    (∃ q, num.value literal = some q ∧ num.json literal = .num q (num.text q)) ∨
      ∃ negative, num.value literal = none ∧ num.json literal = .infinite negative := by
  unfold Numbers.json
  cases num.value literal with
  | some q => exact Or.inl ⟨q, rfl, rfl⟩
  | none => exact Or.inr ⟨_, rfl, rfl⟩

namespace JsonText

/-! ## 1. Tokens -/

def isWs (c : Char) : Bool := c = ' ' || c = '\t' || c = '\n' || c = '\r'

def skipWs (s : Str) : Str := s.dropWhile isWs

/-- What is left of a text after a word. -/
def afterWord (word : Str) (s : Str) : Option Str :=
  if word.isPrefixOf s then some (s.drop word.length) else none

/-- Four hexadecimal digits. -/
def hexUnit : Str → Option (Nat × Str)
  | a :: b :: c :: d :: rest => (Bytes.hexNat [a, b, c, d]).map fun n => (n, rest)
  | _ => none

/-- The character of an escape, after the backslash. -/
def escape : Str → Option (Char × Str)
  | '"' :: rest => some ('"', rest)
  | '\\' :: rest => some ('\\', rest)
  | '/' :: rest => some ('/', rest)
  | 'b' :: rest => some (Char.ofNat 0x08, rest)
  | 'f' :: rest => some (Char.ofNat 0x0C, rest)
  | 'n' :: rest => some ('\n', rest)
  | 'r' :: rest => some ('\r', rest)
  | 't' :: rest => some ('\t', rest)
  | 'u' :: rest =>
    match hexUnit rest with
    | none => none
    | some (high, rest) =>
      if 0xD800 ≤ high ∧ high ≤ 0xDFFF then
        match rest with
        | '\\' :: 'u' :: rest' =>
          match hexUnit rest' with
          | some (low, rest') =>
            if high ≤ 0xDBFF ∧ 0xDC00 ≤ low ∧ low ≤ 0xDFFF then
              some (Char.ofNat (0x10000 + (high - 0xD800) * 0x400 + (low - 0xDC00)), rest')
            else some (Utf8.replacement, rest)
          | none => some (Utf8.replacement, rest)
        | _ => some (Utf8.replacement, rest)
      else some (Char.ofNat high, rest)
  | _ => none

/-- The rest of a string literal, after its opening quote. -/
def string : Nat → Str → Option (Str × Str)
  | 0, _ => none
  | n + 1, s =>
    match s with
    | '"' :: rest => some ([], rest)
    | '\\' :: rest =>
      match escape rest with
      | some (c, rest) => (string n rest).map fun p => (c :: p.1, p.2)
      | none => none
    | c :: rest =>
      if c.toNat < 0x20 then none
      else (string n rest).map fun p => (c :: p.1, p.2)
    | [] => none

/-- The decimal digits in front of a text. -/
def digits (s : Str) : Str × Str := (s.takeWhile Char.isDigit, s.dropWhile Char.isDigit)

/-- An optional sign, and what is behind it. -/
def signOf (signs : List Char) (s : Str) : Str × Str :=
  match s with
  | c :: rest => if c ∈ signs then ([c], rest) else ([], s)
  | [] => ([], s)

/-- An optional part of a number literal: nothing, or a mark, an optional sign and digits. -/
def numberPart (marks signs : List Char) (s : Str) : Option (Str × Str) :=
  match s with
  | c :: rest =>
    if c ∈ marks then
      match digits (signOf signs rest).2 with
      | ([], _) => none
      | (ds, rest') => some (c :: (signOf signs rest).1 ++ ds, rest')
    else some ([], s)
  | [] => some ([], s)

/-- The whole part of a number literal: a zero is followed by no digit. -/
def wholePart (s : Str) : Str × Str :=
  match s with
  | '0' :: rest => (['0'], rest)
  | _ => digits s

/-- A number literal. -/
def number (s : Str) : Option (Str × Str) :=
  let sign := signOf ['-'] s
  let whole := wholePart sign.2
  if whole.1 = [] then none
  else match numberPart ['.'] [] whole.2 with
    | none => none
    | some (fraction, rest) =>
      (numberPart ['e', 'E'] ['+', '-'] rest).map fun p =>
        (sign.1 ++ whole.1 ++ fraction ++ p.1, p.2)

/-! ## 2. Values -/

/-- A member is set: the last value counts. -/
def setMember (name : Str) (j : Json) (fields : List (Str × Json)) : List (Str × Json) :=
  fields.filter (fun p => p.1 ≠ name) ++ [(name, j)]

mutual

/-- A value, and what is left of the text. -/
def value (num : Numbers) : Nat → Str → Option (Json × Str)
  | 0, _ => none
  | n + 1, s =>
    match skipWs s with
    | '{' :: rest =>
      match skipWs rest with
      | '}' :: rest => some (Json.obj [], rest)
      | rest => (members num n [] rest).map fun p => (.obj p.1, p.2)
    | '[' :: rest =>
      match skipWs rest with
      | ']' :: rest => some (Json.arr [], rest)
      | rest => (elements num n rest).map fun p => (.arr p.1, p.2)
    | '"' :: rest => (string (rest.length + 1) rest).map fun p => (.str p.1, p.2)
    | 't' :: rest => (afterWord "rue".toList rest).map fun rest => (.bool true, rest)
    | 'f' :: rest => (afterWord "alse".toList rest).map fun rest => (.bool false, rest)
    | 'n' :: rest => (afterWord "ull".toList rest).map fun rest => (.null, rest)
    | rest => (number rest).map fun p => (num.json p.1, p.2)

/-- The elements of an array, after its bracket. -/
def elements (num : Numbers) : Nat → Str → Option (List Json × Str)
  | 0, _ => none
  | n + 1, s =>
    match value num n s with
    | none => none
    | some (j, rest) =>
      match skipWs rest with
      | ',' :: rest => (elements num n rest).map fun p => (j :: p.1, p.2)
      | ']' :: rest => some ([j], rest)
      | _ => none

/-- The members of an object, after its brace, and those before them. -/
def members (num : Numbers) : Nat → List (Str × Json) → Str → Option (List (Str × Json) × Str)
  | 0, _, _ => none
  | n + 1, fields, s =>
    match skipWs s with
    | '"' :: rest =>
      match string (rest.length + 1) rest with
      | none => none
      | some (name, rest) =>
        match skipWs rest with
        | ':' :: rest =>
          match value num n rest with
          | none => none
          | some (j, rest) =>
            match skipWs rest with
            | ',' :: rest => members num n (setMember name j fields) rest
            | '}' :: rest => some (setMember name j fields, rest)
            | _ => none
        | _ => none
    | _ => none

end

/-- `JSON.parse(text)`.  Every call of the parser is made behind a character of its own, so the
text's length bounds their depth. -/
def parse (num : Numbers) (text : Str) : Option Json :=
  match value num (text.length + 1) text with
  | some (j, rest) => if skipWs rest = [] then some j else none
  | none => none

/-! ## 3. No string is longer than the text -/

theorem skipWs_length (s : Str) : (skipWs s).length ≤ s.length :=
  (List.dropWhile_suffix isWs).length_le

theorem hexUnit_length {s rest : Str} {n : Nat} (h : hexUnit s = some (n, rest)) :
    rest.length ≤ s.length := by
  unfold hexUnit at h
  split at h
  case h_2 => cases h
  case h_1 =>
    obtain ⟨m, -, hm⟩ := Option.map_eq_some_iff.mp h
    cases hm
    simp only [List.length_cons]
    omega

theorem escape_length {s rest : Str} {c : Char} (h : escape s = some (c, rest)) :
    rest.length < s.length := by
  unfold escape at h
  split at h
  case h_9 s' =>
    split at h
    case h_1 => cases h
    case h_2 high rest' hunit =>
      have hlen := hexUnit_length hunit
      have hend : ∀ {c' : Char} {t : Str}, some (c', t) = some (c, rest) →
          t.length ≤ rest'.length → rest.length < ('u' :: s').length := by
        intro c' t heq ht
        simp only [Option.some.injEq, Prod.mk.injEq] at heq
        rw [← heq.2, List.length_cons]
        omega
      split at h
      case isFalse => exact hend h (Nat.le_refl _)
      case isTrue =>
        split at h
        case h_2 => exact hend h (Nat.le_refl _)
        case h_1 rest₂ =>
          split at h
          case h_2 => exact hend h (Nat.le_refl _)
          case h_1 low rest₃ hunit' =>
            have hlen' := hexUnit_length hunit'
            split at h
            case isTrue =>
              refine hend h ?_
              simp only [List.length_cons]
              omega
            case isFalse => exact hend h (Nat.le_refl _)
  case h_10 => cases h
  all_goals
    cases h
    exact Nat.lt_succ_self _

theorem string_length {n : Nat} {s t rest : Str} (h : string n s = some (t, rest)) :
    t.length + rest.length < s.length := by
  induction n generalizing s t with
  | zero => cases h
  | succ n ih =>
    have hcons : ∀ {c : Char} {tail : Str}, tail.length < s.length →
        (string n tail).map (fun p => (c :: p.1, p.2)) = some (t, rest) →
        t.length + rest.length < s.length := by
      intro c tail hlt hmap
      obtain ⟨⟨t', rest'⟩, hs, hp⟩ := Option.map_eq_some_iff.mp hmap
      simp only [Prod.mk.injEq] at hp
      obtain ⟨rfl, rfl⟩ := hp
      have hlen := ih hs
      simp only [List.length_cons]
      omega
    unfold string at h
    split at h
    case h_1 rest' =>
      cases h
      simp
    case h_2 tail =>
      split at h
      case h_2 => cases h
      case h_1 c tail' hesc =>
        have hlt := escape_length hesc
        exact hcons (hlt.trans (Nat.lt_succ_self _)) h
    case h_3 =>
      split at h
      case isTrue => cases h
      case isFalse => exact hcons (Nat.lt_succ_self _) h
    case h_4 => cases h

/-- A value that is a string is no longer than this. -/
def Short (n : Nat) (j : Json) : Prop := ∀ t, j = .str t → t.length ≤ n

theorem Short.mono {n m : Nat} {j : Json} (h : Short n j) (hle : n ≤ m) : Short m j :=
  fun t ht => (h t ht).trans hle

/-- The members of an object are short. -/
def ShortFields (n : Nat) (j : Json) : Prop :=
  ∀ fields, j = .obj fields → ∀ p ∈ fields, Short n p.2

theorem setMember_short {n : Nat} {name : Str} {j : Json} {fields : List (Str × Json)}
    (hfields : ∀ p ∈ fields, Short n p.2) (hj : Short n j) :
    ∀ p ∈ setMember name j fields, Short n p.2 := by
  intro p hp
  rcases List.mem_append.mp hp with hold | hnew
  · exact hfields p (List.mem_filter.mp hold).1
  · rw [List.mem_singleton.mp hnew]
    exact hj

/-- What is known of the three readers: they do not move backwards, and what they read is
short. -/
structure Bounded (num : Numbers) (n : Nat) : Prop where
  value : ∀ s j rest, value num n s = some (j, rest) →
    rest.length ≤ s.length ∧ Short s.length j ∧ ShortFields s.length j
  elements : ∀ s items rest, elements num n s = some (items, rest) → rest.length ≤ s.length
  members : ∀ fields s out rest, members num n fields s = some (out, rest) →
    rest.length ≤ s.length ∧ ∀ m, s.length ≤ m → (∀ p ∈ fields, Short m p.2) →
      ∀ p ∈ out, Short m p.2

theorem afterWord_length {word s rest : Str} (h : afterWord word s = some rest) :
    rest.length ≤ s.length := by
  unfold afterWord at h
  split at h
  case isTrue =>
    cases h
    simp
  case isFalse => cases h

theorem digits_length (s : Str) : (digits s).2.length ≤ s.length :=
  (List.dropWhile_suffix Char.isDigit).length_le

theorem signOf_length (signs : List Char) (s : Str) : (signOf signs s).2.length ≤ s.length := by
  unfold signOf
  split
  · split_ifs
    · exact Nat.le_succ _
    · exact Nat.le_refl _
  · exact Nat.le_refl _

theorem wholePart_length (s : Str) : (wholePart s).2.length ≤ s.length := by
  unfold wholePart
  split
  · exact Nat.le_succ _
  · exact digits_length s

theorem numberPart_length {marks signs : List Char} {s t rest : Str}
    (h : numberPart marks signs s = some (t, rest)) : rest.length ≤ s.length := by
  unfold numberPart at h
  split at h
  case h_2 =>
    cases h
    exact Nat.le_refl _
  case h_1 c tail =>
    split at h
    case isFalse =>
      cases h
      exact Nat.le_refl _
    case isTrue =>
      split at h
      case h_1 => cases h
      case h_2 ds rest' _ hdigits =>
        cases h
        have hlen := digits_length (signOf signs tail).2
        rw [hdigits] at hlen
        exact (hlen.trans (signOf_length signs tail)).trans (Nat.le_succ _)

theorem number_length {s t rest : Str} (h : number s = some (t, rest)) :
    rest.length ≤ s.length := by
  unfold number at h
  dsimp only at h
  split at h
  case isTrue => cases h
  case isFalse =>
    split at h
    case h_1 => cases h
    case h_2 fraction rest' hfraction =>
      obtain ⟨⟨t', rest''⟩, hexp, hp⟩ := Option.map_eq_some_iff.mp h
      simp only [Prod.mk.injEq] at hp
      obtain ⟨-, rfl⟩ := hp
      calc rest''.length ≤ rest'.length := numberPart_length hexp
        _ ≤ (wholePart (signOf ['-'] s).2).2.length := numberPart_length hfraction
        _ ≤ (signOf ['-'] s).2.length := wholePart_length _
        _ ≤ s.length := signOf_length _ _

theorem value_bounded {num : Numbers} {n : Nat} (ih : Bounded num n) {s : Str} {j : Json}
    {rest : Str} (h : value num (n + 1) s = some (j, rest)) :
    rest.length ≤ s.length ∧ Short s.length j ∧ ShortFields s.length j := by
  have hs := skipWs_length s
  unfold value at h
  split at h
  case h_1 tail hcons =>
    rw [hcons, List.length_cons] at hs
    have ht := skipWs_length tail
    split at h
    case h_1 rest' hclose =>
      rw [hclose, List.length_cons] at ht
      cases h
      refine ⟨by omega, nofun, ?_⟩
      rintro fields ⟨⟩ p hp
      cases hp
    case h_2 tail' _ =>
      obtain ⟨⟨out, rest'⟩, hm, hp⟩ := Option.map_eq_some_iff.mp h
      simp only [Prod.mk.injEq] at hp
      obtain ⟨rfl, rfl⟩ := hp
      obtain ⟨hlen, hshort⟩ := ih.members _ _ _ _ hm
      refine ⟨by omega, nofun, ?_⟩
      rintro fields ⟨⟩ p hp
      exact hshort s.length (by omega) (by simp) p hp
  case h_2 tail hcons =>
    rw [hcons, List.length_cons] at hs
    have ht := skipWs_length tail
    split at h
    case h_1 rest' hclose =>
      rw [hclose, List.length_cons] at ht
      cases h
      exact ⟨by omega, nofun, nofun⟩
    case h_2 tail' _ =>
      obtain ⟨⟨items, rest'⟩, he, hp⟩ := Option.map_eq_some_iff.mp h
      simp only [Prod.mk.injEq] at hp
      obtain ⟨rfl, rfl⟩ := hp
      have hlen := ih.elements _ _ _ he
      exact ⟨by omega, nofun, nofun⟩
  case h_3 tail hcons =>
    rw [hcons, List.length_cons] at hs
    obtain ⟨⟨t, rest'⟩, hstr, hp⟩ := Option.map_eq_some_iff.mp h
    simp only [Prod.mk.injEq] at hp
    obtain ⟨rfl, rfl⟩ := hp
    have hlen := string_length hstr
    refine ⟨by omega, ?_, nofun⟩
    rintro t' ⟨⟩
    omega
  case h_7 =>
    obtain ⟨⟨t, rest'⟩, hnum, hp⟩ := Option.map_eq_some_iff.mp h
    simp only [Prod.mk.injEq] at hp
    obtain ⟨rfl, rfl⟩ := hp
    have hlen := number_length hnum
    rcases num.json_cases t with ⟨q, -, hq⟩ | ⟨negative, -, hq⟩
    · rw [hq]
      exact ⟨by omega, nofun, nofun⟩
    · rw [hq]
      exact ⟨by omega, nofun, nofun⟩
  all_goals
    rename_i tail hcons
    rw [hcons, List.length_cons] at hs
    obtain ⟨rest', hword, hp⟩ := Option.map_eq_some_iff.mp h
    simp only [Prod.mk.injEq] at hp
    obtain ⟨rfl, rfl⟩ := hp
    have hlen := afterWord_length hword
    exact ⟨by omega, nofun, nofun⟩

theorem elements_bounded {num : Numbers} {n : Nat} (ih : Bounded num n) {s : Str}
    {items : List Json} {rest : Str}
    (h : elements num (n + 1) s = some (items, rest)) : rest.length ≤ s.length := by
  unfold elements at h
  split at h
  case h_1 => cases h
  case h_2 j rest₁ hval =>
    obtain ⟨hlen, -⟩ := ih.value _ _ _ hval
    have hr := skipWs_length rest₁
    split at h
    case h_1 tail hcons =>
      rw [hcons, List.length_cons] at hr
      obtain ⟨⟨items', rest'⟩, he, hp⟩ := Option.map_eq_some_iff.mp h
      simp only [Prod.mk.injEq] at hp
      obtain ⟨-, rfl⟩ := hp
      have hlen' := ih.elements _ _ _ he
      omega
    case h_2 tail hcons =>
      rw [hcons, List.length_cons] at hr
      cases h
      omega
    case h_3 => cases h

theorem members_bounded {num : Numbers} {n : Nat} (ih : Bounded num n)
    {fields : List (Str × Json)} {s : Str} {out : List (Str × Json)} {rest : Str}
    (h : members num (n + 1) fields s = some (out, rest)) :
    rest.length ≤ s.length ∧ ∀ m, s.length ≤ m → (∀ p ∈ fields, Short m p.2) →
      ∀ p ∈ out, Short m p.2 := by
  have hs := skipWs_length s
  unfold members at h
  split at h
  case h_2 => cases h
  case h_1 tail hcons =>
  rw [hcons, List.length_cons] at hs
  split at h
  case h_1 => cases h
  case h_2 name rest₁ hstr =>
  have hlen₁ := string_length hstr
  have hr₁ := skipWs_length rest₁
  split at h
  case h_2 => cases h
  case h_1 rest₂ hcolon =>
  rw [hcolon, List.length_cons] at hr₁
  split at h
  case h_1 => cases h
  case h_2 j rest₃ hval =>
  obtain ⟨hlen₃, hshort, -⟩ := ih.value _ _ _ hval
  have hr₃ := skipWs_length rest₃
  split at h
  case h_1 rest₄ hcomma =>
    rw [hcomma, List.length_cons] at hr₃
    obtain ⟨hlen₄, hmem⟩ := ih.members _ _ _ _ h
    refine ⟨by omega, fun m hm hfields => ?_⟩
    exact hmem m (by omega) (setMember_short hfields (hshort.mono (by omega)))
  case h_2 rest₄ hclose =>
    rw [hclose, List.length_cons] at hr₃
    cases h
    refine ⟨by omega, fun m hm hfields => ?_⟩
    exact setMember_short hfields (hshort.mono (by omega))
  case h_3 => cases h

theorem bounded (num : Numbers) (n : Nat) : Bounded num n := by
  induction n with
  | zero =>
    refine ⟨?_, ?_, ?_⟩
    · intro s j rest h
      cases h
    · intro s items rest h
      cases h
    · intro fields s out rest h
      cases h
  | succ n ih =>
    exact ⟨fun _ _ _ => value_bounded ih, fun _ _ _ => elements_bounded ih,
      fun _ _ _ _ => members_bounded ih⟩

/-- **A string member of a parsed object is no longer than the text** that it was read from, since
an escape is never shorter than its character. -/
theorem parse_short {num : Numbers} {text name t : Str} {j : Json} (h : parse num text = some j)
    (hmember : Json.member name (some j) = some (.str t)) : t.length ≤ text.length := by
  unfold parse at h
  split at h
  case h_2 => cases h
  case h_1 j' rest hval =>
    obtain ⟨-, -, hfields⟩ := (bounded num _).value _ _ _ hval
    split at h
    case isFalse => cases h
    case isTrue =>
      cases h
      cases j with
      | obj fields =>
        obtain ⟨l, r, hsplit, -⟩ := List.lookup_eq_some_iff.mp hmember
        exact hfields fields rfl (name, .str t) (by simp [hsplit]) t rfl
      | _ => cases hmember

end JsonText

end OneSig
