/-
# The texts of the responses

A response carries a small JSON object as `data`, and its bytes are what the node hashes and
signs.  Go and Python write it with different encoders: `encoding/json` escapes markup and the two
line separators and leaves everything else that it can print as it is, `json.dumps` escapes every
character outside ASCII, by its UTF-16 code units, and no markup.

The texts are modelled as the encoders write them, character by character (`Go.escaped`,
`Python.escaped`), and the two objects, of a greeting and of a farewell, as the fields in their
order with a number at the end.

* `readsBack` of each: a JSON parser reads the escaped text back as it was, surrogate pairs
  included, so the two responses are the same JSON value (`parse_response`).
* `escaped_eq_iff`: a character is escaped alike by both exactly when it is `Portable`, which is
  ASCII up to U+007E without `<`, `>` and `&`, or one of the two line separators; a control
  character is escaped by both, in the same way.
* `response_eq_iff` lifts it to the whole response: the bytes are the same exactly when every
  character of the text is portable.  That needs more than a character-wise argument, since two
  different texts could in principle be escaped to one; a text that is escaped by only one of them
  differs from its partner at its first such character.

Numbers are printed in decimal by both.  A text is a list of characters, so a lone surrogate is
outside what is compared here; the two parsers read it differently before anything is encoded.
-/
import OneSig.JsonStringify

namespace OneSig.Greeting

/-! ## 1. The two encoders -/

/-- A UTF-16 unit, escaped. -/
def unicodeEscape (unit : Nat) : Str := '\\' :: 'u' :: Bytes.hexEncode (Bytes.beBytes 2 unit)

/-- What `json.Marshal` escapes besides what JSON asks for: `<`, `>`, `&` and the two line
separators of JavaScript. -/
def Go.escapesHtml (c : Char) : Bool :=
  c = '<' || c = '>' || c = '&' || c = Char.ofNat 0x2028 || c = Char.ofNat 0x2029

/-- A character in a string that `json.Marshal` writes. -/
def Go.escaped (c : Char) : Str :=
  if Go.escapesHtml c then unicodeEscape c.toNat else JsonText.escaped c

/-- A character in a string that `json.dumps` writes: beyond U+FFFF it is a surrogate pair. -/
def Python.escaped (c : Char) : Str :=
  if c.toNat < 0x7F then JsonText.escaped c
  else if c.toNat < 0x10000 then unicodeEscape c.toNat
  else unicodeEscape (0xD800 + (c.toNat - 0x10000) / 0x400) ++
    unicodeEscape (0xDC00 + (c.toNat - 0x10000) % 0x400)

/-- An object of a text and a counter. -/
def response (escaped : Char → Str) (textKey counterKey : Str) (text : Str) (counter : Int) : Str :=
  '\x7b' :: (JsonText.quote textKey ++ ':' :: '"' :: (text.flatMap escaped ++
    '"' :: ',' :: (JsonText.quote counterKey ++ ':' :: (intText counter ++ ['\x7d']))))

/-- `SayHelloResponse`. -/
def sayHelloResponse (escaped : Char → Str) : Str → Int → Str :=
  response escaped "greeting".toList "greetingNumber".toList

/-- `SayGoodbyeResponse`. -/
def sayGoodbyeResponse (escaped : Char → Str) : Str → Int → Str :=
  response escaped "farewell".toList "farewellNumber".toList

/-- `fmt.Sprintf("Hello, %s! …", name)`. -/
def greetingOf (name : Str) : Str :=
  "Hello, ".toList ++ name ++ "! Welcome to Flare Confidential Compute.".toList

/-- `fmt.Sprintf("Goodbye, %s! Reason: %s", name, reason)`. -/
def farewellOf (name reason : Str) : Str :=
  "Goodbye, ".toList ++ name ++ "! Reason: ".toList ++ reason

/-! ## 2. Where the two encoders agree -/

/-- Printable or a control character of ASCII and no markup, or a line separator. -/
def Portable (c : Char) : Prop :=
  (c.toNat < 0x7F ∧ c ≠ '<' ∧ c ≠ '>' ∧ c ≠ '&') ∨ c = Char.ofNat 0x2028 ∨ c = Char.ofNat 0x2029

instance : DecidablePred Portable := fun _ => inferInstanceAs (Decidable (_ ∨ _))

theorem escapesHtml_iff {c : Char} : Go.escapesHtml c = true ↔
    c = '<' ∨ c = '>' ∨ c = '&' ∨ c = Char.ofNat 0x2028 ∨ c = Char.ofNat 0x2029 := by
  simp [Go.escapesHtml, or_assoc]

theorem escaped_of_portable {c : Char} (h : Portable c) : Go.escaped c = Python.escaped c := by
  rcases h with ⟨hlt, hl, hg, ha⟩ | rfl | rfl
  · have hhtml : ¬Go.escapesHtml c = true := by
      rw [escapesHtml_iff]
      rintro (h | h | h | rfl | rfl)
      · exact hl h
      · exact hg h
      · exact ha h
      · exact absurd hlt (by decide)
      · exact absurd hlt (by decide)
    rw [Go.escaped, Python.escaped, if_neg hhtml, if_pos hlt]
  · decide
  · decide

/-- Two texts that begin differently. -/
def Apart (s t : Str) : Prop := ∃ a b s' t', s = a :: s' ∧ t = b :: t' ∧ a ≠ b

theorem escaped_plain_head {c : Char} (h : 0x7F ≤ c.toNat) : JsonText.escaped c = [c] := by
  have hne : ∀ d : Char, d.toNat < 0x7F → c ≠ d := by
    rintro d hd rfl
    omega
  exact JsonText.escaped_plain (by omega) (hne _ (by decide)) (hne _ (by decide))

/-- Where the encoders differ they differ at once: one writes a backslash and the other does
not. -/
theorem escaped_apart {c : Char} (h : ¬Portable c) : Apart (Go.escaped c) (Python.escaped c) := by
  by_cases hhtml : Go.escapesHtml c = true
  · have hascii : c = '<' ∨ c = '>' ∨ c = '&' := by
      rcases escapesHtml_iff.mp hhtml with h' | h' | h' | h' | h'
      · exact Or.inl h'
      · exact Or.inr (Or.inl h')
      · exact Or.inr (Or.inr h')
      · exact absurd (Or.inr (Or.inl h')) h
      · exact absurd (Or.inr (Or.inr h')) h
    rcases hascii with rfl | rfl | rfl
    · exact ⟨'\\', '<', _, _, rfl, rfl, by decide⟩
    · exact ⟨'\\', '>', _, _, rfl, rfl, by decide⟩
    · exact ⟨'\\', '&', _, _, rfl, rfl, by decide⟩
  · have hge : ¬c.toNat < 0x7F := by
      intro hlt
      rw [escapesHtml_iff] at hhtml
      exact h (Or.inl ⟨hlt, fun he => hhtml (Or.inl he), fun he => hhtml (Or.inr (Or.inl he)),
        fun he => hhtml (Or.inr (Or.inr (Or.inl he)))⟩)
    have hback : c ≠ '\\' := by
      rintro rfl
      exact hge (by decide)
    rw [Go.escaped, if_neg hhtml, escaped_plain_head (by omega), Python.escaped, if_neg hge]
    split
    · exact ⟨c, '\\', _, _, rfl, rfl, hback⟩
    · exact ⟨c, '\\', _, _, rfl, rfl, hback⟩

theorem escaped_eq_iff (c : Char) : Go.escaped c = Python.escaped c ↔ Portable c := by
  constructor
  · intro heq
    by_contra h
    obtain ⟨a, b, s, t, hs, ht, hne⟩ := escaped_apart h
    rw [heq, ht] at hs
    exact hne (List.cons.inj hs).1.symm
  · exact escaped_of_portable

/-- Two encoders that differ at once where they differ write the same only where they agree. -/
theorem flatMap_eq_iff {f g : Char → Str} (h : ∀ c, f c = g c ∨ Apart (f c) (g c)) (s t : Str) :
    s.flatMap f ++ t = s.flatMap g ++ t ↔ ∀ c ∈ s, f c = g c := by
  induction s with
  | nil => simp
  | cons c s ih =>
    rw [List.flatMap_cons, List.flatMap_cons, List.append_assoc, List.append_assoc,
      List.forall_mem_cons]
    constructor
    · intro heq
      rcases h c with hc | ⟨a, b, s', t', hs, ht, hne⟩
      · rw [hc] at heq
        exact ⟨hc, ih.mp (List.append_cancel_left heq)⟩
      · rw [hs, ht, List.cons_append, List.cons_append] at heq
        exact absurd (List.cons.inj heq).1 hne
    · rintro ⟨hc, hs⟩
      rw [hc, ih.mpr hs]

theorem response_eq_iff (textKey counterKey text : Str) (counter : Int) :
    response Go.escaped textKey counterKey text counter =
        response Python.escaped textKey counterKey text counter ↔ ∀ c ∈ text, Portable c := by
  have hparts : ∀ c, Go.escaped c = Python.escaped c ∨ Apart (Go.escaped c) (Python.escaped c) := by
    intro c
    by_cases hc : Portable c
    · exact Or.inl (escaped_of_portable hc)
    · exact Or.inr (escaped_apart hc)
  rw [response, response, List.cons.injEq, List.append_cancel_left_eq]
  simp only [true_and, List.cons.injEq]
  rw [flatMap_eq_iff hparts]
  simp only [escaped_eq_iff]

/-! ## 3. What the texts say -/

open JsonText

/-- A string literal is read back character by character. -/
def ReadsBack (esc : Char → Str) : Prop := ∀ (n : Nat) (c : Char) (rest : Str),
  string (n + 1) (esc c ++ rest) = (string n rest).map fun p => (c :: p.1, p.2)

theorem hexUnit_unicode {unit : Nat} (h : unit < 0x10000) (rest : Str) :
    hexUnit (Bytes.hexEncode (Bytes.beBytes 2 unit) ++ rest) = some (unit, rest) := by
  have hnat := Bytes.hexNat_hexEncode (Bytes.beBytes 2 unit)
  rw [Bytes.beNat_beBytes_of_lt (by simpa using h)] at hnat
  change (Bytes.hexNat (Bytes.hexEncode (Bytes.beBytes 2 unit))).map _ = _
  rw [hnat]
  rfl

theorem escape_unicode {c : Char} (h : c.toNat < 0x10000) (rest : Str) :
    escape (('u' :: Bytes.hexEncode (Bytes.beBytes 2 c.toNat)) ++ rest) = some (c, rest) := by
  have hvalid := Utf8.toNat_lt c
  rw [List.cons_append, escape, hexUnit_unicode h]
  dsimp only
  rw [if_neg (by omega), Char.ofNat_toNat]

theorem escape_pair {c : Char} (h : ¬c.toNat < 0x10000) (rest : Str) :
    escape (('u' :: Bytes.hexEncode (Bytes.beBytes 2 (0xD800 + (c.toNat - 0x10000) / 0x400))) ++
      (unicodeEscape (0xDC00 + (c.toNat - 0x10000) % 0x400) ++ rest)) = some (c, rest) := by
  have hvalid := Utf8.toNat_lt c
  rw [List.cons_append, escape, hexUnit_unicode (by omega), unicodeEscape, List.cons_append,
    List.cons_append]
  dsimp only
  rw [if_pos (by omega)]
  split
  case h_1 rest' heq =>
    cases heq
    rw [hexUnit_unicode (by omega)]
    dsimp only
    rw [if_pos (by omega), show 0x10000 + (0xD800 + (c.toNat - 0x10000) / 0x400 - 0xD800) * 0x400 +
      (0xDC00 + (c.toNat - 0x10000) % 0x400 - 0xDC00) = c.toNat by omega, Char.ofNat_toNat]
  case h_2 hother => exact absurd rfl (hother _)

theorem Go.readsBack : ReadsBack Go.escaped := by
  intro n c rest
  unfold Go.escaped
  split
  case isTrue h =>
    have hlt : c.toNat < 0x10000 := by
      rcases escapesHtml_iff.mp h with rfl | rfl | rfl | rfl | rfl <;> decide
    exact string_escape n (escape_unicode hlt rest)
  case isFalse => exact string_escaped n c rest

theorem Python.readsBack : ReadsBack Python.escaped := by
  intro n c rest
  unfold Python.escaped
  split_ifs with hascii hunit
  · exact string_escaped n c rest
  · exact string_escape n (escape_unicode hunit rest)
  · rw [List.append_assoc]
    exact string_escape n (escape_pair hunit rest)

section Response

variable {esc : Char → Str} (hesc : ReadsBack esc)

include hesc

theorem string_flatMap_esc {s : Str} {n : Nat} (rest : Str) (h : s.length < n) :
    string n (s.flatMap esc ++ '"' :: rest) = some (s, rest) := by
  induction s generalizing n with
  | nil =>
    cases n with
    | zero => cases h
    | succ n => rfl
  | cons c s ih =>
    cases n with
    | zero => cases h
    | succ n =>
      rw [List.flatMap_cons, List.append_assoc, hesc, ih (Nat.lt_of_succ_lt_succ h)]
      rfl

/-- Nothing is read from no text. -/
theorem length_flatMap_esc (s : Str) : s.length ≤ (s.flatMap esc).length := by
  induction s with
  | nil => exact Nat.le_refl _
  | cons c s ih =>
    have hc : esc c ≠ [] := by
      intro hnil
      have hread := hesc 1 c ['"']
      rw [hnil] at hread
      cases hread
    have hpos := List.length_pos_iff.mpr hc
    rw [List.flatMap_cons, List.length_append, List.length_cons]
    omega

theorem value_text (num : Numbers) (n : Nat) (s rest : Str) :
    value num (n + 1) ('"' :: (s.flatMap esc ++ '"' :: rest)) = some (.str s, rest) := by
  have hlen := length_flatMap_esc hesc s
  rw [value_string, string_flatMap_esc hesc rest (by rw [List.length_append]; omega)]
  rfl

end Response

/-! ### The counter -/

theorem toDigits_head {n : Nat} (h : 0 < n) : (Nat.toDigits 10 n).head? ≠ some '0' := by
  induction n using Nat.strongRecOn with
  | ind n ih =>
    by_cases hn : n < 10
    · rw [Nat.toDigits_of_lt_base hn]
      have hall : ∀ m < 10, 0 < m → [Nat.digitChar m].head? ≠ some '0' := by decide
      exact hall n hn h
    · have hdiv : 0 < n / 10 := by omega
      have ih' := ih (n / 10) (by omega) hdiv
      rw [Nat.toDigits_of_base_le (by decide) (by omega)]
      cases hd : Nat.toDigits 10 (n / 10) with
      | nil => exact absurd hd Nat.toDigits_ne_nil
      | cons c s =>
        rw [hd] at ih'
        exact ih'

theorem digits_all {s : Str} (h : ∀ c ∈ s, c.isDigit = true) : digits s = (s, []) := by
  rw [digits, Prod.mk.injEq]
  refine ⟨List.takeWhile_eq_self_iff.mpr h, ?_⟩
  rw [List.dropWhile_eq_nil_iff]
  exact h

theorem wholePart_toDigits (n : Nat) : wholePart (Nat.toDigits 10 n) = (Nat.toDigits 10 n, []) := by
  have hall : ∀ c ∈ Nat.toDigits 10 n, c.isDigit = true :=
    fun c hc => Nat.isDigit_of_mem_toDigits (by decide) (by decide) hc
  by_cases hn : n = 0
  · subst hn
    rfl
  · have hhead := toDigits_head (Nat.pos_of_ne_zero hn)
    cases hd : Nat.toDigits 10 n with
    | nil => exact absurd hd Nat.toDigits_ne_nil
    | cons c s =>
      rw [hd] at hhead hall
      unfold wholePart
      split
      case h_1 heq => exact absurd (congrArg some (List.cons.inj heq).1) hhead
      case h_2 => exact digits_all hall

theorem number_digits (sign : Str) (n : Nat)
    (hsign : signOf ['-'] (sign ++ Nat.toDigits 10 n) = (sign, Nat.toDigits 10 n)) :
    number (sign ++ Nat.toDigits 10 n) = some (sign ++ Nat.toDigits 10 n, []) := by
  simp only [number, hsign, wholePart_toDigits, if_neg Nat.toDigits_ne_nil, numberPart,
    Option.map_some, List.append_nil]

theorem signOf_toDigits (n : Nat) : signOf ['-'] (Nat.toDigits 10 n) = ([], Nat.toDigits 10 n) := by
  have hall : ∀ c ∈ Nat.toDigits 10 n, c.isDigit = true :=
    fun c hc => Nat.isDigit_of_mem_toDigits (by decide) (by decide) hc
  cases hd : Nat.toDigits 10 n with
  | nil => rfl
  | cons c s =>
    have hc := hall c (by rw [hd]; exact List.mem_cons_self)
    have hne : c ∉ ['-'] := by
      intro hmem
      rw [List.mem_singleton.mp hmem] at hc
      cases hc
    simp only [signOf, if_neg hne]

theorem number_intText (n : Int) : number (intText n) = some (intText n, []) := by
  cases n with
  | ofNat n =>
    have htext : intText (Int.ofNat n) = [] ++ Nat.toDigits 10 n := Nat.toList_repr
    rw [htext]
    exact number_digits [] n (signOf_toDigits n)
  | negSucc n =>
    have htext : intText (Int.negSucc n) = ['-'] ++ Nat.toDigits 10 (n + 1) := by
      change ("-" ++ Nat.repr (n + 1)).toList = _
      rw [String.toList_append, Nat.toList_repr]
      rfl
    rw [htext]
    exact number_digits ['-'] (n + 1) rfl

/-- The counter as it is read. -/
def counterJson (num : Numbers) (n : Int) : Json := num.json (intText n)

theorem value_counter (num : Numbers) (k : Nat) (n : Int) (rest : Str) :
    value num (k + 1) (intText n ++ '\x7d' :: rest) = some (counterJson num n, '\x7d' :: rest) := by
  have hread := number_append (Delimited.cons (c := '\x7d') rest (by decide)) (number_intText n)
  obtain ⟨c, t, hcons, hc⟩ := number_head (number_intText n)
  rw [hcons, List.cons_append] at hread ⊢
  rw [value_number num k _ hc, hread, Option.map_some, ← hcons]
  rfl

theorem parse_response (num : Numbers) {esc : Char → Str} (hesc : ReadsBack esc)
    {textKey counterKey : Str} (hkeys : textKey ≠ counterKey) (text : Str) (counter : Int) :
    parse num (response esc textKey counterKey text counter) =
      some (.obj [(textKey, .str text), (counterKey, counterJson num counter)]) := by
  have hquote : ∀ name rest : Str, ∃ t, quote name ++ rest = '"' :: t := fun name rest => ⟨_, rfl⟩
  have hread : ∀ k, members num (k + 3) [] (quote textKey ++ ':' :: '"' :: (text.flatMap esc ++
      '"' :: ',' :: (quote counterKey ++ ':' :: (intText counter ++ ['\x7d'])))) =
        some ([(textKey, .str text), (counterKey, counterJson num counter)], []) := by
    intro k
    rw [members_comma textKey (value_text hesc num _ text _),
      members_close counterKey (value_counter num _ counter [])]
    simp [setMember, hkeys]
  obtain ⟨t, ht⟩ := hquote textKey (':' :: '"' :: (text.flatMap esc ++
    '"' :: ',' :: (quote counterKey ++ ':' :: (intText counter ++ ['\x7d']))))
  obtain ⟨k, hk⟩ : ∃ k, (response esc textKey counterKey text counter).length = k + 3 := by
    refine ⟨(response esc textKey counterKey text counter).length - 3, ?_⟩
    simp only [response, List.length_cons, List.length_append]
    omega
  rw [parse, hk, response, ht, value_open num _ '"' t rfl (by decide), ← ht, hread]
  rfl

end OneSig.Greeting
