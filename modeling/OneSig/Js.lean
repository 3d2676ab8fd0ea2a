/-
# The JavaScript values the sources compute with

Strings are lists of characters.  A character is a Unicode scalar value; where a source can tell a
string with lone surrogates from one without, its module says how the code units are kept.

A `Json` is what `JSON.parse` can return.  The sources read unvalidated request fields, so the
conversions they apply to them are modelled for every value and not only for the expected ones:

* `Json.member` is `v?.name`, absent on anything that has no own property of that name;
* `Json.text` is the interpolation of a value into a template string.  An array converts as
  `Array.prototype.join` has it, an object as `[object Object]`, and an object that has a property
  `toString` of its own, which is then no function, does not convert: it throws;
* `bigInt` is `BigInt(v)`, which throws on `null`, on a fraction, on an infinite number and on a
  text that is no integer literal, each with the message of the engine.

A number carries its text, so that the shortest-digits rule of number printing does not have to be
embedded; a literal beyond the range of a double is read as an infinite number.

`JsError` keeps the two classes that `pipeline.ts` tells apart and puts everything else into
`Error` with its message.

`bigIntOfString_hexDecode` is the one result that is about computing: `BigInt` of 0x-prefixed
digits is the big-endian number of the bytes that the digits denote, in either case of the digits.
`toLowerCase` and `toUpperCase` are exact on ASCII; `UpperCase` stands for the table of the engine
where a source applies it to any text.
-/
import Mathlib.Algebra.Group.Int.Defs
import Mathlib.Data.Rat.Defs
import OneSig.Lib.Bytes

namespace OneSig

/-- A JavaScript string. -/
abbrev Str := List Char

/-- Strings are compared by their characters. -/
instance lawfulBEqStr : @LawfulBEq Str List.instBEq := inferInstance

/-- A 0x-prefixed hexadecimal string. -/
abbrev Hex := Str

/-- An address, as the string it is written as. -/
abbrev Address := Str

/-- The two characters every `Hex` starts with. -/
def hexPrefix : Str := ['0', 'x']

def toLowerCase (s : Str) : Str := s.map Char.toLower

def toUpperCase (s : Str) : Str := s.map Char.toUpper

/-- `toUpperCase` of any text, by the upper case of its characters: one character can become
several.  The sources rely on the letters of ASCII only. -/
structure UpperCase where
  map : Char → Str
  ascii : ∀ c, c.toNat < 128 → map c = [c.toUpper]

/-- `s.toUpperCase()`. -/
def UpperCase.apply (U : UpperCase) (s : Str) : Str := s.flatMap U.map

/-- Upper case for ASCII and for nothing else. -/
def UpperCase.plain : UpperCase := ⟨fun c => [c.toUpper], fun _ _ => rfl⟩

theorem UpperCase.apply_ascii (U : UpperCase) {s : Str} (h : ∀ c ∈ s, c.toNat < 128) :
    U.apply s = toUpperCase s := by
  induction s with
  | nil => rfl
  | cons c s ih =>
    have hc := U.ascii c (h c List.mem_cons_self)
    have hs := ih fun d hd => h d (List.mem_cons_of_mem _ hd)
    rw [UpperCase.apply] at hs ⊢
    rw [List.flatMap_cons, hc, hs]
    rfl

@[simp] theorem toLowerCase_append (s t : Str) :
    toLowerCase (s ++ t) = toLowerCase s ++ toLowerCase t := List.map_append

@[simp] theorem toLowerCase_hexPrefix : toLowerCase hexPrefix = hexPrefix := by decide

/-! ## 1. Errors -/

/-- What the sources throw.  The two classes `pipeline.ts` tells apart are kept; everything else
is an `Error` with its message. -/
inductive JsError
  | verifierNotReady (status : Str) (detail : Option Str)
  | daLayerNotReady (detail : Str)
  | error (message : Str)
  deriving DecidableEq, Repr

/-- `error.message`. -/
def JsError.message : JsError → Str
  | .verifierNotReady status detail =>
    "verifier not ready: ".toList ++ status ++
      (match detail with
        | some d => if d = [] then [] else " (".toList ++ d ++ ")".toList
        | none => [])
  | .daLayerNotReady detail => "DA layer not ready: ".toList ++ detail
  | .error message => message

/-- Throw an `Error` (or `TypeError`, `RangeError`, `SyntaxError`) with a message. -/
def raise {α : Type} (message : Str) : Except JsError α := .error (.error message)

/-- A computation that succeeds has succeeded at its first step. -/
theorem bind_ok {ε α β : Type} {x : Except ε α} {f : α → Except ε β} {b : β}
    (h : (x >>= f) = .ok b) : ∃ a, x = .ok a ∧ f a = .ok b := by
  cases x with
  | ok a => exact ⟨a, rfl, h⟩
  | error e => cases h

/-- A number in a message. -/
def intText (n : Int) : Str := (toString n).toList

/-! ## 2. JSON values -/

/-- A value `JSON.parse` can return. -/
inductive Json
  | null
  | bool (b : Bool)
  | num (value : ℚ) (text : Str)
  /-- `Infinity`, or `-Infinity`. -/
  | infinite (negative : Bool)
  | str (s : Str)
  | arr (items : List Json)
  | obj (fields : List (Str × Json))

namespace Json

/-- Neither `null`, `false`, `0` nor the empty string. -/
def truthy : Json → Bool
  | null => false
  | bool b => b
  | num q _ => q ≠ 0
  | infinite _ => true
  | str s => s ≠ []
  | arr _ => true
  | obj _ => true

/-- `v?.name`: absent on anything that has no own property of that name. -/
def member (name : Str) : Option Json → Option Json
  | some (obj fields) => fields.lookup name
  | _ => none

/-- How an infinite number prints. -/
def infiniteText (negative : Bool) : Str :=
  if negative then "-Infinity".toList else "Infinity".toList

/-- What an element adds to its array's text: `null` adds nothing. -/
def element : Json → Option Str → Option Str
  | null, _ => some []
  | _, text => text

/-- Two texts with a comma between them, if both parts convert. -/
def join : Option Str → Option Str → Option Str
  | some t, some t' => some (t ++ ",".toList ++ t')
  | _, _ => none

mutual

/-- `String(value)`, unless that throws. -/
def prim : Json → Option Str
  | null => some "null".toList
  | bool b => some (if b then "true".toList else "false".toList)
  | num _ text => some text
  | infinite negative => some (infiniteText negative)
  | str s => some s
  | arr items => joined items
  | obj fields =>
    if (fields.lookup "toString".toList).isSome then none else some "[object Object]".toList

/-- `items.join()`. -/
def joined : List Json → Option Str
  | [] => some []
  | [j] => element j (prim j)
  | j :: rest => join (element j (prim j)) (joined rest)

end

/-- The text of a value in a template string. -/
def text (j : Json) : Except JsError Str :=
  match j.prim with
  | some t => .ok t
  | none => raise "Cannot convert object to primitive value".toList

end Json

/-! ## 3. `BigInt` -/

/-- White space and line terminators, which `BigInt` of a string strips. -/
def isJsSpace (c : Char) : Bool :=
  c.toNat ∈ [0x09, 0x0A, 0x0B, 0x0C, 0x0D, 0x20, 0xA0, 0x1680, 0x2000, 0x2001, 0x2002, 0x2003,
    0x2004, 0x2005, 0x2006, 0x2007, 0x2008, 0x2009, 0x200A, 0x2028, 0x2029, 0x202F, 0x205F, 0x3000,
    0xFEFF]

/-- `s.trim()`. -/
def trim (s : Str) : Str := ((s.dropWhile isJsSpace).reverse.dropWhile isJsSpace).reverse

/-- The value of a nonempty list of digits in a base. -/
def digitsValue (base : Nat) (s : Str) : Option Nat :=
  if s = [] then none
  else s.foldlM
    (fun n c => ((Bytes.hexVal c).filter fun d => decide (d < base)).map (n * base + ·)) 0

/-- `StringToBigInt`: a sign is only read before decimal digits. -/
def stringToBigInt (s : Str) : Option Int :=
  match trim s with
  | [] => some 0
  | '0' :: 'x' :: ds => (digitsValue 16 ds).map Int.ofNat
  | '0' :: 'X' :: ds => (digitsValue 16 ds).map Int.ofNat
  | '0' :: 'o' :: ds => (digitsValue 8 ds).map Int.ofNat
  | '0' :: 'O' :: ds => (digitsValue 8 ds).map Int.ofNat
  | '0' :: 'b' :: ds => (digitsValue 2 ds).map Int.ofNat
  | '0' :: 'B' :: ds => (digitsValue 2 ds).map Int.ofNat
  | '-' :: ds => (digitsValue 10 ds).map fun n => -Int.ofNat n
  | '+' :: ds => (digitsValue 10 ds).map Int.ofNat
  | ds => (digitsValue 10 ds).map Int.ofNat

theorem digitsValue_none {base : Nat} {s : Str} {c : Char} (hc : Bytes.hexVal c = none)
    (hmem : c ∈ s) : digitsValue base s = none := by
  have hfold : ∀ s : Str, c ∈ s → ∀ n, s.foldlM (fun n c =>
      ((Bytes.hexVal c).filter fun d => decide (d < base)).map (n * base + ·)) n = none := by
    intro s
    induction s with
    | nil => exact fun hmem => absurd hmem List.not_mem_nil
    | cons d s ih =>
      intro hmem n
      rw [List.foldlM_cons]
      rcases List.mem_cons.mp hmem with rfl | hmem
      · rw [hc]
        rfl
      · cases ((Bytes.hexVal d).filter fun d => decide (d < base)).map (n * base + ·) with
        | none => rfl
        | some n' => exact ih hmem n'
  rw [digitsValue, if_neg (List.ne_nil_of_mem hmem)]
  exact hfold s hmem 0

/-- A character that is neither a space nor a digit nor part of a prefix. -/
def isForeign (c : Char) : Bool :=
  !isJsSpace c && (Bytes.hexVal c).isNone && !("xXoObB-+".toList.contains c)

theorem mem_trim {s : Str} {c : Char} (hc : isJsSpace c = false) (hmem : c ∈ s) : c ∈ trim s := by
  have hdrop : ∀ t : Str, c ∈ t → c ∈ t.dropWhile isJsSpace := by
    intro t ht
    rcases List.mem_append.mp (List.takeWhile_append_dropWhile (p := isJsSpace) (l := t) ▸ ht) with
      h | h
    · have hspace := List.all_eq_true.mp (List.all_takeWhile (p := isJsSpace) (l := t)) c h
      rw [hc] at hspace
      cases hspace
    · exact h
  rw [trim, List.mem_reverse]
  exact hdrop _ (List.mem_reverse.mpr (hdrop _ hmem))

/-- A text with such a character is no integer. -/
theorem stringToBigInt_none {s : Str} {c : Char} (hc : isForeign c = true) (hmem : c ∈ s) :
    stringToBigInt s = none := by
  simp only [isForeign, Bool.and_eq_true, Bool.not_eq_true', Option.isNone_iff_eq_none] at hc
  obtain ⟨⟨hspace, hdigit⟩, hprefix⟩ := hc
  have htrim := mem_trim hspace hmem
  have hrest : ∀ (pre : Str) {base : Nat} {ds : Str} {f : Nat → Int}, trim s = pre ++ ds →
      pre.all (fun d => d == '0' || "xXoObB-+".toList.contains d) = true →
      (digitsValue base ds).map f = none := by
    intro pre base ds f heq hpre
    rw [heq] at htrim
    rcases List.mem_append.mp htrim with hmem | hmem
    · rcases Bool.or_eq_true_iff.mp (List.all_eq_true.mp hpre c hmem) with hzero | hsign
      · rw [eq_of_beq hzero] at hdigit
        cases hdigit
      · rw [hsign] at hprefix
        cases hprefix
    · rw [digitsValue_none hdigit hmem]
      rfl
  unfold stringToBigInt
  split
  case h_1 heq =>
    rw [heq] at htrim
    cases htrim
  case h_2 ds heq => exact hrest ['0', 'x'] heq (by decide)
  case h_3 ds heq => exact hrest ['0', 'X'] heq (by decide)
  case h_4 ds heq => exact hrest ['0', 'o'] heq (by decide)
  case h_5 ds heq => exact hrest ['0', 'O'] heq (by decide)
  case h_6 ds heq => exact hrest ['0', 'b'] heq (by decide)
  case h_7 ds heq => exact hrest ['0', 'B'] heq (by decide)
  case h_8 ds heq => exact hrest ['-'] heq (by decide)
  case h_9 ds heq => exact hrest ['+'] heq (by decide)
  case h_10 => exact hrest [] rfl (by decide)

/-- `BigInt(s)` of a string. -/
def bigIntOfString (s : Str) : Except JsError Int :=
  match stringToBigInt s with
  | some n => .ok n
  | none => raise ("Cannot convert ".toList ++ s ++ " to a BigInt".toList)

/-- `BigInt(n)` of a number that is no integer. -/
def notAnInteger (text : Str) : Except JsError Int :=
  raise ("The number ".toList ++ text ++
    " cannot be converted to a BigInt because it is not an integer".toList)

/-- `BigInt(v)`. -/
def bigInt : Json → Except JsError Int
  | .null => raise "Cannot convert null to a BigInt".toList
  | .bool b => .ok (if b then 1 else 0)
  | .num q t => if q.den = 1 then .ok q.num else notAnInteger t
  | .infinite negative => notAnInteger (Json.infiniteText negative)
  | .str s => bigIntOfString s
  | j => j.text.bind bigIntOfString

example : bigInt (.str "1000000000000000000".toList) = .ok 1000000000000000000 := by decide

example : bigInt (.str "1e18".toList) = raise "Cannot convert 1e18 to a BigInt".toList := by
  decide

theorem hexEncode_ne_nil {bs : List UInt8} (hne : bs ≠ []) : Bytes.hexEncode bs ≠ [] := by
  cases bs with
  | nil => exact absurd rfl hne
  | cons b bs => simp

theorem isJsSpace_of_hexDigit {c : Char} (h : Bytes.isHexDigit c = true) : isJsSpace c = false := by
  have hall : ∀ c ∈ Bytes.anyHexDigits, isJsSpace c = false :=
    Bytes.forall_anyHexDigits (by decide)
  exact hall c (Bytes.mem_anyHexDigits h)

/-- A text with no space at either end is not changed by `trim`. -/
theorem trim_eq {s : Str} (hhead : ∀ c ∈ s.head?, isJsSpace c = false)
    (hlast : ∀ c ∈ s.getLast?, isJsSpace c = false) : trim s = s := by
  have hdrop : ∀ t : Str, (∀ c ∈ t.head?, isJsSpace c = false) → t.dropWhile isJsSpace = t := by
    intro t ht
    cases t with
    | nil => rfl
    | cons c t => rw [List.dropWhile_cons_of_neg (by simp [ht c rfl])]
  rw [trim, hdrop s hhead, hdrop s.reverse (by simpa [List.head?_reverse] using hlast),
    List.reverse_reverse]

theorem hexFilter (c : Char) :
    (Bytes.hexVal c).filter (fun d => decide (d < 16)) = Bytes.hexVal c := by
  cases h : Bytes.hexVal c with
  | none => rfl
  | some d => simp [Option.filter, Bytes.hexVal_lt h]

/-- Digits in either case. -/
theorem digitsValue_hexDecode {digits : Str} {bs : List UInt8}
    (hdecode : Bytes.hexDecode digits = some bs) (hne : bs ≠ []) :
    digitsValue 16 digits = some (Bytes.beNat bs) := by
  have hlower := Bytes.hexEncode_hexDecode digits bs hdecode
  have hsame : ∀ s : Str, (∀ c ∈ s, Bytes.isHexDigit c = true) → ∀ n,
      s.foldlM (fun n c => (Bytes.hexVal c).map (n * 16 + ·)) n =
        (s.map Char.toLower).foldlM (fun n c => (Bytes.hexVal c).map (n * 16 + ·)) n := by
    intro s
    induction s with
    | nil => exact fun _ _ => rfl
    | cons c s ih =>
      intro hs n
      have hc := (Bytes.hexVal_case c (Bytes.mem_anyHexDigits (hs c List.mem_cons_self))).1
      have hrest := ih fun d hd => hs d (List.mem_cons_of_mem _ hd)
      rw [List.map_cons, List.foldlM_cons, List.foldlM_cons, hc]
      exact congrArg _ (funext hrest)
  have hdigits : digits ≠ [] := by
    rintro rfl
    exact hexEncode_ne_nil hne hlower
  rw [digitsValue, if_neg hdigits]
  simp only [hexFilter]
  rw [hsame digits (Bytes.isHexDigit_of_hexDecode hdecode), ← hlower]
  exact Bytes.hexNat_hexEncode bs

/-- `BigInt` of 0x-prefixed digits. -/
theorem bigIntOfString_hexDecode {digits : Str} {bs : List UInt8}
    (hdecode : Bytes.hexDecode digits = some bs) (hne : bs ≠ []) :
    bigIntOfString (hexPrefix ++ digits) = .ok (Int.ofNat (Bytes.beNat bs)) := by
  have hdigits := Bytes.isHexDigit_of_hexDecode hdecode
  have htrim : trim (hexPrefix ++ digits) = hexPrefix ++ digits := by
    refine trim_eq (fun c hc => ?_) fun c hc => ?_
    · simp only [hexPrefix, List.cons_append, List.head?_cons, Option.mem_def,
        Option.some.injEq] at hc
      rw [← hc]
      decide
    · have hplain : hexPrefix.all (fun c => isJsSpace c = false) = true := by decide
      rcases List.mem_append.mp (List.mem_of_getLast? hc) with hc | hc
      · exact of_decide_eq_true (List.all_eq_true.mp hplain c hc)
      · exact isJsSpace_of_hexDigit (hdigits c hc)
  rw [bigIntOfString, stringToBigInt, htrim]
  simp only [hexPrefix, List.cons_append, List.nil_append, digitsValue_hexDecode hdecode hne,
    Option.map_some]

/-- `BigInt` of a 0x-prefixed byte string. -/
theorem bigIntOfString_hexEncode (bs : List UInt8) (hne : bs ≠ []) :
    bigIntOfString (hexPrefix ++ Bytes.hexEncode bs) = .ok (Int.ofNat (Bytes.beNat bs)) :=
  bigIntOfString_hexDecode (Bytes.hexDecode_hexEncode bs) hne

end OneSig
