/-
# `triggers.ts`: from a reply to a reading

The body of a reply is JSON, its `result` is hex, and the first three words of that are a price,
its decimals and a time.  Everything is read inside one `try`, so whatever is thrown on the way,
the reply is no reading; and a trigger without a reading does not fire.

The file gives `readFeed` from the text of the body on, with the type errors of a body that is not
what it is taken for, and `isTriggered`.  What the request asks for and how it is sent are left out:
a reply is the text that came back, or what was thrown instead of one.  A word is a bigint, and the
price stays one; decimals and time become numbers, so beyond 53 bits they are rounded, half to even
(`toNumber`).

* A reply that holds the ABI encoding of a price, an `int8` and a time gives exactly these, the
  decimals with their sign, whatever words follow and in either case of the hex, for times below
  2^53 (`readFeed_encodes`).  A time of zero is taken for a missing one and replaced by the clock's.
* Whatever the reply is, something is returned (`readFeed_total`).
* If the request fails, the body is no JSON, or its result is missing, no text, empty or shorter than
  three words, it is no reading (`readFeed_unreadable`), and no price trigger fires on it.

Both halves are needed: nothing here says that a reply is a reading of the feed that was asked for.
-/
import Mathlib.Algebra.Order.Field.Basic
import Mathlib.Tactic.NormNum
import OneSig.Latch.Requests

namespace OneSig.Latch

/-! ## 1. The source -/

/-- A price scaled by 10^decimals. -/
structure FeedReading where
  value : Int
  decimals : Int
  /-- Seconds. -/
  timestamp : ℚ
  deriving DecidableEq, Repr

/-- `int8`, two's complement in a 32-byte word. -/
def signed (rawDecimals : Int) : Int :=
  if 0x7f < rawDecimals then rawDecimals - 2 ^ 256 else rawDecimals

/-- What comes of the request: the text of the body, unless fetching or reading it throws. -/
abbrev Reply := Except JsError Str

/-- The nearest multiple of a unit, and of two the even one. -/
def halfEven (a unit : Nat) : Nat :=
  let q := a / unit
  let twice := 2 * (a % unit)
  if twice < unit ∨ (twice = unit ∧ q % 2 = 0) then q * unit else (q + 1) * unit

/-- `Number(n)` of a bigint that is no larger than a word: 53 bits of it. -/
def toNumber (n : Int) : Int :=
  if n.natAbs < 2 ^ 53 then n
  else n.sign * halfEven n.natAbs (2 ^ (n.natAbs.log2 - 52))

namespace Feed

/-- `body.result`. -/
def resultOf : Json → Except JsError (Option Json)
  | .null => raise "Cannot read properties of null (reading 'result')".toList
  | body => .ok (fieldOf body "result")

/-- `BigInt` of a word of the text. -/
def word (hex : Str) (i : Nat) : Except JsError Int :=
  bigIntOfString (hexPrefix ++ (hex.drop (64 * i)).take 64)

/-- A result that is a text, and not an empty one. -/
def readWords (result : Str) (now : ℚ) : Except JsError (Option FeedReading) :=
  let hex := if hexPrefix.isPrefixOf result then result.drop 2 else result
  if hex.length < 192 then .ok none
  else do
    let value ← word hex 0
    let rawDecimals ← word hex 1
    let timestamp ← word hex 2
    return some {
      value
      decimals := toNumber (signed rawDecimals)
      timestamp := if toNumber timestamp = 0 then (now / 1000).floor else toNumber timestamp }

/-- `!body.result || body.result === "0x"`, and what is read otherwise. -/
def readResult (now : ℚ) : Option Json → Except JsError (Option FeedReading)
  | none => .ok none
  | some (.str result) =>
    if result = [] ∨ result = hexPrefix then .ok none else readWords result now
  | some result =>
    if result.truthy = true then raise "body.result.replace is not a function".toList
    else .ok none

/-- `res.json()`, of the text of the body. -/
def parseBody (engine : Engine) (text : Str) : Except JsError Json :=
  match JsonText.parse engine.numbers text with
  | some body => .ok body
  | none => raise (engine.syntaxError text)

/-- The `try` block of `readFeed`. -/
def tryBlock (engine : Engine) (reply : Reply) (now : ℚ) : Except JsError (Option FeedReading) := do
  let text ← reply
  let body ← parseBody engine text
  let result ← resultOf body
  readResult now result

def readFeed (engine : Engine) (reply : Reply) (now : ℚ) : Except JsError (Option FeedReading) :=
  (tryBlock engine reply now).tryCatch fun _ => .ok none

end Feed

/-- `op` holds between the value of a reading and the threshold. -/
def Comparator.holds : Comparator → Int → Int → Bool
  | .gte, value, threshold => decide (threshold ≤ value)
  | .lte, value, threshold => decide (value ≤ threshold)

/-- What `isTriggered` returns: `fired`, and the reading it rests on. -/
structure Verdict where
  fired : Bool
  reading : Option FeedReading := none
  deriving DecidableEq, Repr

/-- Has the condition been met?  `reading` is what the feed has given, if anything. -/
def isTriggered (trigger : Trigger) (now : ℚ) (reading : Option FeedReading) :
    Except JsError Verdict :=
  match trigger with
  | .time notBefore => .ok { fired := decide (notBefore ≤ now) }
  | .price _ op value =>
    match reading with
    | none => .ok { fired := false }
    | some reading => do
      let threshold ← bigIntOfString value
      return { fired := op.holds reading.value threshold, reading := some reading }

/-- `isTriggered`: a price is read from this reply. -/
def isTriggeredOn (engine : Engine) (trigger : Trigger) (now : ℚ) (reply : Reply) :
    Except JsError Verdict :=
  match trigger with
  | .time notBefore => isTriggered (.time notBefore) now none
  | .price feedId op value => do
    let reading ← Feed.readFeed engine reply now
    isTriggered (.price feedId op value) now reading

/-! ## 2. The encoding -/

/-- What `getFeedById` returns. -/
structure FeedData where
  value : Nat
  decimals : Int
  timestamp : Nat
  value_lt : value < 2 ^ 256
  decimals_ge : -128 ≤ decimals
  decimals_le : decimals ≤ 127
  timestamp_lt : timestamp < 2 ^ 64

/-- `abi.encode(uint256, int8, uint64)`: an `int8` fills its word with its sign. -/
def FeedData.encode (d : FeedData) : List UInt8 :=
  Bytes.beBytes 32 d.value ++ Bytes.beBytes 32 (d.decimals % 2 ^ 256).toNat ++
    Bytes.beBytes 32 d.timestamp

/-- A text of the encoding in either case, with or without 0x, and more bytes after it. -/
def Encodes (s : Str) (d : FeedData) : Prop :=
  ∃ digits rest, Bytes.hexDecode digits = some (d.encode ++ rest) ∧
    (s = digits ∨ s = hexPrefix ++ digits)

/-- The reading that says the same. -/
def FeedData.reading (d : FeedData) : FeedReading := ⟨d.value, d.decimals, d.timestamp⟩

/-! ## 3. The words -/

theorem toNumber_eq {n : Int} (h : n.natAbs < 2 ^ 53) : toNumber n = n := if_pos h

theorem word_bound : 256 ^ 32 = 2 ^ 256 := by norm_num

/-- **An `int8` comes back with its sign** from the word that the ABI pads it to, in which a
negative number has its high bits set. -/
theorem signed_decimals (d : FeedData) :
    signed (Bytes.beNat (Bytes.beBytes 32 (d.decimals % 2 ^ 256).toNat)) = d.decimals := by
  have hge := d.decimals_ge
  have hle := d.decimals_le
  have hlt : (d.decimals % 2 ^ 256).toNat < 256 ^ 32 := by
    rw [word_bound]
    omega
  rw [Bytes.beNat_beBytes_of_lt hlt, signed]
  split_ifs <;> omega

namespace Feed

/-- A word of a text is a word of its bytes. -/
theorem word_eq {hex : Str} {before w after : List UInt8} {i : Nat}
    (hdecode : Bytes.hexDecode hex = some (before ++ (w ++ after)))
    (hbefore : before.length = 32 * i) (hw : w.length = 32) :
    word hex i = .ok (Bytes.beNat w) := by
  have hne : w ≠ [] := by
    rintro rfl
    cases hw
  have hrest := (Bytes.hexDecode_split hdecode).2
  rw [hbefore, show 2 * (32 * i) = 64 * i by omega] at hrest
  have hword := (Bytes.hexDecode_split hrest).1
  rw [hw] at hword
  exact bigIntOfString_hexDecode hword hne

/-- The first three words. -/
theorem words_eq {hex : Str} {a b c rest : List UInt8}
    (hdecode : Bytes.hexDecode hex = some (a ++ b ++ c ++ rest)) (ha : a.length = 32)
    (hb : b.length = 32) (hc : c.length = 32) :
    word hex 0 = .ok (Bytes.beNat a) ∧ word hex 1 = .ok (Bytes.beNat b) ∧
      word hex 2 = .ok (Bytes.beNat c) := by
  have hfirst : a ++ b ++ c ++ rest = [] ++ (a ++ (b ++ c ++ rest)) := by simp
  have hsecond : a ++ b ++ c ++ rest = a ++ (b ++ (c ++ rest)) := by simp
  have hthird : a ++ b ++ c ++ rest = (a ++ b) ++ (c ++ rest) := by simp
  refine ⟨word_eq (hfirst ▸ hdecode) rfl ha, word_eq (hsecond ▸ hdecode) ha hb,
    word_eq (hthird ▸ hdecode) ?_ hc⟩
  rw [List.length_append, ha, hb]

/-- Digits are not taken for a prefix. -/
theorem unprefixed {digits : Str} (h : ∀ c ∈ digits, Bytes.isHexDigit c = true) :
    hexPrefix.isPrefixOf digits = false := by
  rw [← Bool.not_eq_true]
  intro hpre
  obtain ⟨rest, rfl⟩ := List.isPrefixOf_iff_prefix.mp hpre
  exact absurd (h 'x' (by simp [hexPrefix])) (by decide)

/-- What is left of an encoding without its 0x. -/
theorem stripped {s digits : Str} (h : ∀ c ∈ digits, Bytes.isHexDigit c = true)
    (hs : s = digits ∨ s = hexPrefix ++ digits) :
    (if hexPrefix.isPrefixOf s then s.drop 2 else s) = digits := by
  rcases hs with rfl | rfl
  · rw [unprefixed h]
    rfl
  · rw [if_pos (List.isPrefixOf_iff_prefix.mpr (List.prefix_append _ _))]
    rfl

/-- **The words of an encoding** are read as the reading they encode, when the time is a positive
integer that a double holds exactly. -/
theorem readWords_encodes {s : Str} {d : FeedData} (h : Encodes s d) (hpos : 0 < d.timestamp)
    (hexact : d.timestamp < 2 ^ 53) (now : ℚ) : readWords s now = .ok (some d.reading) := by
  obtain ⟨digits, rest, hdecode, hs⟩ := h
  have hstrip := stripped (Bytes.isHexDigit_of_hexDecode hdecode) hs
  have hlen := Bytes.length_of_hexDecode hdecode
  have hsize : ∀ n, (Bytes.beBytes 32 n).length = 32 := Bytes.length_beBytes 32
  rw [FeedData.encode] at hdecode
  obtain ⟨hvalue, hdecimals, htime⟩ := words_eq hdecode (hsize _) (hsize _) (hsize _)
  rw [FeedData.encode] at hlen
  simp only [List.length_append, hsize] at hlen
  have hword : d.value < 256 ^ 32 ∧ d.timestamp < 256 ^ 32 := by
    have hlt := d.timestamp_lt
    rw [word_bound]
    exact ⟨d.value_lt, by omega⟩
  rw [Bytes.beNat_beBytes_of_lt hword.1] at hvalue
  rw [Bytes.beNat_beBytes_of_lt hword.2] at htime
  have hge := d.decimals_ge
  have hle := d.decimals_le
  have hscale : toNumber (signed (Bytes.beNat (Bytes.beBytes 32 (d.decimals % 2 ^ 256).toNat))) =
      d.decimals := by
    rw [signed_decimals, toNumber_eq (by omega)]
  have hstamp : toNumber (d.timestamp : Int) = d.timestamp := toNumber_eq (by omega)
  rw [readWords, hstrip, if_neg (by omega), hvalue, hdecimals, htime]
  simp only [bind, Except.bind, pure, Except.pure, hscale, hstamp, FeedData.reading]
  rw [if_neg (by omega), Int.cast_natCast]

/-- Less than three words. -/
theorem readWords_short {s digits : Str} (hs : s = digits ∨ s = hexPrefix ++ digits)
    (hlen : digits.length < 192) (now : ℚ) : readWords s now = .ok none := by
  have hstrip : (if hexPrefix.isPrefixOf s then s.drop 2 else s).length < 192 := by
    rcases hs with rfl | rfl
    · split
      · rw [List.length_drop]
        omega
      · exact hlen
    · rw [if_pos (List.isPrefixOf_iff_prefix.mpr (List.prefix_append _ _))]
      exact hlen
  exact if_pos hstrip

end Feed

/-! ## 4. Every reply -/

/-- A reply with nothing to read: the request fails, the body is no JSON, or its `result` is
missing, no text, or a text of less than three words. -/
inductive Unreadable (engine : Engine) : Reply → Prop
  | transport (e : JsError) : Unreadable engine (.error e)
  | malformed {text : Str} (h : JsonText.parse engine.numbers text = none) :
      Unreadable engine (.ok text)
  | missing {text : Str} {body : Json} (h : JsonText.parse engine.numbers text = some body)
      (hresult : fieldOf body "result" = none) : Unreadable engine (.ok text)
  | noText {text : Str} {body result : Json} (h : JsonText.parse engine.numbers text = some body)
      (hresult : fieldOf body "result" = some result) (hno : ∀ s, result ≠ .str s) :
      Unreadable engine (.ok text)
  | short {text : Str} {body : Json} {s digits : Str}
      (h : JsonText.parse engine.numbers text = some body)
      (hresult : fieldOf body "result" = some (.str s))
      (hs : s = digits ∨ s = hexPrefix ++ digits) (hlen : digits.length < 192) :
      Unreadable engine (.ok text)

namespace Feed

variable {engine : Engine} {text : Str} {body : Json}

/-- Nothing that is thrown gets out. -/
theorem readFeed_total (engine : Engine) (reply : Reply) (now : ℚ) :
    ∃ reading, readFeed engine reply now = .ok reading := by
  rw [readFeed]
  cases tryBlock engine reply now with
  | ok reading => exact ⟨reading, rfl⟩
  | error e => exact ⟨none, rfl⟩

theorem tryBlock_body (h : JsonText.parse engine.numbers text = some body) (now : ℚ) :
    tryBlock engine (.ok text) now = resultOf body >>= readResult now := by
  have hbody : parseBody engine text = .ok body := by rw [parseBody, h]
  change parseBody engine text >>= (fun body => resultOf body >>= readResult now) = _
  rw [hbody]
  rfl

/-- A body with a result is an object. -/
theorem resultOf_some {result : Json} (h : fieldOf body "result" = some result) :
    resultOf body = .ok (some result) := by
  cases body with
  | obj fields => exact congrArg Except.ok h
  | _ => cases h

theorem readFeed_encodes {s : Str} {d : FeedData}
    (h : JsonText.parse engine.numbers text = some body)
    (hresult : fieldOf body "result" = some (.str s)) (hd : Encodes s d) (hpos : 0 < d.timestamp)
    (hexact : d.timestamp < 2 ^ 53) (now : ℚ) :
    readFeed engine (.ok text) now = .ok (some d.reading) := by
  have hwords := readWords_encodes hd hpos hexact now
  have hnonempty : ¬(s = [] ∨ s = hexPrefix) := by
    have hshort : ∀ digits, digits.length < 192 → s = digits ∨ s = hexPrefix ++ digits → False := by
      intro digits hlen hs
      rw [readWords_short hs hlen] at hwords
      cases hwords
    rintro (rfl | rfl)
    · exact hshort [] (by decide) (.inl rfl)
    · exact hshort [] (by decide) (.inr rfl)
  have hread : readResult now (some (.str s)) = .ok (some d.reading) := by
    rw [readResult, if_neg hnonempty, hwords]
  rw [readFeed, tryBlock_body h, resultOf_some hresult]
  change (readResult now (some (.str s))).tryCatch _ = _
  rw [hread]
  rfl

/-- Nothing is read, or something is thrown. -/
theorem readFeed_unreadable {reply : Reply} (h : Unreadable engine reply) (now : ℚ) :
    readFeed engine reply now = .ok none := by
  have hbody : ∀ {text body result}, JsonText.parse engine.numbers text = some body →
      fieldOf body "result" = some result →
      (readResult now (some result)).tryCatch (fun _ => .ok none) = .ok none →
      readFeed engine (.ok text) now = .ok none := by
    intro text body result h hresult hread
    rw [readFeed, tryBlock_body h, resultOf_some hresult]
    exact hread
  cases h with
  | transport e => rfl
  | @malformed text h =>
    have hbody : parseBody engine text = raise (engine.syntaxError text) := by rw [parseBody, h]
    rw [readFeed]
    change (parseBody engine text >>= _).tryCatch _ = _
    rw [hbody]
    rfl
  | @missing _ body h hresult =>
    rw [readFeed, tryBlock_body h]
    cases body with
    | null => rfl
    | _ =>
      simp only [resultOf, hresult]
      rfl
  | @noText _ _ result h hresult hno =>
    refine hbody h hresult ?_
    cases result with
    | str s => exact absurd rfl (hno s)
    | null => rfl
    | _ =>
      unfold readResult
      dsimp only
      split <;> rfl
  | @short _ _ s digits h hresult hs hlen =>
    refine hbody h hresult ?_
    rw [readResult, readWords_short hs hlen, ite_self]
    rfl

end Feed

/-- **Feed decoding is exact and fails closed**: an encoded reading comes back as it was, no reply
makes the reader throw, and on a reply that cannot be read no price trigger fires. -/
theorem feed_exact_and_closed (engine : Engine) (reply : Reply) (now : ℚ) :
    (∀ text body s d, reply = .ok text → JsonText.parse engine.numbers text = some body →
        fieldOf body "result" = some (.str s) → Encodes s d → 0 < d.timestamp →
        d.timestamp < 2 ^ 53 →
        Feed.readFeed engine reply now = .ok (some ⟨d.value, d.decimals, d.timestamp⟩)) ∧
      (∃ reading, Feed.readFeed engine reply now = .ok reading) ∧
      (Unreadable engine reply → Feed.readFeed engine reply now = .ok none ∧
        ∀ feedId op value,
          isTriggeredOn engine (.price feedId op value) now reply = .ok ⟨false, none⟩) := by
  refine ⟨?_, Feed.readFeed_total engine reply now, fun h => ?_⟩
  · rintro text body s d rfl h hresult hd hpos hexact
    exact Feed.readFeed_encodes h hresult hd hpos hexact now
  · have hnone := Feed.readFeed_unreadable h now
    refine ⟨hnone, fun feedId op value => ?_⟩
    rw [isTriggeredOn, hnone]
    rfl

namespace SampleFeed

/-- An engine that reads no numbers. -/
def engine : Engine := ⟨⟨fun _ => none, fun _ => []⟩, fun _ => "SyntaxError".toList⟩

/-- A body with a result. -/
def bodyText (result : Str) : Str :=
  "\x7b\"jsonrpc\":\"2.0\",\"result\":\"".toList ++ result ++ "\"\x7d".toList

def reply (result : Str) : Reply := .ok (bodyText result)

/-- A price of 42 with minus five decimals, one second after the epoch. -/
def data : FeedData := ⟨42, -5, 1, by decide, by decide, by decide, by decide⟩

/-- Its encoding, and one more word. -/
def encoded : Str := hexPrefix ++ Bytes.hexEncode (data.encode ++ Bytes.beBytes 32 7)

theorem encodes : Encodes encoded data :=
  ⟨_, Bytes.beBytes 32 7, Bytes.hexDecode_hexEncode _, .inr rfl⟩

/-- A result of one word. -/
def short : Str := Bytes.hexEncode (Bytes.beBytes 32 42)

def resultText (text : Str) : Option Str :=
  (JsonText.parse engine.numbers text).bind fun body =>
    match fieldOf body "result" with
    | some (.str s) => some s
    | _ => none

theorem resultText_some {text s : Str} (h : resultText text = some s) : ∃ body,
    JsonText.parse engine.numbers text = some body ∧ fieldOf body "result" = some (.str s) := by
  obtain ⟨body, hbody, h⟩ := Option.bind_eq_some_iff.mp h
  split at h
  case h_1 s' hresult =>
    cases h
    exact ⟨body, hbody, hresult⟩
  case h_2 => cases h

theorem unreadable : Unreadable engine (reply short) := by
  obtain ⟨body, hparse, hresult⟩ := resultText_some
    (show resultText (bodyText short) = some short by decide +kernel)
  exact .short hparse hresult (.inl rfl) (by decide +kernel)

end SampleFeed

open SampleFeed in
/-- The price comes out with its sign, past a further word; a reply of one word is no reading, and no
price trigger fires on it. -/
theorem feed_exact_and_closed_sample :
    Feed.readFeed engine (reply encoded) 0 = .ok (some ⟨42, -5, 1⟩) ∧
      Feed.readFeed engine (reply short) 0 = .ok none ∧
      isTriggeredOn engine (.price [] .gte "0".toList) 0 (reply short) = .ok ⟨false, none⟩ := by
  have htext : resultText (bodyText encoded) = some encoded := by decide +kernel
  obtain ⟨body, hparse, hresult⟩ := resultText_some htext
  have hexact := (feed_exact_and_closed engine (reply encoded) 0).1 _ _ _ data rfl hparse hresult
    encodes (by decide) (by decide)
  obtain ⟨hnone, hdeclined⟩ := (feed_exact_and_closed engine (reply short) 0).2.2 unreadable
  refine ⟨?_, hnone, hdeclined [] .gte "0".toList⟩
  rw [hexact]
  rfl

end OneSig.Latch
