/-
# What a LATCH request says

A handler is given the hexadecimal of a JSON object.  This file reads it: `decodeJson` with its
errors, `parseTrigger`, and the part of `handleArm` that comes before its first look at the clock.
All of it depends on the message alone, and none of it on the memory, so a message that has been
accepted once is read the same when it is delivered again.

A handler that does not accept a message either answers with a text or throws, and `Refusal` keeps
the two apart.  The difference is visible from outside: an answer has status 0 and the text, an
exception makes the request reject.  Throwing comes about where a check applies a method or a
conversion to a value of the wrong kind, so the fields are read without a schema, as in the
source.

* `stringField` and `numberField` are the two kinds of field check, with the condition and the
  message as parameters; each field of the source is one of them applied to its own.
* `parseTrigger` reads the three kinds of trigger with their own fields, and answers to any other
  kind; an array is an object here, without a kind.
* `parseArm` reads a whole ARM message, in the order of the source, which decides what a message
  with several faults is refused for.
* `hexToBytes_bytesToHex`: the two functions of `encoding.ts` are inverse, and never fail on one
  another's results.

Number literals, the text of a `SyntaxError` and the calendar behind `toISOString` belong to the
engine (`Engine`); of the last, whose text is only logged, what is kept is when it throws.
-/
import OneSig.JsonText
import OneSig.Viem

namespace OneSig.Latch

/-- What the handlers take from the JavaScript engine. -/
structure Engine where
  numbers : Numbers
  /-- `String(e)` of what `JSON.parse` throws on a text. -/
  syntaxError : Str → Str

/-- The packages and the setting the handlers are built with. -/
structure Options where
  viem : Viem
  engine : Engine
  /-- `MAX_DEADLINE_MS`. -/
  maxDeadlineMs : ℚ := 7 * 24 * 3600 * 1000

/-- Why a handler does not go on. -/
inductive Refusal
  | reject (message : Str)
  | thrown (e : JsError)
  deriving DecidableEq, Repr

def reject {α : Type} (message : Str) : Except Refusal α := .error (.reject message)

/-! ## 1. `encoding.ts` -/

/-- The text without its 0x. -/
def stripPrefix : Str → Str
  | '0' :: 'x' :: s => s
  | '0' :: 'X' :: s => s
  | s => s

def hexToBytes (h : Str) : Except JsError (List UInt8) :=
  let s := stripPrefix h
  if s.length % 2 ≠ 0 then
    raise ("invalid hex: odd length (".toList ++ intText s.length ++ ")".toList)
  else match Bytes.hexDecode s with
    | some bs => .ok bs
    | none => raise "invalid hex: non-hex characters".toList

def bytesToHex (bs : List UInt8) : Hex := hexPrefix ++ Bytes.hexEncode bs

/-- **The two are inverse**, and never fail on one another's results: bytes come back from their
hex as they were, with its `0x` in front. -/
theorem hexToBytes_bytesToHex (bs : List UInt8) : hexToBytes (bytesToHex bs) = .ok bs := by
  have hstrip : stripPrefix (bytesToHex bs) = Bytes.hexEncode bs := rfl
  have heven : ¬ (Bytes.hexEncode bs).length % 2 ≠ 0 := by
    rw [Bytes.length_hexEncode]
    omega
  rw [hexToBytes, hstrip]
  simp only [if_neg heven, Bytes.hexDecode_hexEncode]

/-! ## 2. The fields of a request -/

/-- `value[name]`. -/
def fieldOf (j : Json) (name : String) : Option Json := Json.member name.toList (some j)

/-- A string with a property. -/
def stringField (good : Str → Bool) (message : String) : Option Json → Except Refusal Str
  | some (.str s) => if good s then .ok s else reject message.toList
  | _ => reject message.toList

/-- A finite number with a property. -/
def numberField (good : ℚ → Bool) (message : String) : Option Json → Except Refusal ℚ
  | some (.num q _) => if good q then .ok q else reject message.toList
  | _ => reject message.toList

theorem stringField_ok {good : Str → Bool} {message : String} {j : Option Json} {s : Str}
    (h : stringField good message j = .ok s) : j = some (.str s) ∧ good s = true := by
  unfold stringField at h
  split at h
  · split at h
    · cases h
      exact ⟨rfl, ‹_›⟩
    · cases h
  · cases h

def decodeJson (engine : Engine) (msg : Str) : Except Refusal Json :=
  match hexToBytes msg with
  | .error e => reject ("decoding request: invalid hex: Error: ".toList ++ e.message)
  | .ok raw =>
    match JsonText.parse engine.numbers (Utf8.decode raw) with
    | some (.obj fields) => .ok (.obj fields)
    | some _ => reject "decoding request: expected a JSON object".toList
    | none => reject ("decoding request: ".toList ++ engine.syntaxError (Utf8.decode raw))

/-- The commitment STATUS, CANCEL and COLLECT ask for. -/
def namedCommitment (engine : Engine) (msg : Str) : Except Refusal Str := do
  let req ← decodeJson engine msg
  stringField (fun _ => true) "commitment must be a 0x hex string" (fieldOf req "commitment")

/-! ## 3. `triggers.ts` -/

inductive Comparator
  | gte
  | lte
  deriving DecidableEq, Repr

inductive Trigger
  | price (feedId : Hex) (op : Comparator) (value : Str)
  | time (notBefore : ℚ)
  deriving DecidableEq, Repr

/-- `/^0x[0-9a-fA-F]{42}$/`. -/
def isFeedId (s : Str) : Bool := isHexText Bytes.isHexDigit s && s.length == 44

/-- `/^\d+$/`. -/
def isDecimal (s : Str) : Bool := s ≠ [] && s.all Char.isDigit

def parseComparator : Option Json → Except Refusal Comparator
  | some (.str op) =>
    if op = "GTE".toList then .ok .gte
    else if op = "LTE".toList then .ok .lte
    else reject "trigger.op must be GTE or LTE".toList
  | _ => reject "trigger.op must be GTE or LTE".toList

def parsePrice (t : Json) : Except Refusal Trigger := do
  let feedId ← stringField isFeedId "trigger.feedId must be a 21-byte hex feed id"
    (fieldOf t "feedId")
  let op ← parseComparator (fieldOf t "op")
  let value ← stringField isDecimal "trigger.value must be a decimal string in the feed's units"
    (fieldOf t "value")
  return .price feedId op value

def parseTime (t : Json) : Except Refusal Trigger := do
  let notBefore ← numberField (fun q => 0 < q) "trigger.notBefore must be unix milliseconds"
    (fieldOf t "notBefore")
  return .time notBefore

/-- The answer to a trigger of another kind; `String` of an object can throw. -/
def unsupportedKind : Option Json → Except Refusal Trigger
  | none => reject "unsupported trigger kind: undefined".toList
  | some kind =>
    match kind.text with
    | .ok text => reject ("unsupported trigger kind: ".toList ++ text)
    | .error e => .error (.thrown e)

/-- An array is an object here, without a kind. -/
def parseTrigger : Option Json → Except Refusal Trigger
  | some (.arr _) => unsupportedKind none
  | some (.obj fields) =>
    let t := Json.obj fields
    match fieldOf t "kind" with
    | some (.str kind) =>
      if kind = "PRICE".toList then parsePrice t
      else if kind = "TIME".toList then parseTime t
      else unsupportedKind (some (.str kind))
    | kind => unsupportedKind kind
  | _ => reject "trigger must be an object".toList

/-- The largest time value a `Date` can hold, in milliseconds on either side of 1970. -/
def maxTimeValue : ℚ := 8640000000000000

/-- `describeTrigger` throws on a time that is no `Date`. -/
def describeTrigger : Trigger → Except JsError Unit
  | .price _ _ _ => .ok ()
  | .time notBefore =>
    if -maxTimeValue ≤ notBefore ∧ notBefore ≤ maxTimeValue then .ok ()
    else raise "Invalid time value".toList

/-! ## 4. ARM -/

/-- What an ARM message asks for. -/
structure ArmRequest where
  userOpData : Str
  commitment : Hex
  trigger : Trigger
  deadline : ℚ
  deriving DecidableEq, Repr

/-- A claimed commitment has to be the one computed, up to case. -/
def checkClaimed (commitment : Hex) : Option Json → Except Refusal Unit
  | some (.str claimed) =>
    if toLowerCase claimed = toLowerCase commitment then .ok ()
    else reject ("commitment mismatch: claimed ".toList ++ claimed ++
      ", keccak256(userOpData) is ".toList ++ commitment)
  | _ => .ok ()

/-- The part of `handleArm` before it reads the clock. -/
def parseArm (o : Options) (msg : Str) : Except Refusal ArmRequest := do
  let req ← decodeJson o.engine msg
  let userOpData ← stringField (fun s => isHexText Bytes.isHexDigit s && decide (4 ≤ s.length))
    "userOpData must be non-empty 0x hex" (fieldOf req "userOpData")
  let commitment ← (o.viem.keccak256 userOpData).mapError .thrown
  checkClaimed commitment (fieldOf req "commitment")
  let trigger ← parseTrigger (fieldOf req "trigger")
  let deadline ← numberField (fun _ => true) "deadline must be unix milliseconds"
    (fieldOf req "deadline")
  return { userOpData, commitment, trigger, deadline }

end OneSig.Latch
