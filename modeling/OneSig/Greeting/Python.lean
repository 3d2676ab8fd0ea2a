/-
# The Python extension

`base` and `app`: the same greetings and farewells as the Go extension, served by
`ThreadingHTTPServer`, one thread for each request.  A handler runs under `self._lock` from its
first line to its last, whether or not it comes to the counters, so every handler is a list of
moves between an acquire and a release; `GET /state` takes the same lock.

Python has no static types, and the framework looks at what it has parsed as it goes: a member
that is missing raises `KeyError`, one of the wrong kind a `TypeError` or an `AttributeError`, and
only some of these are caught, at some places.  `Exception` keeps the classes that an `except` can
tell apart with their texts, `guarded` is such an `except`, and a request that ends with an
exception has that as its reply: the connection is closed without a response.

* `getItem` and `get` are `v[name]` and `v.get(name, default)` on any value.
* `hexToBytes` removes its two prefixes and calls `bytes.fromhex`, which skips white space and
  says in its error at which position it has stopped.
* `readAction`, `routed` and `respond` are `_process_action` cut at the registry: what is parsed
  before it, the lookup with its two loops, and what is made of the handler's result.

What the standard library and the ABI package do with arbitrary bytes is a parameter (`Library`):
parsing JSON, decoding the ABI, and how a value prints.  The last section is such a library for
the two fixtures.
-/
import OneSig.Greeting.Extension

namespace OneSig.Greeting.Python

open OneSig.Latch (Bytes32 bytesToHex)
open RwLock (Move Program)

/-! ## 1. Exceptions -/

/-- The exceptions that some `except` names, and the others. -/
inductive Exception
  | valueError (text : Str)
  | keyError (text : Str)
  | typeError (text : Str)
  | attributeError (text : Str)
  | other (text : Str)
  deriving DecidableEq

/-- `str(e)`. -/
def Exception.text : Exception → Str
  | valueError t => t
  | keyError t => t
  | typeError t => t
  | attributeError t => t
  | other t => t

/-- `except ValueError`, of which `JSONDecodeError` is one. -/
def Exception.isValueError : Exception → Bool
  | valueError _ => true
  | _ => false

/-- `except (KeyError, TypeError)`. -/
def Exception.isLookupError : Exception → Bool
  | keyError _ => true
  | typeError _ => true
  | _ => false

structure Library where
  /-- `json.loads` of bytes. -/
  loads : List UInt8 → Except Exception Json
  /-- `abi_decode(SAY_GOODBYE_TYPES, data)`, where every exception is caught: its text. -/
  abiDecode : List UInt8 → Except Str (Str × Str)
  /-- A value other than a string in an f-string. -/
  format : Json → Str
  /-- `repr` of a string. -/
  repr : Str → Str
  /-- The name of a type, in the text of an exception. -/
  typeName : Json → Str

/-! ## 2. Values -/

/-- `not v`. -/
def falsy : Json → Bool
  | .null => true
  | .bool b => !b
  | .num q _ => q = 0
  | .infinite _ => false
  | .str s => s = []
  | .arr items => items.isEmpty
  | .obj fields => fields.isEmpty

/-- `v or default`. -/
def orElse (v default : Json) : Json := if falsy v then default else v

/-- `v[key]`. -/
def getItem (py : Library) (v : Json) (key : String) : Except Exception Json :=
  match v with
  | .obj fields =>
    match fields.lookup key.toList with
    | some j => .ok j
    | none => .error (.keyError (py.repr key.toList))
  | _ => .error (.typeError (py.typeName v))

/-- `v.get(key, default)`. -/
def get (py : Library) (v : Json) (key : String) (default : Json) : Except Exception Json :=
  match v with
  | .obj fields => .ok ((fields.lookup key.toList).getD default)
  | _ => .error (.attributeError (py.typeName v))

/-! ## 3. `encoding.py` -/

/-- What `bytes.fromhex` skips between two bytes. -/
def isSpace (c : Char) : Bool := c = ' ' || (0x09 ≤ c.toNat && c.toNat ≤ 0x0D)

/-- The bytes of a text from a position on, or the position where a digit should have been; a text
that ends after the first digit of a pair lacks one there. -/
def hexPairs (position : Nat) : Str → Except Nat (List UInt8)
  | [] => .ok []
  | c :: rest =>
    if isSpace c then hexPairs (position + 1) rest
    else match rest with
      | [] => .error (if (Bytes.hexVal c).isSome then position + 1 else position)
      | d :: rest' =>
        match Bytes.hexVal c, Bytes.hexVal d with
        | some a, some b => (hexPairs (position + 2) rest').map (UInt8.ofNat (16 * a + b) :: ·)
        | some _, none => .error (position + 1)
        | none, _ => .error position

/-- `bytes.fromhex`, with the position that its error names.  A character beyond ASCII is looked for
first. -/
def fromhex (s : Str) : Except Nat (List UInt8) :=
  match s.findIdx? fun c => decide (0x7F < c.toNat) with
  | some position => .error position
  | none => hexPairs 0 s

/-- `s.removeprefix(…)`. -/
def removePrefix (start : Str) (s : Str) : Str := if start.isPrefixOf s then s.drop start.length else s

/-- `hex_to_bytes`. -/
def hexToBytes (py : Library) (h : Json) : Except Exception (List UInt8) :=
  match h with
  | .null => .ok []
  | .str s =>
    match fromhex (removePrefix ['0', 'X'] (removePrefix ['0', 'x'] s)) with
    | .ok bs => .ok bs
    | .error position => .error (.valueError
        ("non-hexadecimal number found in fromhex() arg at position ".toList ++ intText position))
  | _ => .error (.attributeError (py.typeName h))

/-- `bytes32_hex_to_string`, which is only logged: whether it raises. -/
def bytes32HexToString (py : Library) (h : Json) : Except Exception Unit :=
  match hexToBytes py h with
  | .ok _ => .ok ()
  | .error e => if e.isValueError then .ok () else .error e

/-- `string_to_bytes32_hex`, on the identifiers of the source. -/
def stringToBytes32Hex (s : String) : Hex := (Bytes32.ofText s).hex

/-! ## 4. `types.py` -/

def EMPTY_BYTES32 : Hex := stringToBytes32Hex ""

/-- What is used of an action. -/
structure ActionData where
  id : Json
  submissionTag : Json
  message : Json

def parseAction (py : Library) (raw : Json) : Except Exception ActionData := do
  let data ← getItem py raw "data"
  let id ← getItem py data "id"
  let submissionTag ← get py data "submissionTag" (.str [])
  let message ← getItem py data "message"
  return ⟨id, submissionTag, message⟩

structure DataFixed where
  opType : Json
  opCommand : Json
  originalMessage : Json

/-- The first field it asks for is `instructionId`, which is not used later. -/
def parseDataFixed (py : Library) (raw : Json) : Except Exception DataFixed := do
  let _ ← get py raw "instructionId" (.str [])
  let opType ← getItem py raw "opType"
  let opCommand ← get py raw "opCommand" (.str [])
  let originalMessage ← get py raw "originalMessage" .null
  return ⟨opType, opCommand, orElse originalMessage (.str hexPrefix)⟩

/-- `_normalize`. -/
def normalize (py : Library) (h : Json) : Except Exception Str :=
  if falsy h then .ok EMPTY_BYTES32
  else match h with
    | .str s =>
      let lower := toLowerCase s
      .ok (if hexPrefix.isPrefixOf lower then lower else hexPrefix ++ lower)
    | _ => .error (.attributeError (py.typeName h))

/-- What a handler returns: data, status and error. -/
structure Handled where
  data : Option Str
  status : Int
  err : Option Str

structure Framework (H : Type) where
  handlers : List (Hex × Hex × H)

/-- One of the two loops of `lookup`. -/
def Framework.search {H : Type} (f : Framework H) (opType opCommand : Str) : Option H :=
  (f.handlers.find? fun entry => entry.1 = opType ∧ entry.2.1 = opCommand).map fun entry => entry.2.2

def Framework.lookup {H : Type} (py : Library) (f : Framework H) (opType opCommand : Json) :
    Except Exception (Option H) := do
  let t ← normalize py opType
  let c ← normalize py opCommand
  return (f.search t c).or (f.search t EMPTY_BYTES32)

structure ActionResult where
  id : Json
  submissionTag : Json
  status : Int
  log : Str
  opType : Json
  opCommand : Json
  additionalResultStatus : Str := hexPrefix
  version : Str
  data : Str

/-! ## 5. `handlers.py` -/

/-- The variables of a request. -/
structure Locals where
  read : Int := 0
  number : Int := 0
  snapshot : State := {}

/-- `with self._lock`. -/
def locked {ρ : Type} (body : List (Move State Locals)) (reply : Locals → ρ) :
    Program State Locals ρ where
  mode := .write
  start := {}
  body := body
  reply := reply
  outside := by simp
  readOnly := by simp

abbrev Handler := Json → Except Exception (Program State Locals Handled)

/-- `return None, 0, text`. -/
def failed (text : Str) : Program State Locals Handled := locked [] fun _ => ⟨none, 0, some text⟩

/-- `sorted(unknown)[0]`. -/
def first : List Str → Str
  | [] => []
  | [s] => s
  | s :: rest => if s < first rest then s else first rest

/-- `f"{v}"`. -/
def formatted (py : Library) : Json → Str
  | .str s => s
  | j => py.format j

/-- The last value of `_greeting_count` is read again for the response. -/
def greetMoves (greeting : Str) : List (Move State Locals) :=
  [fun s l => (s, { l with read := s.greetingCount }),
    fun s l => ({ s with greetingCount := l.read + 1 }, l),
    fun s l => ({ s with lastGreeting := greeting }, l),
    fun s l => (s, { l with number := s.greetingCount })]

def farewellMoves (farewell : Str) : List (Move State Locals) :=
  [fun s l => (s, { l with read := s.farewellCount }),
    fun s l => ({ s with farewellCount := l.read + 1 }, l),
    fun s l => ({ s with lastFarewell := farewell }, l),
    fun s l => (s, { l with number := s.farewellCount })]

def stateMoves : List (Move State Locals) :=
  [fun s l => (s, { l with snapshot := { l.snapshot with greetingCount := s.greetingCount } }),
    fun s l => (s, { l with snapshot := { l.snapshot with lastGreeting := s.lastGreeting } }),
    fun s l => (s, { l with snapshot := { l.snapshot with farewellCount := s.farewellCount } }),
    fun s l => (s, { l with snapshot := { l.snapshot with lastFarewell := s.lastFarewell } })]

/-- The bytes of a text that `json.dumps` writes, in hex. -/
def dumped (text : Str) : Str := bytesToHex (Utf8.encode text)

/-- The name of a `SAY_HELLO` request, or the text of the error. -/
def readName (py : Library) (req : Json) : Except Str Json :=
  match req with
  | .obj fields =>
    let unknown := (fields.map Prod.fst).filter (· ≠ "name".toList)
    if unknown ≠ [] then
      .error ("decoding request: unknown field ".toList ++ py.repr (first unknown))
    else
      let name := (fields.lookup "name".toList).getD (.str [])
      if falsy name then .error "name must not be empty".toList else .ok name
  | _ => .error "decoding request: expected a JSON object".toList

/-- GREETING/SAY_HELLO. -/
def handleSayHello (py : Library) : Handler := fun msg =>
  match hexToBytes py msg with
  | .error e =>
    if e.isValueError then .ok (failed ("decoding request: invalid hex: ".toList ++ e.text))
    else .error e
  | .ok raw =>
    match py.loads raw with
    | .error e =>
      if e.isValueError then .ok (failed ("decoding request: ".toList ++ e.text)) else .error e
    | .ok req =>
      match readName py req with
      | .error text => .ok (failed text)
      | .ok name =>
        let greeting := greetingOf (formatted py name)
        .ok (locked (greetMoves greeting) fun l =>
          ⟨some (dumped (sayHelloResponse escaped greeting l.number)), 1, none⟩)

/-- GREETING/SAY_GOODBYE. -/
def handleSayGoodbye (py : Library) : Handler := fun msg =>
  match hexToBytes py msg with
  | .error e =>
    if e.isValueError then .ok (failed ("decoding request: invalid hex: ".toList ++ e.text))
    else .error e
  | .ok raw =>
    match py.abiDecode raw with
    | .error text => .ok (failed ("decoding request: ABI decode failed: ".toList ++ text))
    | .ok (name, reason) =>
      if name = [] then .ok (failed "name must not be empty".toList)
      else
        let farewell := farewellOf name reason
        .ok (locked (farewellMoves farewell) fun l =>
          ⟨some (dumped (sayGoodbyeResponse escaped farewell l.number)), 1, none⟩)

/-- What `register` puts in the registry. -/
def framework (py : Library) : Framework Handler :=
  ⟨[(stringToBytes32Hex OPTypeGreeting, stringToBytes32Hex OPCommandSayHello, handleSayHello py),
    (stringToBytes32Hex OPTypeGreeting, stringToBytes32Hex OPCommandSayGoodbye,
      handleSayGoodbye py)]⟩

/-! ## 6. `server.py` -/

/-- What is sent. -/
inductive Payload
  | text (t : Str)
  | error (message : Str)
  | result (r : ActionResult)
  | state (stateVersion : Str) (state : State)

structure Answer where
  code : Nat
  payload : Payload

/-- Why a request goes no further: it is answered, or an exception is not caught. -/
inductive Stop
  | answer (a : Answer)
  | raised (e : Exception)

/-- `except … as e: return 400, {"error": …}`. -/
def guarded {α : Type} (caught : Exception → Bool) (context : String) :
    Except Exception α → Except Stop α
  | .ok a => .ok a
  | .error e =>
    if caught e then .error (.answer ⟨400, .error (context.toList ++ e.text)⟩)
    else .error (.raised e)

/-- `_process_action` up to the registry. -/
def readAction (py : Library) (body : List UInt8) : Except Stop (ActionData × DataFixed) := do
  let raw ← guarded Exception.isValueError "invalid action JSON: " (py.loads body)
  let action ← guarded Exception.isLookupError "invalid action structure: " (parseAction py raw)
  let msgBytes ← guarded Exception.isValueError "invalid hex in message: "
    (hexToBytes py action.message)
  let df ← guarded (fun e => e.isValueError || e.isLookupError)
    "invalid DataFixed JSON in message: " (py.loads msgBytes >>= parseDataFixed py)
  return (action, df)

/-- What the handler of a message does, which begins under the lock. -/
def routed (py : Library) (df : DataFixed) : Except Stop (Program State Locals Handled) :=
  match (framework py).lookup py df.opType df.opCommand with
  | .error e => .error (.raised e)
  | .ok none => .error (.answer ⟨501, .text "unsupported op type".toList⟩)
  | .ok (some handler) =>
    match handler df.originalMessage with
    | .error e => .error (.raised e)
    | .ok run => .ok run

/-- `v or default` of an optional text. -/
def textOr (v : Option Str) (default : Str) : Str :=
  match v with
  | some t => if t = [] then default else t
  | none => default

def actionResult (action : ActionData) (df : DataFixed) (handled : Handled) : ActionResult where
  id := action.id
  submissionTag := action.submissionTag
  opType := df.opType
  opCommand := df.opCommand
  version := Version.toList
  status := handled.status
  data := textOr handled.data hexPrefix
  log :=
    if handled.status = 0 then "error: ".toList ++ textOr handled.err "unknown".toList
    else if handled.status = 1 then "ok".toList
    else "pending".toList

/-- What a request that is stopped ends with. -/
def Stop.reply : Stop → Except Exception Answer
  | answer a => .ok a
  | raised e => .error e

/-- The result, and what is logged of it. -/
def respond (py : Library) (action : ActionData) (df : DataFixed) (handled : Handled) :
    Except Exception Answer := do
  bytes32HexToString py df.opType
  bytes32HexToString py df.opCommand
  return ⟨200, .result (actionResult action df handled)⟩

/-- `_process_action`: what it returns, or the exception it ends with. -/
def processAction (py : Library) (body : List UInt8) :
    Program State Locals (Except Exception Answer) :=
  match readAction py body with
  | .error stop => .pure {} stop.reply
  | .ok (action, df) =>
    match routed py df with
    | .error stop => .pure {} stop.reply
    | .ok run => run.map (respond py action df)

/-- `_process_state`. -/
def processState : Program State Locals (Except Exception Answer) :=
  locked stateMoves fun l => .ok ⟨200, .state (stringToBytes32Hex Version) l.snapshot⟩

/-- `path.split("?", 1)[0]`. -/
def cleanPath (path : Str) : Str := path.takeWhile fun c => c ≠ '?'

def handleRequest (py : Library) (method path : Str) (body : List UInt8) :
    Program State Locals (Except Exception Answer) :=
  if cleanPath path = "/action".toList then
    if method = "POST".toList then processAction py body
    else .pure {} (.ok ⟨405, .text "method not allowed".toList⟩)
  else if cleanPath path = "/state".toList then
    if method = "GET".toList then processState
    else .pure {} (.ok ⟨405, .text "method not allowed".toList⟩)
  else .pure {} (.ok ⟨404, .text "not found".toList⟩)

def program (py : Library) : Request → Program State Locals (Except Exception Answer)
  | .action body => handleRequest py "POST".toList "/action".toList body
  | .state => handleRequest py "GET".toList "/state".toList []

end OneSig.Greeting.Python

namespace OneSig.Greeting.Fixture

open OneSig.Latch (Bytes32 bytesToHex)

/-! ## 7. The fixtures, as Python reads them -/

def actionJson (message : List UInt8) : Json :=
  Json.obj [("data".toList, Json.obj [("id".toList, .str ACTION_ID.hex),
    ("type".toList, .str "instruction".toList), ("submissionTag".toList, .str "submit".toList),
    ("message".toList, .str (bytesToHex message))])]

def dataFixedJson (opType opCommand : String) (original : List UInt8) : Json :=
  Json.obj [("instructionId".toList, .str ACTION_ID.hex), ("teeId".toList, .str TEE_ID),
    ("opType".toList, .str (Bytes32.ofText opType).hex),
    ("opCommand".toList, .str (Bytes32.ofText opCommand).hex),
    ("originalMessage".toList, .str (bytesToHex original))]

/-- What the decoders make of the two, up to the fields that nothing asks for. -/
def python : Python.Library where
  loads bytes :=
    if bytes = sayHello then .ok (actionJson hello)
    else if bytes = sayGoodbye then .ok (actionJson farewell)
    else if bytes = hello then
      .ok (dataFixedJson OPTypeGreeting OPCommandSayHello (name "World"))
    else if bytes = farewell then
      .ok (dataFixedJson OPTypeGreeting OPCommandSayGoodbye (goodbye "World" "done"))
    else if bytes = name "World" then
      .ok (Json.obj [("name".toList, .str "World".toList)])
    else .error (.valueError "Expecting value: line 1 column 1 (char 0)".toList)
  abiDecode bytes :=
    if bytes = goodbye "World" "done" then .ok ("World".toList, "done".toList)
    else .error "InsufficientDataBytes".toList
  format _ := "?".toList
  repr s := '\'' :: (s ++ ['\''])
  typeName _ := "object".toList

end OneSig.Greeting.Fixture
