/-
# `base/server.ts` and the registry of `base/types.ts`

The way of a request from its path to a handler and back.  `handleRequest` takes the path up to
the query, the method and the body; `readAction` parses the action and the `DataFixed` in its
message, with a check of its own for each field that has to be there; `lookupHandler` finds the
handler by op type and command, brought to a normal form; and `actionResult` makes the nine fields
of the answer.

Handlers are serialized, and nothing before the handler's turn reads the memory, so a request is a
function of the memory it finds when its turn comes.  That the server does serialize them is shown
with the model of its promise queue, in modules of their own.

An exception is an error of the function it is thrown in, and a promise that rejects is an error
here: what `handleRequest` throws is not caught by anybody.  Fields are read the way the source
reads them, without a schema: `v?.name` of anything, `??` for a field that is missing or `null`,
`!v` for one that is falsy, and a method call on a value that may have no such method.

`Payload.stringify` is the text of what a handler encodes, in the order of its fields, and
`textToHex` the `data` of the answer.  Error texts are kept as they are, with the context that the
server puts in front of them.  Of the console only what its line can throw is kept: the text of
the action's id.
-/
import OneSig.Latch.Handlers
import OneSig.Latch.InstructionSender

namespace OneSig.Latch

/-! ## 1. The registry -/

/-- `stringToBytes32Hex`, on the identifiers of the source. -/
def stringToBytes32Hex (s : String) : Hex := (Bytes32.ofText s).hex

def EMPTY_BYTES32 : Hex := stringToBytes32Hex ""

def OP_TYPE_LATCH : String := "LATCH"

/-- `OP_COMMAND_ARM` and the others. -/
def Command.name : Command → String
  | .arm => "ARM"
  | .status => "STATUS"
  | .cancel => "CANCEL"
  | .collect => "COLLECT"

/-- What `register` puts in the registry. -/
def handlers : List (Hex × Hex × Command) :=
  [.arm, .status, .cancel, .collect].map fun command =>
    (stringToBytes32Hex OP_TYPE_LATCH, stringToBytes32Hex command.name, command)

/-- Lowercase and 0x-prefix a hex identifier.  Nothing but a string has a `toLowerCase`. -/
def normalize (h : Json) : Except JsError Hex :=
  if h.truthy = false then .ok EMPTY_BYTES32
  else match h with
    | .str s =>
      let lower := toLowerCase s
      .ok (if hexPrefix.isPrefixOf lower = true then lower else hexPrefix ++ lower)
    | _ => raise "h.toLowerCase is not a function".toList

/-- The handler registered for a pair. -/
def registered (t c : Hex) : Option Command :=
  (handlers.find? fun entry => entry.1 = t ∧ entry.2.1 = c).map fun entry => entry.2.2

/-- Exact (opType, opCommand) match first, then the opCommand wildcard. -/
def lookupHandler (opType opCommand : Json) : Except JsError (Option Command) := do
  let t ← normalize opType
  let c ← normalize opCommand
  return (registered t c).or (registered t EMPTY_BYTES32)

/-! ## 2. Answers -/

def VERSION : String := "0.1.0"

/-- A field that is `undefined` is left out of the text. -/
structure ActionResult where
  id : Option Json
  submissionTag : Option Json
  status : Nat
  log : Str
  opType : Option Json
  opCommand : Option Json
  additionalResultStatus : Str
  version : Str
  data : Str

/-- The body of a response. -/
inductive Body
  | text (s : Str)
  | error (message : Str)
  | state (stateVersion : Hex) (report : Report)
  | result (r : ActionResult)

structure Answer where
  code : Nat
  body : Body

/-- A string that needs no escapes, as JSON. -/
def quoted (s : Str) : Str := "\"".toList ++ s ++ "\"".toList

/-- `JSON.stringify(payload)`. -/
def Payload.stringify (numbers : Numbers) : Payload → Str
  | .armed commitment alreadyArmed =>
    "\x7b\"armed\":true,\"commitment\":".toList ++ quoted commitment ++
      (if alreadyArmed then ",\"alreadyArmed\":true\x7d".toList else "\x7d".toList)
  | .unknown => "\x7b\"state\":\"unknown\"\x7d".toList
  | .status state armedAt deadline firedAt =>
    "\x7b\"state\":".toList ++ quoted state.text ++ ",\"armedAt\":".toList ++
      numbers.text armedAt ++ ",\"deadline\":".toList ++ numbers.text deadline ++
      (firedAt.elim [] fun t => ",\"firedAt\":".toList ++ numbers.text t) ++ "\x7d".toList
  | .cancelled commitment =>
    "\x7b\"cancelled\":true,\"commitment\":".toList ++ quoted commitment ++ "\x7d".toList
  | .released userOpData firedAt =>
    "\x7b\"userOpData\":".toList ++ quoted userOpData ++ ",\"firedAt\":".toList ++
      (firedAt.elim "null".toList fun t => numbers.text t) ++ "\x7d".toList

/-- The bytes of an ASCII text, in hex. -/
def textToHex (s : Str) : Hex := bytesToHex (s.map fun c => UInt8.ofNat c.toNat)

/-- `data ?? "0x"`. -/
def HandlerResult.data (numbers : Numbers) : HandlerResult → Str
  | .ok payload => textToHex (payload.stringify numbers)
  | .error _ => hexPrefix

def HandlerResult.status : HandlerResult → Nat
  | .ok _ => 1
  | .error _ => 0

/-- `err ? "error: " + err : "error: unknown"`, or `"ok"`. -/
def HandlerResult.log : HandlerResult → Str
  | .ok _ => "ok".toList
  | .error message => "error: ".toList ++ (if message = [] then "unknown".toList else message)

/-! ## 3. Reading an action -/

/-- `v ?? fallback`. -/
def nullish (v : Option Json) (fallback : Str) : Json :=
  match v with
  | none => .str fallback
  | some .null => .str fallback
  | some j => j

/-- `hexToBytes` of anything, with the text of what it throws. -/
def hexToBytesOf : Option Json → Except Str (List UInt8)
  | none => .ok []
  | some .null => .ok []
  | some (.str s) => (hexToBytes s).mapError fun e => "Error: ".toList ++ e.message
  | some _ => .error "TypeError: s.startsWith is not a function".toList

/-- `!v` is false. -/
def present (v : Option Json) : Bool := v.elim false Json.truthy

/-- `JSON.parse`, or the text of the error. -/
def parseJson (engine : Engine) (context : String) (text : Str) : Except Str Json :=
  match JsonText.parse engine.numbers text with
  | some j => .ok j
  | none => .error (context.toList ++ engine.syntaxError text)

/-- A field that has to be there. -/
def presentField (name : String) (message : String) (j : Json) : Except Str Json :=
  match fieldOf j name with
  | some v => if v.truthy = true then .ok v else .error message.toList
  | none => .error message.toList

/-- The `data` of an action and the `DataFixed` of its message, or the text of the 400.  A value
without fields has neither. -/
def readAction (engine : Engine) (body : Str) : Except Str (Json × Json) := do
  let action ← parseJson engine "invalid action JSON: " body
  let data ← presentField "data" "invalid action structure: missing data" action
  let msgBytes ← (hexToBytesOf (fieldOf data "message")).mapError
    ("invalid hex in message: ".toList ++ ·)
  let df ← parseJson engine "invalid DataFixed JSON in message: " (Utf8.decode msgBytes)
  let _ ← presentField "opType" "invalid DataFixed: missing opType" df
  return (data, df)

/-! ## 4. The server -/

/-- A handler is given what the message holds; every one begins with `decodeJson`. -/
def runHandler (o : Options) (command : Command) (msg : Json) (m : Memory) :
    Memory × Except JsError HandlerResult :=
  match msg with
  | .str s => handle o command s m
  | _ => (m, fail
      "decoding request: invalid hex: TypeError: s.startsWith is not a function".toList)

def actionResult (o : Options) (data df : Json) (result : HandlerResult) : ActionResult where
  id := fieldOf data "id"
  submissionTag := fieldOf data "submissionTag"
  status := result.status
  log := result.log
  opType := fieldOf df "opType"
  opCommand := fieldOf df "opCommand"
  additionalResultStatus := hexPrefix
  version := VERSION.toList
  data := result.data o.engine.numbers

/-- The line on the console prints the id. -/
def printId (data : Json) : Except JsError Str :=
  match fieldOf data "id" with
  | none => .ok "undefined".toList
  | some id => id.text

def processAction (o : Options) (body : Str) (m : Memory) : Memory × Except JsError Answer :=
  match readAction o.engine body with
  | .error message => (m, .ok ⟨400, .error message⟩)
  | .ok (data, df) =>
    match lookupHandler (nullish (fieldOf df "opType") []) (nullish (fieldOf df "opCommand") []) with
    | .error e => (m, .error e)
    | .ok none => (m, .ok ⟨501, .text "unsupported op type".toList⟩)
    | .ok (some command) =>
      let run := runHandler o command (nullish (fieldOf df "originalMessage") hexPrefix) m
      (run.1, do
        let result ← run.2
        let _ ← printId data
        return ⟨200, .result (actionResult o data df result)⟩)

def processState (m : Memory) : Memory × Except JsError Answer :=
  (m, .ok ⟨200, .state (stringToBytes32Hex VERSION) (reportState m)⟩)

/-- `path.split("?")[0]`. -/
def cleanPath (path : Str) : Str := path.takeWhile fun c => c ≠ '?'

def handleRequest (o : Options) (method path body : Str) (m : Memory) :
    Memory × Except JsError Answer :=
  if cleanPath path = "/action".toList then
    if method = "POST".toList then processAction o body m
    else (m, .ok ⟨405, .text "method not allowed".toList⟩)
  else if cleanPath path = "/state".toList then
    if method = "GET".toList then processState m
    else (m, .ok ⟨405, .text "method not allowed".toList⟩)
  else (m, .ok ⟨404, .text "not found".toList⟩)

end OneSig.Latch
