/-
# The Go extension

`internal/extension`: greetings and farewells, counted.  `net/http` serves every request in a
goroutine of its own, so what a request does to the fields of `Extension` is a list of moves under
`e.mu` and not one step: `e.greetingCount++` reads the field and then writes it, the response
reads it again, and the four fields of the state are read one after the other.  `program` gives
the moves of a request and its reply, and `RwLock` lets the moves of different requests alternate.

A request that fails before it takes the mutex has no moves.  `actionHandler`, `processAction`,
`processGreeting` and the two handlers are the functions of the source, with their error texts and
status codes; `buildResult` is what all of them reply with.  Counters are `int`, which has 64 bits
and wraps (`int`).

The types of an action are those of tee-node, and so is what reads them: `Library` has the
decoders and `ToHash`, which can return anything.  The texts of an action that has been decoded
are kept as they are, and `ActionResult` stands for its JSON.  Which path is which handler's is
left to `net/http`, and so is what happens to a client that goes away: the model answers every
request.

The last section has two of the fixtures that the conformance tests send to every extension,
`01-say-hello-success` and `05-say-goodbye-success`, byte for byte, decoders for them, and a
schedule in which both commands are sent while the state is being read.
-/
import OneSig.Lib.RwLock
import OneSig.Latch.InstructionSender
import OneSig.Greeting.Data

namespace OneSig.Greeting

open OneSig.Latch (Bytes32 bytesToHex)
open RwLock (Move Program)

/-! ## 1. Values -/

/-- The fields of `Extension` behind its mutex, which are those of `State`. -/
structure State where
  greetingCount : Int := 0
  lastGreeting : Str := []
  farewellCount : Int := 0
  lastFarewell : Str := []
  deriving DecidableEq, Repr

def Version : String := "0.1.0"

def OPTypeGreeting : String := "GREETING"

def OPCommandSayHello : String := "SAY_HELLO"

def OPCommandSayGoodbye : String := "SAY_GOODBYE"

namespace Go

/-- An `int` has 64 bits. -/
def int (n : Int) : Int := n.bmod (2 ^ 64)

structure Action where
  id : Bytes32
  submissionTag : Str
  message : List UInt8

structure DataFixed where
  opType : Bytes32
  opCommand : Bytes32
  originalMessage : List UInt8

structure ActionResult where
  id : Bytes32
  submissionTag : Str
  status : Nat
  log : Str
  opType : Bytes32
  opCommand : Bytes32
  additionalResultStatus : List UInt8 := []
  version : Str
  data : List UInt8
  deriving DecidableEq

/-- What the extension is linked with.  An error is its text. -/
structure Library where
  /-- `json.NewDecoder(r.Body).Decode(&action)`. -/
  decodeAction : List UInt8 → Except Str Action
  /-- `processorutils.Parse[instruction.DataFixed]`. -/
  parseDataFixed : List UInt8 → Except Str DataFixed
  /-- A `SayHelloRequest`, with `DisallowUnknownFields`: its name. -/
  decodeSayHello : List UInt8 → Except Str Str
  /-- `structs.DecodeTo` of a `SayGoodbyeRequest`: its name and reason. -/
  decodeSayGoodbye : List UInt8 → Except Str (Str × Str)
  /-- `teeutils.ToHash`. -/
  toHash : String → Bytes32

/-- The body of a response. -/
inductive Body
  | text (t : Str)
  | result (ar : ActionResult)
  | state (stateVersion : Bytes32) (state : State)

structure Answer where
  code : Nat
  body : Body

/-- The variables of a request. -/
structure Locals where
  /-- The counter as it was read, to be written one higher. -/
  read : Int := 0
  number : Int := 0
  snapshot : State := {}

/-! ## 2. Results -/

/-- `fmt.Sprintf("error: %v", err)` and the others. -/
def logOf (status : Nat) (err : Str) : Str :=
  match status with
  | 0 => "error: ".toList ++ err
  | 1 => "ok".toList
  | _ => "pending".toList

def buildResult (a : Action) (df : DataFixed) (data : List UInt8) (status : Nat) (err : Str) :
    ActionResult where
  id := a.id
  submissionTag := a.submissionTag
  version := Version.toList
  opType := df.opType
  opCommand := df.opCommand
  data := data
  status := status
  log := logOf status err

/-! ## 3. Under the mutex

`e.greetingCount++` reads and writes. -/

def greetMoves (greeting : Str) : List (Move State Locals) :=
  [fun s l => (s, { l with read := s.greetingCount }),
    fun s l => ({ s with greetingCount := int (l.read + 1) }, l),
    fun s l => (s, { l with number := s.greetingCount }),
    fun s l => ({ s with lastGreeting := greeting }, l)]

def farewellMoves (farewell : Str) : List (Move State Locals) :=
  [fun s l => (s, { l with read := s.farewellCount }),
    fun s l => ({ s with farewellCount := int (l.read + 1) }, l),
    fun s l => (s, { l with number := s.farewellCount }),
    fun s l => ({ s with lastFarewell := farewell }, l)]

/-- The fields of the response are read one after the other. -/
def stateMoves : List (Move State Locals) :=
  [fun s l => (s, { l with snapshot := { l.snapshot with greetingCount := s.greetingCount } }),
    fun s l => (s, { l with snapshot := { l.snapshot with lastGreeting := s.lastGreeting } }),
    fun s l => (s, { l with snapshot := { l.snapshot with farewellCount := s.farewellCount } }),
    fun s l => (s, { l with snapshot := { l.snapshot with lastFarewell := s.lastFarewell } })]

/-- Between `e.mu.Lock()` and `e.mu.Unlock()`. -/
def locked {ρ : Type} (body : List (Move State Locals)) (reply : Locals → ρ) :
    Program State Locals ρ where
  mode := .write
  start := {}
  body := body
  reply := reply
  outside := by simp
  readOnly := by simp

/-! ## 4. Handlers -/

def processSayHello (go : Library) (action : Action) (df : DataFixed) :
    Program State Locals ActionResult :=
  match go.decodeSayHello df.originalMessage with
  | .error err => .pure {} (buildResult action df [] 0 ("decoding request: ".toList ++ err))
  | .ok name =>
    if name = [] then .pure {} (buildResult action df [] 0 "name must not be empty".toList)
    else locked (greetMoves (greetingOf name)) fun l =>
      buildResult action df (Utf8.encode (sayHelloResponse escaped (greetingOf name) l.number)) 1 []

def processSayGoodbye (go : Library) (action : Action) (df : DataFixed) :
    Program State Locals ActionResult :=
  match go.decodeSayGoodbye df.originalMessage with
  | .error err => .pure {} (buildResult action df [] 0 ("decoding request: ".toList ++ err))
  | .ok (name, reason) =>
    if name = [] then .pure {} (buildResult action df [] 0 "name must not be empty".toList)
    else locked (farewellMoves (farewellOf name reason)) fun l =>
      buildResult action df
        (Utf8.encode (sayGoodbyeResponse escaped (farewellOf name reason) l.number)) 1 []

/-- `hash.Hex()` and the name it is of. -/
def named (go : Library) (name : String) : Str :=
  (go.toHash name).hex ++ " (".toList ++ name.toList ++ ")".toList

/-- Routes GREETING instructions by OPCommand. -/
def processGreeting (go : Library) (action : Action) (df : DataFixed) :
    Program State Locals Answer :=
  if df.opCommand = go.toHash OPCommandSayHello then
    (processSayHello go action df).map fun ar => ⟨200, .result ar⟩
  else if df.opCommand = go.toHash OPCommandSayGoodbye then
    (processSayGoodbye go action df).map fun ar => ⟨200, .result ar⟩
  else .pure {} ⟨501, .text ("unsupported op command: received ".toList ++ df.opCommand.hex ++
    ", expected one of [".toList ++ named go OPCommandSayHello ++ ", ".toList ++
    named go OPCommandSayGoodbye ++ "]".toList)⟩

def processAction (go : Library) (action : Action) : Program State Locals Answer :=
  match go.parseDataFixed action.message with
  | .error err => .pure {} ⟨400, .text ("decoding fixed data: ".toList ++ err)⟩
  | .ok dataFixed =>
    if dataFixed.opType = go.toHash OPTypeGreeting then processGreeting go action dataFixed
    else .pure {} ⟨501, .text ("unsupported op type: received ".toList ++ dataFixed.opType.hex ++
      ", expected ".toList ++ named go OPTypeGreeting)⟩

def actionHandler (go : Library) (body : List UInt8) : Program State Locals Answer :=
  match go.decodeAction body with
  | .error err => .pure {} ⟨400, .text ("decoding action: ".toList ++ err ++ "\n".toList)⟩
  | .ok action => processAction go action

/-- Between `e.mu.RLock()` and `e.mu.RUnlock()`. -/
def stateHandler (go : Library) : Program State Locals Answer where
  mode := .read
  start := {}
  body := stateMoves
  reply l := ⟨200, .state (go.toHash Version) l.snapshot⟩
  outside := by simp
  readOnly := by simp [stateMoves]

end Go

/-- `POST /action` with a body, and `GET /state`. -/
inductive Request
  | action (body : List UInt8)
  | state

/-- What `New` puts behind the two routes. -/
def Go.program (go : Go.Library) : Request → Program State Go.Locals Go.Answer
  | .action body => Go.actionHandler go body
  | .state => Go.stateHandler go

/-! ## 5. A fixture

The requests of `01-say-hello-success` and `05-say-goodbye-success`, which the conformance tests
send to every extension, and the decoders at these. -/

namespace Fixture

def ACTION_ID : Bytes32 := ⟨List.replicate 32 0x11, List.length_replicate⟩

def TEE_ID : Str := "0x".toList ++ List.replicate 40 '2'

/-- A member of an object that `json.dumps` writes. -/
def field (name : String) (value : Str) : Str :=
  '"' :: (name.toList ++ "\": ".toList ++ value)

def quoted (s : Str) : Str := '"' :: (s ++ ['"'])

/-- `json.dumps` of an object. -/
def object (fields : List Str) : Str :=
  '\x7b' :: (List.intercalate ", ".toList fields ++ ['\x7d'])

/-- `data_fixed`, as it is sent. -/
def dataFixed (opType opCommand : String) (original : List UInt8) : List UInt8 :=
  Utf8.encode (object [field "instructionId" (quoted ACTION_ID.hex),
    field "teeId" (quoted TEE_ID), field "timestamp" "1700000000".toList,
    field "rewardEpochId" "42".toList, field "opType" (quoted (Bytes32.ofText opType).hex),
    field "opCommand" (quoted (Bytes32.ofText opCommand).hex), field "cosigners" "[]".toList,
    field "cosignersThreshold" "0".toList,
    field "originalMessage" (quoted (bytesToHex original)),
    field "additionalFixedMessage" (quoted "0x".toList)])

/-- The body of `POST /action` with a message, in the shape that tee-node sends. -/
def action (message : List UInt8) : List UInt8 :=
  Utf8.encode (object [
    field "data" (object [field "id" (quoted ACTION_ID.hex),
      field "type" (quoted "instruction".toList), field "submissionTag" (quoted "submit".toList),
      field "message" (quoted (bytesToHex message))]),
    field "additionalVariableMessages" "[]".toList, field "timestamps" "[]".toList,
    field "additionalActionData" (quoted "0x".toList), field "signatures" "[]".toList])

/-- `json_msg` of a name. -/
def name (s : String) : List UInt8 :=
  Utf8.encode ("\x7b\"name\":\"".toList ++ s.toList ++ "\"\x7d".toList)

/-- A word of 32 bytes that holds a small number. -/
def word (n : UInt8) : List UInt8 := List.replicate 31 0 ++ [n]

/-- The text of a string of the ABI, padded to a word. -/
def tail (s : String) : List UInt8 :=
  word (UInt8.ofNat (Utf8.encode s.toList).length) ++ (Bytes32.ofText s).bytes

/-- `goodbye` of `gen_fixtures.py`, of a name and a reason of less than a word each. -/
def goodbye (name reason : String) : List UInt8 :=
  word 0x20 ++ word 0x40 ++ word 0x80 ++ tail name ++ tail reason

def hello : List UInt8 := dataFixed OPTypeGreeting OPCommandSayHello (name "World")

def farewell : List UInt8 := dataFixed OPTypeGreeting OPCommandSayGoodbye (goodbye "World" "done")

/-- `01-say-hello-success`. -/
def sayHello : List UInt8 := action hello

/-- `05-say-goodbye-success`. -/
def sayGoodbye : List UInt8 := action farewell

/-- What the decoders make of the two. -/
def library : Go.Library where
  decodeAction body :=
    if body = sayHello then .ok ⟨ACTION_ID, "submit".toList, hello⟩
    else if body = sayGoodbye then .ok ⟨ACTION_ID, "submit".toList, farewell⟩
    else .error "EOF".toList
  parseDataFixed message :=
    if message = hello then
      .ok ⟨Bytes32.ofText OPTypeGreeting, Bytes32.ofText OPCommandSayHello, name "World"⟩
    else if message = farewell then
      .ok ⟨Bytes32.ofText OPTypeGreeting, Bytes32.ofText OPCommandSayGoodbye,
        goodbye "World" "done"⟩
    else .error "EOF".toList
  decodeSayHello message := if message = name "World" then .ok "World".toList else .error "EOF".toList
  decodeSayGoodbye message :=
    if message = goodbye "World" "done" then .ok ("World".toList, "done".toList)
    else .error "abi: cannot unmarshal".toList
  toHash := Bytes32.ofText

/-- A greeting and a farewell at the same time, the state asked for while the first is at work, and
another greeting when the first has been answered. -/
def schedule : List (RwLock.Event Request) :=
  [.call (.action sayHello), .call .state, .call (.action sayGoodbye), .enter 0, .go 0, .enter 2,
    .go 0, .go 0, .go 0, .go 0, .enter 1, .go 1, .go 0, .call (.action sayHello), .go 1, .go 1,
    .go 1, .go 1, .go 1, .enter 2, .go 2, .go 2, .go 2, .go 2, .go 2, .enter 3, .go 2, .go 3,
    .go 3, .go 3, .go 3, .go 3, .go 3]

/-- The `data` of a call that has been answered with a result. -/
def data (c : RwLock.Call Request State Go.Locals Go.Answer) : Option (List UInt8) :=
  match c.phase with
  | .replied ⟨_, .result ar⟩ _ => some ar.data
  | _ => none

/-- The `data` that the calls of the schedule are answered with. -/
def responses : List (Option (List UInt8)) :=
  ["\x7b\"greeting\":\"Hello, World! Welcome to Flare Confidential Compute.\",\"greetingNumber\":1\x7d",
    "", "\x7b\"farewell\":\"Goodbye, World! Reason: done\",\"farewellNumber\":1\x7d",
    "\x7b\"greeting\":\"Hello, World! Welcome to Flare Confidential Compute.\",\"greetingNumber\":2\x7d"].map
    fun text => if text = "" then none else some (Utf8.encode text.toList)

end Fixture

end OneSig.Greeting
