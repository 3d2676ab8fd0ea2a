/-
# `latch.ts`: the client in the same process

The executor drives the extension's own server without a network.  `#action` puts the hexadecimal
of the payload's JSON into a `DataFixed`, the hexadecimal of its JSON into an action, and the JSON
of that into the body of a POST; the server takes the three apart again, finds the handler by its
identifiers, and its `data` comes back as the hexadecimal of JSON once more.  Three encodings on
the way in, one on the way back, and a registry in between.

`action_direct` says that all of it together is a direct call of the handler, for every payload
that JSON can carry and every command: the handler is given the hexadecimal of the payload's JSON,
which decodes to the payload, and the reply of the client says what it returned.  So what is
proved of the handlers holds of what the executor does with them.

* The way in: `readAction_body` says that the server finds the `DataFixed` of the client in its
  request, and `lookupHandler_command` that its identifiers lead to the handler.  Both rest on
  `JSON.parse` undoing `JSON.stringify`, and on the hexadecimal text being plain.
* The way back: `action_reply` says that the server's answer, through the client, is the handler's
  result: the status, the message, and the payload as a value.  A handler that throws makes the
  promise of the client reject.

The number of a request is part of its id, and a date part of its message; neither reaches the
handler.  The engine's number conversions are lawful, and the memory is readable, which it is
along every run.
-/
import OneSig.Latch.HttpContract
import OneSig.Latch.Replies

namespace OneSig.Latch

open Async JsonText

variable {o : Options} {num : Numbers}

/-! ## 1. `#action` -/

structure LatchReply where
  status : Nat
  ok : Bool
  log : Str
  payload : Json

/-- The number of a request in hex, padded to 64 digits. -/
def instructionId (seq : Nat) : Hex := hexPrefix ++ (Nat.toDigits 16 seq).leftpad 64 '0'

/-- The hex of a value's JSON. -/
def jsonHex (j : Json) : Hex := bytesToHex (Utf8.encode (stringify j))

def dataFixed (num : Numbers) (id : Hex) (timestamp : ℚ) (command : Command) (original : Hex) : Json :=
  .obj [
    ("instructionId".toList, .str id),
    ("teeId".toList, .str (hexPrefix ++ (List.replicate 20 "22".toList).flatten)),
    ("timestamp".toList, numberValue num timestamp),
    ("rewardEpochId".toList, numberValue num 0),
    ("opType".toList, .str (stringToBytes32Hex OP_TYPE_LATCH)),
    ("opCommand".toList, .str (stringToBytes32Hex command.name)),
    ("cosigners".toList, .arr []),
    ("cosignersThreshold".toList, numberValue num 0),
    ("originalMessage".toList, .str original),
    ("additionalFixedMessage".toList, .str hexPrefix)]

/-- The `data` of an action. -/
def actionData (id message : Hex) : Json :=
  .obj [
    ("id".toList, .str id),
    ("type".toList, .str "instruction".toList),
    ("submissionTag".toList, .str "submit".toList),
    ("message".toList, .str message)]

def actionEnvelope (id message : Hex) : Json :=
  .obj [
    ("data".toList, actionData id message),
    ("additionalVariableMessages".toList, .arr []),
    ("timestamps".toList, .arr []),
    ("additionalActionData".toList, .str hexPrefix),
    ("signatures".toList, .arr [])]

/-- The payload of a reply, from its `data`: what is no JSON is kept as it is. -/
def payloadOf (engine : Engine) (dataHex : Str) : Json :=
  if dataHex = hexPrefix then .null
  else match JsonText.parse engine.numbers (Utf8.decode (Bytes.hexDecodePrefix (dataHex.drop 2))) with
    | some j => j
    | none => .str dataHex

/-- What `#action` makes of an answer.  Only a result has `status`, `log` and `data`. -/
def LatchReply.ofAnswer (engine : Engine) (a : Answer) : LatchReply :=
  match a.body with
  | .text s => ⟨a.code, false, s, .null⟩
  | .error _ => ⟨a.code, false, [], .null⟩
  | .state _ _ => ⟨a.code, false, [], .null⟩
  | .result r => ⟨a.code, r.status = 1, r.log, payloadOf engine r.data⟩

/-- The client, as the number of its last request. -/
structure Client where
  seq : Nat

/-- The body of the next request, at `date`. -/
def Client.body (num : Numbers) (client : Client) (date : ℚ) (command : Command) (payload : Json) :
    Str :=
  let id := instructionId (client.seq + 1)
  stringify (actionEnvelope id
    (jsonHex (dataFixed num id (date / 1000).floor command (jsonHex payload))))

def Client.action (o : Options) (client : Client) (date : ℚ) (command : Command) (payload : Json)
    (m : Memory) : Client × Memory × Except JsError LatchReply :=
  let answer := handleRequest o "POST".toList "/action".toList
    (client.body o.engine.numbers date command payload) m
  (⟨client.seq + 1⟩, answer.1, answer.2.map (LatchReply.ofAnswer o.engine))

/-- `arm`, and the three that name a commitment. -/
def Client.arm (o : Options) (client : Client) (date : ℚ) (payload : Json) (m : Memory) :
    Client × Memory × Except JsError LatchReply := client.action o date .arm payload m

def Client.named (o : Options) (client : Client) (date : ℚ) (command : Command) (commitment : Str)
    (m : Memory) : Client × Memory × Except JsError LatchReply :=
  client.action o date command (.obj [("commitment".toList, .str commitment)]) m

def Client.status (o : Options) (client : Client) (date : ℚ) := client.named o date .status

def Client.collect (o : Options) (client : Client) (date : ℚ) := client.named o date .collect

def Client.cancel (o : Options) (client : Client) (date : ℚ) := client.named o date .cancel

/-! ## 2. The way in -/

section In

variable {id message original : Hex} {timestamp : ℚ} {command : Command}

theorem wellformed_array : Wellformed num (.arr []) := .arr nofun

theorem dataFixed_wellformed (hnum : num.Lawful) (htime : num.Double timestamp) :
    Wellformed num (dataFixed num id timestamp command original) := by
  have hzero : Wellformed num (numberValue num 0) := .num ⟨_, hnum.zero⟩
  have htimestamp : Wellformed num (numberValue num timestamp) := .num htime
  have hnames : (["instructionId", "teeId", "timestamp", "rewardEpochId", "opType", "opCommand",
      "cosigners", "cosignersThreshold", "originalMessage", "additionalFixedMessage"].map
        String.toList).Nodup := by decide +kernel
  refine .obj hnames ?_
  simp [Wellformed.str, hzero, htimestamp, wellformed_array]

theorem actionEnvelope_wellformed : Wellformed num (actionEnvelope id message) := by
  have hdata : Wellformed num (actionData id message) := by
    have hnames : (["id", "type", "submissionTag", "message"].map String.toList).Nodup := by
      decide +kernel
    refine .obj hnames ?_
    simp [Wellformed.str]
  have hnames : (["data", "additionalVariableMessages", "timestamps", "additionalActionData",
      "signatures"].map String.toList).Nodup := by decide +kernel
  refine .obj hnames ?_
  simp [Wellformed.str, hdata, wellformed_array]

/-- What was written into a message is read out of it. -/
theorem hexToBytes_jsonHex (j : Json) : hexToBytes (jsonHex j) = .ok (Utf8.encode (stringify j)) :=
  hexToBytes_bytesToHex _

theorem parse_jsonHex (hnum : num.Lawful) {j : Json} (h : Wellformed num j) :
    JsonText.parse num (Utf8.decode (Utf8.encode (stringify j))) = some j := by
  rw [Utf8.decode_encode, parse_stringify hnum h]

/-- The server finds the `DataFixed` of the client in its request. -/
theorem readAction_body {engine : Engine} (hnum : engine.numbers.Lawful)
    (htime : engine.numbers.Double timestamp) :
    readAction engine (stringify (actionEnvelope id
      (jsonHex (dataFixed engine.numbers id timestamp command original)))) =
        .ok (actionData id (jsonHex (dataFixed engine.numbers id timestamp command original)),
          dataFixed engine.numbers id timestamp command original) := by
  refine readAction_of (parse_stringify hnum actionEnvelope_wellformed) rfl rfl (hexToBytes_jsonHex _)
    (parse_jsonHex hnum (dataFixed_wellformed hnum htime)) rfl ?_
  rfl

/-- The identifiers lead to the handler. -/
theorem lookupHandler_command (command : Command) :
    lookupHandler (.str (stringToBytes32Hex OP_TYPE_LATCH)) (.str (stringToBytes32Hex command.name)) =
      .ok (some command) := by
  cases command <;> decide +kernel

end In

/-! ## 3. The way back -/

/-- What a client makes of the result of a handler: its status, its message and its payload. -/
def HandlerResult.reply (num : Numbers) (result : HandlerResult) : LatchReply where
  status := 200
  ok := result.status = 1
  log := result.log
  payload :=
    match result with
    | .ok payload => payload.value num
    | .error _ => .null

theorem payloadOf_data {engine : Engine} (hnum : engine.numbers.Lawful) {result : HandlerResult}
    (h : ∀ payload, result = .ok payload → payload.Readable engine.numbers) :
    payloadOf engine (result.data engine.numbers) = (result.reply engine.numbers).payload := by
  cases result with
  | error message => rfl
  | ok payload =>
    have hread := h payload rfl
    have hne : textToHex (payload.stringify engine.numbers) ≠ hexPrefix := by
      intro hnil
      have hdecoded := hread.decoded hnum
      rw [hnil] at hdecoded
      cases hdecoded
    rw [payloadOf, HandlerResult.data, if_neg hne, hread.decoded hnum]
    rfl

/-- **The server's answer, through the client, is the handler's result**, for an action that the
server reads as the client wrote it and a result that can be read back. -/
theorem processAction_reply {m : Memory} {body : Str} {id message original : Hex} {timestamp : ℚ}
    {command : Command} (hnum : o.engine.numbers.Lawful)
    (hread : readAction o.engine body = .ok (actionData id message,
      dataFixed o.engine.numbers id timestamp command original))
    (hpayload : ∀ payload, (handle o command original m).2 = .ok (.ok payload) →
      payload.Readable o.engine.numbers) :
    (processAction o body m).1 = (handle o command original m).1 ∧
      (processAction o body m).2.map (LatchReply.ofAnswer o.engine) =
        (handle o command original m).2.map (HandlerResult.reply o.engine.numbers) := by
  have hprocess : processAction o body m = ((handle o command original m).1, do
      let result ← (handle o command original m).2
      return ⟨200, .result (actionResult o (actionData id message)
        (dataFixed o.engine.numbers id timestamp command original) result)⟩) := by
    have hlookup : lookupHandler
        (nullish (fieldOf (dataFixed o.engine.numbers id timestamp command original) "opType") [])
        (nullish (fieldOf (dataFixed o.engine.numbers id timestamp command original) "opCommand") []) =
          .ok (some command) := lookupHandler_command command
    rw [processAction, hread]
    dsimp only
    rw [hlookup]
    rfl
  rw [hprocess]
  refine ⟨rfl, ?_⟩
  cases hresult : (handle o command original m).2 with
  | error e => rfl
  | ok result =>
    have hdata := payloadOf_data hnum fun payload (heq : result = .ok payload) =>
      hpayload payload (by rw [hresult, heq])
    exact congrArg (fun j => Except.ok (⟨200, result.status = 1, result.log, j⟩ : LatchReply)) hdata

theorem handleRequest_action (o : Options) (body : Str) (m : Memory) :
    handleRequest o "POST".toList "/action".toList body m = processAction o body m := by
  rw [handleRequest, if_pos (by decide), if_pos rfl]

/-- The same of the client's own request. -/
theorem action_reply (hnum : o.engine.numbers.Lawful) {date : ℚ}
    (hdate : o.engine.numbers.Double (date / 1000).floor) (client : Client) {command : Command}
    {payload : Json} {m : Memory}
    (hpayload : ∀ reply, (handle o command (jsonHex payload) m).2 = .ok (.ok reply) →
      reply.Readable o.engine.numbers) :
    client.action o date command payload m =
      (⟨client.seq + 1⟩, (handle o command (jsonHex payload) m).1,
        (handle o command (jsonHex payload) m).2.map (HandlerResult.reply o.engine.numbers)) := by
  obtain ⟨hmem, hreply⟩ := processAction_reply hnum (readAction_body hnum hdate) hpayload
  unfold Client.action
  dsimp only
  rw [handleRequest_action, Client.body, hmem, hreply]

/-- **A request of the client is a direct call of the handler.**  The handler is given the hex of
the payload's JSON, which decodes to the payload, and the reply says what it returned: `ok` for
status 1, its message, and the value it encoded.  Whatever was asked before, and however often. -/
theorem action_direct (hnum : o.engine.numbers.Lawful) (hv : o.viem.Lawful) {now : ℚ} {s : Sys o}
    (hnow : o.engine.numbers.Double now)
    (hrun : Run (fun e _ => Timed o.engine.numbers e) (Sys.fresh o now) s) {date : ℚ}
    (hdate : o.engine.numbers.Double (date / 1000).floor) {fields : List (Str × Json)}
    (hpayload : Wellformed o.engine.numbers (.obj fields)) (client : Client) (command : Command) :
    decodeJson o.engine (jsonHex (.obj fields)) = .ok (.obj fields) ∧
      client.action o date command (.obj fields) s.mem =
        (⟨client.seq + 1⟩, (handle o command (jsonHex (.obj fields)) s.mem).1,
          (handle o command (jsonHex (.obj fields)) s.mem).2.map
            (HandlerResult.reply o.engine.numbers)) := by
  refine ⟨?_, ?_⟩
  · rw [decodeJson, hexToBytes_jsonHex]
    dsimp only
    rw [parse_jsonHex hnum hpayload]
  · have hsound := (Seal.inv_run hrun).sound
    exact action_reply hnum hdate client fun _ =>
      handle_payload hv hsound (readable_run hrun hnow)

namespace SampleClient

/-- The two numbers that occur. -/
def numbers : Numbers where
  value := fun literal =>
    if literal = ['0'] then some 0 else if literal = "9000".toList then some 9000 else none
  text := fun q => if q = 9000 then "9000".toList else ['0']

theorem double_iff {q : ℚ} : numbers.Double q ↔ q = 0 ∨ q = 9000 := by
  constructor
  · rintro ⟨literal, hvalue⟩
    simp only [numbers] at hvalue
    split_ifs at hvalue
    · exact Or.inl (Option.some.inj hvalue).symm
    · exact Or.inr (Option.some.inj hvalue).symm
  · rintro (rfl | rfl)
    · exact ⟨['0'], rfl⟩
    · exact ⟨"9000".toList, by decide +kernel⟩

theorem numbers_lawful : numbers.Lawful where
  zero := rfl
  literal := by
    intro q hq
    rcases double_iff.mp hq with rfl | rfl
    · decide +kernel
    · decide +kernel
  value := by
    intro q hq
    rcases double_iff.mp hq with rfl | rfl
    · decide +kernel
    · decide +kernel

def options : Options where
  viem := Sample.options.viem
  engine := { numbers, syntaxError := fun _ => "SyntaxError".toList }

def trigger : List (Str × Json) :=
  [("kind".toList, .str "TIME".toList), ("notBefore".toList, numberValue numbers 9000)]

/-- `0xdead`, not before 9000, until 9000. -/
def payload : List (Str × Json) :=
  [("userOpData".toList, .str "0xdead".toList), ("trigger".toList, .obj trigger),
    ("deadline".toList, numberValue numbers 9000)]

theorem payload_wellformed : Wellformed numbers (.obj payload) := by
  have hnumber : Wellformed numbers (numberValue numbers 9000) := .num (double_iff.mpr (Or.inr rfl))
  have htrigger : Wellformed numbers (.obj trigger) := by
    refine .obj (by decide +kernel) ?_
    simp [trigger, Wellformed.str, hnumber]
  refine .obj (by decide +kernel) ?_
  simp [payload, Wellformed.str, hnumber, htrigger]

end SampleClient

open SampleClient in
/-- The seventh request of a client arms an intent. -/
theorem action_direct_arm :
    (handle options .arm (jsonHex (.obj payload)) (Memory.boot 0)).2 =
      ok (.armed Sample.commitment false) ∧
    decodeJson options.engine (jsonHex (.obj payload)) = .ok (.obj payload) ∧
    Client.action options ⟨6⟩ 0 .arm (.obj payload) (Memory.boot 0) =
      (⟨7⟩, (handle options .arm (jsonHex (.obj payload)) (Memory.boot 0)).1,
        (handle options .arm (jsonHex (.obj payload)) (Memory.boot 0)).2.map
          (HandlerResult.reply numbers)) := by
  have hzero : numbers.Double 0 := double_iff.mpr (Or.inl rfl)
  have hdate : numbers.Double (((0 : ℚ) / 1000).floor : ℚ) := double_iff.mpr (Or.inl (by decide +kernel))
  refine ⟨by decide +kernel, ?_⟩
  exact action_direct (o := options) numbers_lawful Sample.viem_lawful (s := Sys.fresh options 0)
    hzero (.refl _) hdate payload_wellformed ⟨6⟩ .arm

end OneSig.Latch
