/-
# The HTTP surface of the container contract

`docs/extension-contract.md` says what every request to an extension is answered with.  It is
stated here over the method, the path and the body of a request, without the server: what a
`DataFixed` is (`validDataFixed`: it has an op type, and no field of the wrong type), whom it
names (`commandOf`), which status code is due (`code`), and what a result has to contain
(`Complete`, `ReportsFailure`).  `Answers` puts these together; it also asks that there is an
answer at all.

The server meets it except where an exception gets past its `try` blocks, or a field of the wrong
type past its checks.  The module finds all of these places:

* `runHandler_throws_iff`: a handler throws exactly on the requests in `Throws`, and only ARM
  throws, after all the fields of its message have been accepted (`ArmThrows`);
* `lookupHandler_eq`: on valid requests the registry finds the handler that the contract names, in
  spite of the normal form it brings identifiers to;
* `dataFixedOf_eq_some_iff`: what the contract takes from a body is what the server reads, if it
  is valid.

`http_contract_iff` is the result: for every method, path, body and memory, the server answers as
the contract says exactly when the request is `Answerable` or not for a handler.  The proof goes
through the server from outside: the path, the method, a body that cannot be read, an action that
no handler is registered for, and last an action for a handler.

Two requests that reject are computed at the end, one of each kind.
-/
import OneSig.Latch.Seal
import OneSig.Latch.Server

namespace OneSig.Latch

/-! ## 1. The contract -/

namespace Contract

def isString : Json → Bool
  | .str _ => true
  | _ => false

def isNumber : Json → Bool
  | .num _ _ => true
  | .infinite _ => true
  | _ => false

def isStrings : Json → Bool
  | .arr items => items.all isString
  | _ => false

/-- The fields of a `DataFixed` and their types in JSON. -/
def fields : List (String × (Json → Bool)) :=
  [("instructionId", isString), ("teeId", isString), ("timestamp", isNumber),
    ("rewardEpochId", isNumber), ("opType", isString), ("opCommand", isString),
    ("cosigners", isStrings), ("cosignersThreshold", isNumber), ("originalMessage", isString),
    ("additionalFixedMessage", isString)]

/-- A field may be left out or `null`. -/
def typed (ty : Json → Bool) : Option Json → Bool
  | none => true
  | some .null => true
  | some j => ty j

/-- It has an op type, and no field of the wrong type. -/
def validDataFixed (df : Json) : Bool :=
  (match fieldOf df "opType" with
    | some (.str s) => s ≠ []
    | _ => false) &&
  fields.all fun field => typed field.2 (fieldOf df field.1)

/-- An identifier is compared as a `bytes32`. -/
def names (given : Option Json) (text : String) : Bool :=
  match given with
  | some (.str s) => (hexToBytes s).toOption = some (Bytes32.ofText text).bytes
  | _ => false

/-- The handler a `DataFixed` is for. -/
def commandOf (df : Json) : Option Command :=
  if names (fieldOf df "opType") OP_TYPE_LATCH = true then
    [.arm, .status, .cancel, .collect].find? fun command : Command =>
      names (fieldOf df "opCommand") command.name
  else none

/-- The text in `data.message`. -/
def messageOf (action : Json) : Option Str :=
  match (fieldOf action "data").bind fun data => fieldOf data "message" with
  | some (.str message) => some message
  | _ => none

/-- The `DataFixed` of a body, if it holds one. -/
def dataFixedOf (engine : Engine) (body : Str) : Option Json := do
  let action ← JsonText.parse engine.numbers body
  let message ← messageOf action
  let bytes ← (hexToBytes message).toOption
  (JsonText.parse engine.numbers (Utf8.decode bytes)).filter validDataFixed

/-- The code of an action. -/
def actionCode (engine : Engine) (body : Str) : Nat :=
  match dataFixedOf engine body with
  | none => 400
  | some df => if (commandOf df).isSome = true then 200 else 501

/-- The code of a request. -/
def code (engine : Engine) (method path body : Str) : Nat :=
  if cleanPath path = "/action".toList then
    if method = "POST".toList then actionCode engine body else 405
  else if cleanPath path = "/state".toList then
    if method = "GET".toList then 200 else 405
  else 404

/-- All nine fields are there. -/
def Complete (r : ActionResult) : Prop :=
  r.id.isSome = true ∧ r.submissionTag.isSome = true ∧ r.opType.isSome = true ∧
    r.opCommand.isSome = true

/-- A failure is reported as one: the handler refused, or threw. -/
def ReportsFailure (r : ActionResult) (outcome : Except JsError HandlerResult) : Prop :=
  (∀ payload, outcome ≠ .ok (.ok payload)) →
    r.status = 0 ∧ "error: ".toList.isPrefixOf r.log = true ∧ r.data = hexPrefix

/-- The text a handler is given. -/
def originalMessage (df : Json) : Json := nullish (fieldOf df "originalMessage") hexPrefix

/-- What a request is to be answered with. -/
def Answers (o : Options) (method path body : Str) (m : Memory) (answer : Except JsError Answer) :
    Prop :=
  ∃ a, answer = .ok a ∧ a.code = code o.engine method path body ∧
    ∀ df command, cleanPath path = "/action".toList → method = "POST".toList →
      dataFixedOf o.engine body = some df → commandOf df = some command →
        ∃ r, a.body = .result r ∧ Complete r ∧
          ReportsFailure r (runHandler o command (originalMessage df) m).2

end Contract

/-! ## 2. When a handler throws -/

/-- What `handleArm` has read of a message before it comes to the trigger. -/
structure BeforeTrigger (o : Options) (msg : Str) (req : Json) (commitment : Hex) : Prop where
  decoded : decodeJson o.engine msg = .ok req
  hashed : ∃ userOpData, fieldOf req "userOpData" = some (.str userOpData) ∧
    isHexText Bytes.isHexDigit userOpData = true ∧ 4 ≤ userOpData.length ∧
    o.viem.keccak256 userOpData = .ok commitment
  claimed : checkClaimed commitment (fieldOf req "commitment") = .ok ()

/-- Why ARM throws. -/
inductive ArmThrows (o : Options) (msg : Str) (m : Memory) : Prop
  /-- The package does. -/
  | hash {req : Json} {userOpData : Str} {e : JsError} : decodeJson o.engine msg = .ok req →
      fieldOf req "userOpData" = some (.str userOpData) →
      isHexText Bytes.isHexDigit userOpData = true → 4 ≤ userOpData.length →
      o.viem.keccak256 userOpData = .error e → ArmThrows o msg m
  /-- The kind of the trigger does not convert to a string. -/
  | kind {req : Json} {commitment : Hex} {e : JsError} : BeforeTrigger o msg req commitment →
      parseTrigger (fieldOf req "trigger") = .error (.thrown e) → ArmThrows o msg m
  /-- The intent is stored, and its time is beyond any date. -/
  | date {req : ArmRequest} {e : JsError} : parseArm o msg = .ok req → m.now < req.deadline →
      req.deadline ≤ m.now + o.maxDeadlineMs → m.isArmed req.commitment = false →
      describeTrigger req.trigger = .error e → ArmThrows o msg m

/-- A request whose handler throws. -/
def Throws (o : Options) (command : Command) (msg : Json) (m : Memory) : Prop :=
  command = .arm ∧ ∃ s, msg = .str s ∧ ArmThrows o s m

/-- A field that is refused is never thrown over. -/
theorem stringField_thrown {good : Str → Bool} {message : String} {j : Option Json} {e : JsError} :
    stringField good message j ≠ .error (.thrown e) := by
  unfold stringField
  split
  · split <;> exact nofun
  · exact nofun

theorem numberField_thrown {good : ℚ → Bool} {message : String} {j : Option Json} {e : JsError} :
    numberField good message j ≠ .error (.thrown e) := by
  unfold numberField
  split
  · split <;> exact nofun
  · exact nofun

theorem decodeJson_thrown {engine : Engine} {msg : Str} {e : JsError} :
    decodeJson engine msg ≠ .error (.thrown e) := by
  unfold decodeJson
  split
  · exact nofun
  · split <;> exact nofun

theorem checkClaimed_thrown {commitment : Hex} {j : Option Json} {e : JsError} :
    checkClaimed commitment j ≠ .error (.thrown e) := by
  unfold checkClaimed
  split
  · split <;> exact nofun
  · exact nofun

/-- An error of a sequence is an error of its first step, or of the rest. -/
theorem bind_error {ε α β : Type} {x : Except ε α} {f : α → Except ε β} {e : ε}
    (h : (x >>= f) = .error e) : x = .error e ∨ ∃ a, x = .ok a ∧ f a = .error e := by
  cases x with
  | ok a => exact Or.inr ⟨a, rfl, h⟩
  | error e' =>
    cases h
    exact Or.inl rfl

section Throwing

variable {o : Options} {msg : Str} {m : Memory}

theorem parseArm_thrown {e : JsError} (h : parseArm o msg = .error (.thrown e)) :
    ArmThrows o msg m := by
  unfold parseArm at h
  rcases bind_error h with h | ⟨req, hreq, h⟩
  · exact absurd h decodeJson_thrown
  rcases bind_error h with h | ⟨userOpData, hdata, h⟩
  · exact absurd h stringField_thrown
  obtain ⟨hfield, hgood⟩ := stringField_ok hdata
  rw [Bool.and_eq_true, decide_eq_true_eq] at hgood
  cases hhash : o.viem.keccak256 userOpData with
  | error e => exact .hash hreq hfield hgood.1 hgood.2 hhash
  | ok commitment =>
    rw [hhash] at h
    rcases bind_error h with h | ⟨c, hc, h⟩
    · cases h
    cases hc
    rcases bind_error h with h | ⟨u, hclaimed, h⟩
    · exact absurd h checkClaimed_thrown
    rcases bind_error h with h | ⟨trigger, -, h⟩
    · exact .kind ⟨hreq, ⟨userOpData, hfield, hgood.1, hgood.2, hhash⟩, hclaimed⟩ h
    rcases bind_error h with h | ⟨deadline, -, h⟩
    · exact absurd h numberField_thrown
    · cases h

theorem namedCommitment_thrown {engine : Engine} {e : JsError} :
    namedCommitment engine msg ≠ .error (.thrown e) := by
  intro h
  rcases bind_error h with h | ⟨req, -, h⟩
  · exact decodeJson_thrown h
  · exact stringField_thrown h

/-- A refusal of a message that was not thrown over is an answer. -/
theorem result_of_not_thrown {refusal : Refusal} (h : ∀ e, refusal ≠ .thrown e) (e : JsError) :
    refusal.result ≠ .error e := by
  cases refusal with
  | reject message => exact nofun
  | thrown e' => exact absurd rfl (h e')

/-- Only ARM throws. -/
theorem handle_throws {command : Command} {e : JsError} (h : (handle o command msg m).2 = .error e) :
    command = .arm := by
  have hnamed : ∀ refusal, namedCommitment o.engine msg = .error refusal → refusal.result ≠ .error e :=
    fun refusal hname =>
      result_of_not_thrown (fun e' he => namedCommitment_thrown (he ▸ hname)) e
  cases command with
  | arm => rfl
  | status =>
    simp only [handle, handleStatus] at h
    split at h
    · exact absurd h (hnamed _ ‹_›)
    · split at h <;> cases h
  | cancel =>
    simp only [handle, handleCancel] at h
    split at h
    · exact absurd h (hnamed _ ‹_›)
    · split at h
      · cases h
      · split at h <;> cases h
  | collect =>
    simp only [handle, handleCollect] at h
    split at h
    · exact absurd h (hnamed _ ‹_›)
    · split at h
      · cases h
      · split at h <;> cases h

theorem handleArm_throws {e : JsError} (h : (handleArm o msg m).2 = .error e) :
    ArmThrows o msg m := by
  unfold handleArm at h
  split at h
  case h_1 refusal hparse =>
    cases refusal with
    | reject message => cases h
    | thrown e' => exact parseArm_thrown hparse
  case h_2 req hparse =>
    unfold arm at h
    split_ifs at h with hpast hfar harmed
    · cases h
    · cases h
    · cases h
    · cases hdate : describeTrigger req.trigger with
      | ok u =>
        rw [hdate] at h
        cases h
      | error e' =>
        rw [Bool.not_eq_true] at harmed
        exact .date hparse (Rat.not_le.mp hpast) (Rat.not_lt.mp hfar) harmed hdate

theorem ArmThrows.handleArm (h : ArmThrows o msg m) : ∃ e, (handleArm o msg m).2 = .error e := by
  have hthrown : ∀ e, parseArm o msg = .error (.thrown e) → (Latch.handleArm o msg m).2 = .error e :=
    fun e hparse => by rw [Latch.handleArm, hparse]; rfl
  have hstring : ∀ {req : Json} {userOpData : Str},
      fieldOf req "userOpData" = some (.str userOpData) →
      isHexText Bytes.isHexDigit userOpData = true → 4 ≤ userOpData.length →
      stringField (fun s => isHexText Bytes.isHexDigit s && decide (4 ≤ s.length))
        "userOpData must be non-empty 0x hex" (fieldOf req "userOpData") = .ok userOpData := by
    intro req userOpData hfield hhex hlong
    simp [stringField, hfield, hhex, hlong]
  cases h with
  | @hash req userOpData e hreq hfield hhex hlong hhash =>
    refine ⟨e, hthrown e ?_⟩
    simp only [parseArm, hreq, hstring hfield hhex hlong, hhash, bind, Except.bind, Except.mapError]
  | @kind req commitment e hbefore htrigger =>
    obtain ⟨userOpData, hfield, hhex, hlong, hhash⟩ := hbefore.hashed
    refine ⟨e, hthrown e ?_⟩
    simp only [parseArm, hbefore.decoded, hstring hfield hhex hlong, hhash, hbefore.claimed, htrigger,
      bind, Except.bind, Except.mapError]
  | @date req e hparse hpast hfar harmed hdate =>
    refine ⟨e, ?_⟩
    rw [Latch.handleArm, hparse]
    dsimp only
    rw [arm, if_neg (Rat.not_le.mpr hpast), if_neg (Rat.not_lt.mpr hfar),
      if_neg (by rw [harmed]; decide), hdate]
    rfl

/-- **A handler throws exactly on these requests**: the ARMs that throw in the hash of their
bytes, in the kind of their trigger, or over a time that no date holds. -/
theorem runHandler_throws_iff {command : Command} {text : Json} :
    (∃ e, (runHandler o command text m).2 = .error e) ↔ Throws o command text m := by
  constructor
  · rintro ⟨e, h⟩
    unfold runHandler at h
    split at h
    case h_1 s =>
      obtain rfl := handle_throws h
      exact ⟨rfl, s, rfl, handleArm_throws h⟩
    case h_2 => cases h
  · rintro ⟨rfl, s, rfl, hthrows⟩
    exact hthrows.handleArm

end Throwing

/-! ## 3. Whom a request is for -/

theorem hexToBytes_eq_some_iff {s : Str} {bs : List UInt8} :
    (hexToBytes s).toOption = some bs ↔ toLowerCase (stripPrefix s) = Bytes.hexEncode bs := by
  rw [toLowerCase, ← Bytes.hexDecode_eq_some_iff]
  unfold hexToBytes
  dsimp only
  by_cases hodd : (stripPrefix s).length % 2 ≠ 0
  · rw [if_pos hodd]
    constructor
    · intro h
      cases h
    · intro h
      have hlen := Bytes.length_of_hexDecode h
      omega
  · rw [if_neg hodd]
    cases Bytes.hexDecode (stripPrefix s) with
    | none => simp [Except.toOption, raise]
    | some bs' => simp [Except.toOption]

/-- Only `x` and `X` are `x` in lower case. -/
theorem prefixed_of_lower {s : Str} (h : hexPrefix.isPrefixOf (toLowerCase s) = true) :
    ∃ rest, s = '0' :: 'x' :: rest ∨ s = '0' :: 'X' :: rest := by
  obtain ⟨rest, hrest⟩ := List.isPrefixOf_iff_prefix.mp h
  have hchar : ∀ (c : Char) n, c.toNat = n → c = Char.ofNat n := fun c n hn => by
    rw [← hn, Char.ofNat_toNat]
  match s with
  | [] => simp [hexPrefix, toLowerCase] at hrest
  | [c] => simp [hexPrefix, toLowerCase] at hrest
  | a :: b :: rest' =>
    simp only [hexPrefix, toLowerCase, List.map_cons, List.cons_append, List.cons.injEq] at hrest
    obtain ⟨ha, hb, -⟩ := hrest
    have ha' := congrArg Char.toNat ha
    have hb' := congrArg Char.toNat hb
    rw [Bytes.toNat_toLower, show ('0' : Char).toNat = 48 from rfl] at ha'
    rw [Bytes.toNat_toLower, show ('x' : Char).toNat = 120 from rfl] at hb'
    have ha48 : a.toNat = 48 := by
      split_ifs at ha' <;> omega
    have hb120 : b.toNat = 120 ∨ b.toNat = 88 := by
      split_ifs at hb' <;> omega
    refine ⟨rest', ?_⟩
    rw [hchar a 48 ha48]
    rcases hb120 with hb | hb
    · exact Or.inl (by rw [hchar b 120 hb])
    · exact Or.inr (by rw [hchar b 88 hb])

/-- An identifier in its normal form. -/
theorem normalize_str {s : Str} (h : s ≠ []) :
    normalize (.str s) = .ok (hexPrefix ++ toLowerCase (stripPrefix s)) := by
  have htruthy : ¬(Json.str s).truthy = false := by simp [Json.truthy, h]
  unfold normalize
  rw [if_neg htruthy]
  dsimp only
  refine congrArg Except.ok ?_
  by_cases hpre : hexPrefix.isPrefixOf (toLowerCase s) = true
  · rw [if_pos hpre]
    obtain ⟨rest, rfl | rfl⟩ := prefixed_of_lower hpre
    · rfl
    · rfl
  · rw [if_neg hpre]
    unfold stripPrefix
    split
    · exact absurd rfl hpre
    · exact absurd rfl hpre
    · rfl

theorem normalize_falsy {j : Json} (h : j.truthy = false) : normalize j = .ok EMPTY_BYTES32 := by
  unfold normalize
  rw [if_pos h]

/-- An identifier of the source in its normal form. -/
theorem normal_iff {s : Str} {text : String} :
    hexPrefix ++ toLowerCase (stripPrefix s) = stringToBytes32Hex text ↔
      Contract.names (some (.str s)) text = true := by
  rw [stringToBytes32Hex, Bytes32.hex, bytesToHex, List.append_cancel_left_eq, Contract.names,
    decide_eq_true_eq, hexToBytes_eq_some_iff]

theorem registered_eq (t c : Hex) : registered t c =
    if t = stringToBytes32Hex OP_TYPE_LATCH then
      [Command.arm, .status, .cancel, .collect].find? fun command =>
        decide (c = stringToBytes32Hex command.name)
    else none := by
  rw [registered, handlers, List.find?_map, Option.map_map]
  have hid : ((fun entry : Hex × Hex × Command => entry.2.2) ∘ fun command : Command =>
      (stringToBytes32Hex OP_TYPE_LATCH, stringToBytes32Hex command.name, command)) = id := rfl
  rw [hid, Option.map_id, id]
  by_cases ht : t = stringToBytes32Hex OP_TYPE_LATCH
  · rw [if_pos ht]
    refine congrArg (List.find? · _) (funext fun command => ?_)
    simp [ht, eq_comm]
  · rw [if_neg ht, List.find?_eq_none]
    intro command _
    simp [Ne.symm ht]

/-- No handler is registered without a command. -/
theorem registered_empty (t : Hex) : registered t EMPTY_BYTES32 = none := by
  have hnone : ∀ command : Command, EMPTY_BYTES32 ≠ stringToBytes32Hex command.name := by
    intro command
    cases command <;> decide
  rw [registered_eq, List.find?_eq_none.mpr fun command _ => by simpa using hnone command]
  exact ite_self _

/-- An op command in its normal form. -/
theorem normalize_command {given : Option Json} (htyped : Contract.typed Contract.isString given = true) :
    ∃ c, normalize (nullish given []) = .ok c ∧ ∀ command : Command,
      c = stringToBytes32Hex command.name ↔ Contract.names given command.name = true := by
  have hempty : ∀ command : Command, EMPTY_BYTES32 ≠ stringToBytes32Hex command.name := by
    intro command
    cases command <;> decide
  rcases given with _ | j
  · exact ⟨EMPTY_BYTES32, normalize_falsy rfl, fun command => by simp [hempty, Contract.names]⟩
  · cases j with
    | null => exact ⟨EMPTY_BYTES32, normalize_falsy rfl, fun command => by simp [hempty, Contract.names]⟩
    | str s =>
      by_cases hs : s = []
      · subst hs
        refine ⟨EMPTY_BYTES32, normalize_falsy rfl, fun command => ?_⟩
        rw [← normal_iff]
        cases command <;> decide
      · exact ⟨_, normalize_str hs, fun command => normal_iff⟩
    | _ => simp [Contract.typed, Contract.isString] at htyped

/-- **The registry finds the handler that the contract names**, when the type of the operation is
a non-empty text and the command a text or missing. -/
theorem lookupHandler_eq {df : Json} {s : Str} (hs : s ≠ [])
    (htype : fieldOf df "opType" = some (.str s))
    (htyped : Contract.typed Contract.isString (fieldOf df "opCommand") = true) :
    lookupHandler (nullish (fieldOf df "opType") []) (nullish (fieldOf df "opCommand") []) =
      .ok (Contract.commandOf df) := by
  obtain ⟨c, hc, hnames⟩ := normalize_command htyped
  have htext : nullish (fieldOf df "opType") [] = .str s := by
    rw [htype]
    rfl
  rw [lookupHandler, htext, normalize_str hs, hc, Contract.commandOf, htype]
  refine congrArg Except.ok ?_
  rw [registered_empty, Option.or_none, registered_eq]
  have hcommand : (fun command : Command => decide (c = stringToBytes32Hex command.name)) =
      fun command => Contract.names (fieldOf df "opCommand") command.name := by
    funext command
    rw [Bool.eq_iff_iff, decide_eq_true_eq]
    exact hnames command
  rw [hcommand]
  exact if_congr normal_iff rfl rfl

/-! ## 4. Reading a request -/

section Reading

variable {engine : Engine} {body : Str}

theorem presentField_ok {name message : String} {j v : Json}
    (h : presentField name message j = .ok v) : fieldOf j name = some v ∧ v.truthy = true := by
  unfold presentField at h
  split at h
  case h_1 v' hfield =>
    split at h
    case isTrue htruthy =>
      cases h
      exact ⟨hfield, htruthy⟩
    case isFalse => cases h
  case h_2 => cases h

theorem parseJson_ok {context : String} {text : Str} {j : Json}
    (h : parseJson engine context text = .ok j) : JsonText.parse engine.numbers text = some j := by
  unfold parseJson at h
  split at h
  case h_1 j' hparse =>
    cases h
    exact hparse
  case h_2 => cases h

/-- An action that is read has a hex text for a message. -/
theorem readAction_ok {data df : Json} (h : readAction engine body = .ok (data, df)) :
    ∃ action message bytes, JsonText.parse engine.numbers body = some action ∧
      fieldOf action "data" = some data ∧ fieldOf data "message" = some (.str message) ∧
      hexToBytes message = .ok bytes ∧
      JsonText.parse engine.numbers (Utf8.decode bytes) = some df ∧
      ∃ v, fieldOf df "opType" = some v ∧ v.truthy = true := by
  unfold readAction at h
  obtain ⟨action, haction, h⟩ := bind_ok h
  obtain ⟨data', hdata, h⟩ := bind_ok h
  obtain ⟨bytes, hbytes, h⟩ := bind_ok h
  obtain ⟨df', hdf, h⟩ := bind_ok h
  obtain ⟨v, hv, h⟩ := bind_ok h
  cases h
  have hparse := parseJson_ok hdf
  have hempty : ∀ bytes, bytes = [] →
      JsonText.parse engine.numbers (Utf8.decode bytes) ≠ some df := by
    rintro _ rfl
    exact nofun
  refine ⟨action, ?_⟩
  cases hmessage : fieldOf data "message" with
  | none =>
    rw [hmessage] at hbytes
    cases hbytes
    exact absurd hparse (hempty _ rfl)
  | some j =>
    rw [hmessage] at hbytes
    cases j with
    | str message =>
      refine ⟨message, bytes, parseJson_ok haction, (presentField_ok hdata).1, rfl, ?_, hparse, v,
        presentField_ok hv⟩
      cases hhex : hexToBytes message with
      | ok bytes' =>
        rw [hexToBytesOf, hhex] at hbytes
        cases hbytes
        rfl
      | error e =>
        rw [hexToBytesOf, hhex] at hbytes
        cases hbytes
    | null =>
      cases hbytes
      exact absurd hparse (hempty _ rfl)
    | _ => cases hbytes

theorem readAction_of {action data df v : Json} {message : Str} {bytes : List UInt8}
    (haction : JsonText.parse engine.numbers body = some action)
    (hdata : fieldOf action "data" = some data)
    (hmessage : fieldOf data "message" = some (.str message))
    (hbytes : hexToBytes message = .ok bytes)
    (hdf : JsonText.parse engine.numbers (Utf8.decode bytes) = some df)
    (hv : fieldOf df "opType" = some v) (htruthy : v.truthy = true) :
    readAction engine body = .ok (data, df) := by
  have hobject : data.truthy = true := by
    cases data with
    | obj fields => rfl
    | _ => cases hmessage
  simp [readAction, parseJson, presentField, haction, hdata, hobject, hmessage, hexToBytesOf, hbytes,
    hdf, hv, htruthy, bind, Except.bind, Except.mapError, pure, Except.pure]

/-- A valid `DataFixed` has a string for an op type, and it is not empty. -/
theorem opType_of_valid {df : Json} (h : Contract.validDataFixed df = true) :
    ∃ s, fieldOf df "opType" = some (.str s) ∧ s ≠ [] := by
  rw [Contract.validDataFixed, Bool.and_eq_true] at h
  have hop := h.1
  split at hop
  case h_1 s hfield => exact ⟨s, hfield, by simpa using hop⟩
  case h_2 => cases hop

theorem typed_of_valid {df : Json} (h : Contract.validDataFixed df = true) :
    Contract.typed Contract.isString (fieldOf df "opCommand") = true := by
  rw [Contract.validDataFixed, Bool.and_eq_true, List.all_eq_true] at h
  exact h.2 ("opCommand", Contract.isString) (by simp [Contract.fields])

/-- **What the contract takes from a body** is what the server reads, if it is valid: the two
differ on values of other types, which only the server lets through. -/
theorem dataFixedOf_eq_some_iff {df : Json} : Contract.dataFixedOf engine body = some df ↔
    Contract.validDataFixed df = true ∧ ∃ data, readAction engine body = .ok (data, df) := by
  constructor
  · intro h
    unfold Contract.dataFixedOf at h
    obtain ⟨action, haction, h⟩ := Option.bind_eq_some_iff.mp h
    obtain ⟨message, hmessage, h⟩ := Option.bind_eq_some_iff.mp h
    obtain ⟨bytes, hbytes, h⟩ := Option.bind_eq_some_iff.mp h
    obtain ⟨hdf, hvalid⟩ := Option.filter_eq_some_iff.mp h
    obtain ⟨s, htype, hs⟩ := opType_of_valid hvalid
    refine ⟨hvalid, ?_⟩
    unfold Contract.messageOf at hmessage
    split at hmessage
    case h_2 => cases hmessage
    case h_1 message' hfield =>
      cases hmessage
      obtain ⟨data, hdata, hfield⟩ := Option.bind_eq_some_iff.mp hfield
      have hbytes' : hexToBytes message = .ok bytes := by
        cases hhex : hexToBytes message with
        | ok bytes' =>
          rw [hhex] at hbytes
          cases hbytes
          rfl
        | error e =>
          rw [hhex] at hbytes
          cases hbytes
      exact ⟨data, readAction_of haction hdata hfield hbytes' hdf htype (by simp [Json.truthy, hs])⟩
  · rintro ⟨hvalid, data, h⟩
    obtain ⟨action, message, bytes, haction, hdata, hmessage, hbytes, hdf, -⟩ := readAction_ok h
    simp [Contract.dataFixedOf, Contract.messageOf, haction, hdata, hmessage, hbytes, hdf, hvalid,
      Except.toOption]

end Reading

/-! ## 5. Every request -/

/-- The id of an action is there, and prints. -/
def Printable (data : Json) : Prop := ∃ id text, fieldOf data "id" = some id ∧ id.text = .ok text

/-- A request the server can answer: no field has the wrong type, and if it is for a handler, it can
be echoed and the handler does not throw. -/
structure Answerable (o : Options) (m : Memory) (data df : Json) : Prop where
  valid : Contract.validDataFixed df = true
  printable : ∀ command, Contract.commandOf df = some command → Printable data
  tagged : ∀ command, Contract.commandOf df = some command →
    (fieldOf data "submissionTag").isSome = true
  settled : ∀ command, Contract.commandOf df = some command →
    ¬Throws o command (Contract.originalMessage df) m

section Action

variable {o : Options} {body : Str} {m : Memory} {data df : Json}

theorem isSome_of_names {given : Option Json} {text : String}
    (h : Contract.names given text = true) : given.isSome = true := by
  cases given with
  | none => cases h
  | some j => rfl

theorem isSome_of_commandOf {command : Command} (h : Contract.commandOf df = some command) :
    (fieldOf df "opType").isSome = true ∧ (fieldOf df "opCommand").isSome = true := by
  unfold Contract.commandOf at h
  split_ifs at h with htype
  have hname := List.find?_some (p := fun command : Command =>
    Contract.names (fieldOf df "opCommand") command.name) h
  exact ⟨isSome_of_names htype, isSome_of_names hname⟩

/-- The result of a handler that did not throw is reported as the contract says. -/
theorem reportsFailure (result : HandlerResult) :
    Contract.ReportsFailure (actionResult o data df result) (.ok result) := by
  intro hfail
  cases result with
  | ok payload => exact absurd rfl (hfail payload)
  | error message => exact ⟨rfl, rfl, rfl⟩

/-- An action that is read but not valid is never answered with a 400. -/
theorem processAction_invalid (hread : readAction o.engine body = .ok (data, df)) {a : Answer}
    (ha : (processAction o body m).2 = .ok a) : a.code ≠ 400 := by
  unfold processAction at ha
  rw [hread] at ha
  dsimp only at ha
  split at ha
  · cases ha
  · cases ha
    decide
  · obtain ⟨result, -, ha⟩ := bind_ok ha
    obtain ⟨id, -, ha⟩ := bind_ok ha
    cases ha
    simp

theorem processAction_routed {command : Command}
    (hread : readAction o.engine body = .ok (data, df))
    (hvalid : Contract.validDataFixed df = true) (hcommand : Contract.commandOf df = some command) :
    (processAction o body m).2 = (do
      let result ← (runHandler o command (Contract.originalMessage df) m).2
      let _ ← printId data
      return ⟨200, .result (actionResult o data df result)⟩) := by
  obtain ⟨s, htype, hs⟩ := opType_of_valid hvalid
  unfold processAction
  rw [hread]
  dsimp only
  rw [lookupHandler_eq hs htype (typed_of_valid hvalid), hcommand]
  rfl

theorem printId_ok (h : Printable data) : ∃ text, printId data = .ok text := by
  obtain ⟨id, text, hid, htext⟩ := h
  exact ⟨text, by rw [printId, hid]; exact htext⟩

end Action

/-- An action for a handler. -/
theorem routed_iff {o : Options} {body : Str} {m : Memory} {data df : Json} {command : Command}
    (hread : readAction o.engine body = .ok (data, df))
    (hvalid : Contract.validDataFixed df = true) (hcommand : Contract.commandOf df = some command) :
    (∃ a, (processAction o body m).2 = .ok a ∧ a.code = 200 ∧ ∃ r, a.body = .result r ∧
      Contract.Complete r ∧
      Contract.ReportsFailure r (runHandler o command (Contract.originalMessage df) m).2) ↔
      Answerable o m data df := by
  rw [processAction_routed hread hvalid hcommand]
  constructor
  · rintro ⟨a, ha, -, r, hr, hcomplete, -⟩
    obtain ⟨result, hrun, ha⟩ := bind_ok ha
    obtain ⟨text, hprint, ha⟩ := bind_ok ha
    cases ha
    cases hr
    have hsettled : ¬Throws o command (Contract.originalMessage df) m := by
      rw [← runHandler_throws_iff]
      rintro ⟨e, he⟩
      rw [hrun] at he
      cases he
    have hprintable : Printable data := by
      obtain ⟨id, hid⟩ := Option.isSome_iff_exists.mp hcomplete.1
      have hid' : fieldOf data "id" = some id := hid
      rw [printId, hid'] at hprint
      exact ⟨id, text, hid', hprint⟩
    constructor
    · exact hvalid
    · exact fun _ _ => hprintable
    · exact fun _ _ => hcomplete.2.1
    · intro command' hcommand'
      obtain rfl := Option.some.inj (hcommand.symm.trans hcommand')
      exact hsettled
  · intro h
    obtain ⟨text, hprint⟩ := printId_ok (h.printable command hcommand)
    cases hrun : (runHandler o command (Contract.originalMessage df) m).2 with
    | error e => exact absurd (runHandler_throws_iff.mp ⟨e, hrun⟩) (h.settled command hcommand)
    | ok result =>
      rw [hprint]
      refine ⟨_, rfl, rfl, _, rfl, ?_, reportsFailure result⟩
      obtain ⟨id, -, hid, -⟩ := h.printable command hcommand
      obtain ⟨htype, hcmd⟩ := isSome_of_commandOf hcommand
      refine ⟨?_, h.tagged command hcommand, htype, hcmd⟩
      rw [actionResult, hid]
      rfl

section Requests

variable {o : Options} {method path body : Str} {m : Memory}

/-- A request for another path than that of the actions. -/
theorem answers_elsewhere (hpath : cleanPath path ≠ "/action".toList) :
    Contract.Answers o method path body m (handleRequest o method path body m).2 := by
  by_cases hstate : cleanPath path = "/state".toList
  · by_cases hget : method = "GET".toList
    · refine ⟨⟨200, .state (stringToBytes32Hex VERSION) (reportState m)⟩, ?_, ?_,
        fun _ _ h => absurd h hpath⟩
      · rw [handleRequest, if_neg hpath, if_pos hstate, if_pos hget]
        rfl
      · rw [Contract.code, if_neg hpath, if_pos hstate, if_pos hget]
    · refine ⟨⟨405, .text "method not allowed".toList⟩, ?_, ?_, fun _ _ h => absurd h hpath⟩
      · rw [handleRequest, if_neg hpath, if_pos hstate, if_neg hget]
      · rw [Contract.code, if_neg hpath, if_pos hstate, if_neg hget]
  · refine ⟨⟨404, .text "not found".toList⟩, ?_, ?_, fun _ _ h => absurd h hpath⟩
    · rw [handleRequest, if_neg hpath, if_neg hstate]
    · rw [Contract.code, if_neg hpath, if_neg hstate]

/-- An action that is not posted. -/
theorem answers_unposted (hpath : cleanPath path = "/action".toList)
    (hmethod : method ≠ "POST".toList) :
    Contract.Answers o method path body m (handleRequest o method path body m).2 := by
  refine ⟨⟨405, .text "method not allowed".toList⟩, ?_, ?_, ?_⟩
  · rw [handleRequest, if_pos hpath, if_neg hmethod]
  · rw [Contract.code, if_pos hpath, if_neg hmethod]
  · exact fun _ _ _ h => absurd h hmethod

/-- What the contract asks of an action that is posted. -/
theorem answers_posted_iff (hpath : cleanPath path = "/action".toList)
    (hmethod : method = "POST".toList) {answer : Except JsError Answer} :
    Contract.Answers o method path body m answer ↔
      ∃ a, answer = .ok a ∧ a.code = Contract.actionCode o.engine body ∧
        ∀ df command, Contract.dataFixedOf o.engine body = some df →
          Contract.commandOf df = some command → ∃ r, a.body = .result r ∧ Contract.Complete r ∧
            Contract.ReportsFailure r
              (runHandler o command (Contract.originalMessage df) m).2 := by
  rw [Contract.Answers, Contract.code, if_pos hpath, if_pos hmethod]
  simp only [hpath, hmethod, true_imp_iff]

/-- A body that cannot be read holds nothing for the contract either. -/
theorem dataFixedOf_unread {engine : Engine} {message : Str}
    (hread : readAction engine body = .error message) :
    Contract.dataFixedOf engine body = none := by
  rw [Option.eq_none_iff_forall_ne_some]
  intro df h
  obtain ⟨-, data, h⟩ := dataFixedOf_eq_some_iff.mp h
  rw [hread] at h
  cases h

theorem dataFixedOf_invalid {engine : Engine} {data df : Json}
    (hread : readAction engine body = .ok (data, df))
    (hvalid : ¬Contract.validDataFixed df = true) : Contract.dataFixedOf engine body = none := by
  rw [Option.eq_none_iff_forall_ne_some]
  intro df' h
  obtain ⟨hvalid', data', h⟩ := dataFixedOf_eq_some_iff.mp h
  rw [hread] at h
  cases h
  exact hvalid hvalid'

/-- An action that cannot be read gets its 400. -/
theorem answers_unread (hpath : cleanPath path = "/action".toList)
    (hmethod : method = "POST".toList) {message : Str}
    (hread : readAction o.engine body = .error message) :
    Contract.Answers o method path body m (processAction o body m).2 := by
  have hnone := dataFixedOf_unread hread
  rw [answers_posted_iff hpath hmethod]
  refine ⟨⟨400, .error message⟩, ?_, ?_, ?_⟩
  · rw [processAction, hread]
  · rw [Contract.actionCode, hnone]
  · intro df command h
    rw [hnone] at h
    cases h

/-- An action that no handler is registered for gets its 501. -/
theorem processAction_unsupported {data df : Json}
    (hread : readAction o.engine body = .ok (data, df))
    (hvalid : Contract.validDataFixed df = true) (hcommand : Contract.commandOf df = none) :
    (processAction o body m).2 = .ok ⟨501, .text "unsupported op type".toList⟩ := by
  obtain ⟨s, htype, hs⟩ := opType_of_valid hvalid
  unfold processAction
  rw [hread]
  dsimp only
  rw [lookupHandler_eq hs htype (typed_of_valid hvalid), hcommand]

/-- An action that can be read. -/
theorem answers_read_iff (hpath : cleanPath path = "/action".toList)
    (hmethod : method = "POST".toList) {data df : Json}
    (hread : readAction o.engine body = .ok (data, df)) :
    Contract.Answers o method path body m (processAction o body m).2 ↔
      Answerable o m data df := by
  rw [answers_posted_iff hpath hmethod, Contract.actionCode]
  by_cases hvalid : Contract.validDataFixed df = true
  case neg =>
    rw [dataFixedOf_invalid hread hvalid]
    refine iff_of_false ?_ fun h => hvalid h.valid
    rintro ⟨a, ha, hcode, -⟩
    exact processAction_invalid hread ha hcode
  rw [dataFixedOf_eq_some_iff.mpr ⟨hvalid, data, hread⟩]
  cases hcommand : Contract.commandOf df with
  | none =>
    refine iff_of_true ⟨_, processAction_unsupported hread hvalid hcommand, ?_, ?_⟩ ?_
    · simp [hcommand]
    · intro df' command heq hcommand'
      cases heq
      rw [hcommand] at hcommand'
      cases hcommand'
    · constructor
      · exact hvalid
      · exact fun command h => by rw [hcommand] at h; cases h
      · exact fun command h => by rw [hcommand] at h; cases h
      · exact fun command h => by rw [hcommand] at h; cases h
  | some command =>
    rw [← routed_iff hread hvalid hcommand]
    simp only [hcommand]
    refine exists_congr fun a => and_congr_right fun _ => and_congr_right fun _ => ?_
    constructor
    · exact fun h => h df command rfl hcommand
    · intro h df' command' heq hcommand'
      cases heq
      obtain rfl := Option.some.inj (hcommand.symm.trans hcommand')
      exact h

end Requests

/-- **The server meets the contract exactly on these requests**: everything but an action whose
message decodes, with a field of the wrong type, an id that is missing or does not print, no
submission tag, or a handler that throws. -/
theorem http_contract_iff (o : Options) (method path body : Str) (m : Memory) :
    Contract.Answers o method path body m (handleRequest o method path body m).2 ↔
      (cleanPath path = "/action".toList → method = "POST".toList →
        ∀ data df, readAction o.engine body = .ok (data, df) → Answerable o m data df) := by
  by_cases hpath : cleanPath path = "/action".toList
  case neg => exact iff_of_true (answers_elsewhere hpath) fun h => absurd h hpath
  by_cases hmethod : method = "POST".toList
  case neg => exact iff_of_true (answers_unposted hpath hmethod) fun _ h => absurd h hmethod
  rw [handleRequest, if_pos hpath, if_pos hmethod]
  cases hread : readAction o.engine body with
  | error message =>
    exact iff_of_true (answers_unread hpath hmethod hread) fun _ _ data df h => by cases h
  | ok envelope =>
    obtain ⟨data, df⟩ := envelope
    rw [answers_read_iff hpath hmethod hread]
    constructor
    · intro h _ _ data' df' heq
      cases heq
      exact h
    · exact fun h => h hpath hmethod data df rfl

/-! ## 6. Two bodies -/

namespace Sample

/-- An action whose message is the hex of a text. -/
def actionBody (text : Str) : Str :=
  "\x7b\"data\":\x7b\"id\":\"0x01\",\"submissionTag\":\"submit\",\"message\":\"".toList ++
    textToHex text ++ "\"\x7d\x7d".toList

/-- An op type that is a number. -/
def numberBody : Str := actionBody "\x7b\"opType\":5\x7d".toList

/-- `0xdead`, not before a time that no date can hold. -/
def farMessage : Str :=
  message "\x7b\"userOpData\":\"0xdead\",\"trigger\":\x7b\"kind\":\"TIME\"," []
    "\"notBefore\":9000000000000000\x7d,\"deadline\":9000\x7d"

def farBody : Str :=
  actionBody ("\x7b\"opType\":\"".toList ++ stringToBytes32Hex OP_TYPE_LATCH ++
    "\",\"opCommand\":\"".toList ++ stringToBytes32Hex Command.arm.name ++
    "\",\"originalMessage\":\"".toList ++ farMessage ++ "\"\x7d".toList)

/-- `POST /action`, just after the start. -/
def post (body : Str) : Memory × Except JsError Answer :=
  handleRequest options "POST".toList "/action".toList body (Memory.boot 1000)

end Sample

/-- **Two requests reject**: one with an op type of the wrong type, which is to get a 400, and an ARM
that gets past its handler's checks, which is to get a 200 and has stored its intent. -/
theorem server_rejects :
    ((Sample.post Sample.numberBody).2.toOption.isSome = false ∧
      ¬Contract.Answers Sample.options "POST".toList "/action".toList Sample.numberBody
        (Memory.boot 1000) (Sample.post Sample.numberBody).2) ∧
    (Sample.post Sample.farBody).1.isArmed Sample.commitment = true ∧
      (Sample.post Sample.farBody).2.toOption.isSome = false ∧
      ¬Contract.Answers Sample.options "POST".toList "/action".toList Sample.farBody
        (Memory.boot 1000) (Sample.post Sample.farBody).2 := by
  have hrejects : ∀ body, (Sample.post body).2.toOption.isSome = false →
      ¬Contract.Answers Sample.options "POST".toList "/action".toList body (Memory.boot 1000)
        (Sample.post body).2 := by
    rintro body h ⟨a, ha, -⟩
    rw [ha] at h
    cases h
  have hnumber : (Sample.post Sample.numberBody).2.toOption.isSome = false := by decide +kernel
  have hfar : (Sample.post Sample.farBody).2.toOption.isSome = false := by decide +kernel
  refine ⟨⟨hnumber, hrejects _ hnumber⟩, ?_, hfar, hrejects _ hfar⟩
  decide +kernel

end OneSig.Latch
