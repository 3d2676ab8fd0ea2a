/-
# The two extensions answer alike

The conformance tests send the same requests to both extensions and compare their replies one by
one.  Here the Go extension is sent requests that are in progress together, and the Python
extension the same requests one at a time, in the order in which the first has served them: every
reply is answered alike.

What the two read is not the same code, so it is a hypothesis that they read it alike.  `Sent`
says of a body that both decode it as one action, and of its payload that the decoders of the
command accept it together, with the same name and reason, or refuse it together; a client that
sends what tee-node sends has that.  `Pads` says that `ToHash` is the padding with zeros that both
registries use for their keys.

`SameAnswer` is what a client can rely on.  The texts of errors are not the same, and neither are
the bytes of `data`: they are the same JSON value, and the same bytes exactly when no character of
the text is one that only one of the encoders escapes.

* `sameStep` is one request from one state, by cases on what is decoded; both states move alike.
* `conforms` is the result over every reachable state of the Go extension, by the order that the
  lock gives; it asks for fewer than 2⁶³ requests, because the counters of one of the two wrap.
* `conforms_data` says of what was counted that the two `data` are one JSON value, and when they
  are one byte string.

`conforms_fixture` is the run with both commands: the Python extension answers each of them with
the bytes that the kernel has computed for the Go extension.
-/
import OneSig.Latch.Framework
import OneSig.Greeting.Concurrent

namespace OneSig.Greeting

open OneSig.Latch (Bytes32 bytesToHex)
open RwLock

/-! ## 1. Hexadecimal -/

namespace Python

theorem isSpace_hexDigit : ∀ n < 16, isSpace (Bytes.hexDigit n) = false := by decide

theorem hexPairs_hexEncode (bs : List UInt8) (position : Nat) :
    hexPairs position (Bytes.hexEncode bs) = .ok bs := by
  induction bs generalizing position with
  | nil => rfl
  | cons b bs ih =>
    have hb : b.toNat < 256 := b.toNat_lt
    have hbyte : UInt8.ofNat (16 * (b.toNat / 16) + b.toNat % 16) = b := by
      rw [Nat.div_add_mod, UInt8.ofNat_toNat]
    rw [Bytes.hexEncode_cons, hexPairs, isSpace_hexDigit _ (by omega),
      Bytes.hexVal_hexDigit _ (by omega), Bytes.hexVal_hexDigit _ (by omega), ih]
    simp [Except.map, hbyte]

theorem fromhex_hexEncode (bs : List UInt8) : fromhex (Bytes.hexEncode bs) = .ok bs := by
  have hascii : (Bytes.hexEncode bs).findIdx? (fun c => decide (0x7F < c.toNat)) = none := by
    rw [List.findIdx?_eq_none_iff]
    intro c hc
    have hall : Bytes.anyHexDigits.all (fun c => !decide (0x7F < c.toNat)) = true := by decide
    have hdigit := Bytes.isHexDigit_of_lower (Bytes.hexEncode_lower bs c hc)
    rw [← Bool.not_eq_true']
    exact List.all_eq_true.mp hall c (Bytes.mem_anyHexDigits hdigit)
  rw [fromhex, hascii]
  exact hexPairs_hexEncode bs 0

theorem removePrefix_append (start s : Str) : removePrefix start (start ++ s) = s := by
  rw [removePrefix, if_pos (List.isPrefixOf_iff_prefix.mpr (List.prefix_append _ _)),
    List.drop_left]

/-- Digits begin with no `0X`. -/
theorem removePrefix_hexEncode (bs : List UInt8) :
    removePrefix ['0', 'X'] (Bytes.hexEncode bs) = Bytes.hexEncode bs := by
  have hno : ¬['0', 'X'].isPrefixOf (Bytes.hexEncode bs) = true := by
    intro h
    obtain ⟨t, ht⟩ := List.isPrefixOf_iff_prefix.mp h
    have hx := Bytes.hexEncode_lower bs 'X' (by rw [← ht]; simp)
    exact absurd hx (by decide)
  rw [removePrefix, if_neg hno]

theorem hexToBytes_bytesToHex (py : Library) (bs : List UInt8) :
    hexToBytes py (.str (bytesToHex bs)) = .ok bs := by
  have hstrip : removePrefix ['0', 'x'] (bytesToHex bs) = Bytes.hexEncode bs :=
    removePrefix_append ['0', 'x'] _
  rw [hexToBytes, hstrip, removePrefix_hexEncode, fromhex_hexEncode]

theorem normalize_hex (py : Library) (b : Bytes32) : normalize py (.str b.hex) = .ok b.hex := by
  have hfalsy : ¬falsy (.str b.hex) = true := by simp [falsy, Bytes32.hex, bytesToHex, hexPrefix]
  have hlower : toLowerCase b.hex = b.hex := by
    rw [Bytes32.hex, bytesToHex, toLowerCase_append, toLowerCase_hexPrefix, toLowerCase_hexEncode]
  have hstart : hexPrefix.isPrefixOf b.hex = true :=
    List.isPrefixOf_iff_prefix.mpr (List.prefix_append _ _)
  simp only [normalize, if_neg hfalsy, hlower, if_pos hstart]

end Python

/-! ## 2. Requests that are read alike -/

variable (go : Go.Library) (py : Python.Library)

/-- The payload of `SAY_HELLO`: an object with a name, which may be empty, or no such object. -/
def SameHello (msg : List UInt8) : Prop :=
  (∃ name req, go.decodeSayHello msg = .ok name ∧ py.loads msg = .ok req ∧
    Python.readName py req =
      if name = [] then .error "name must not be empty".toList else .ok (.str name)) ∨
  ((∃ err, go.decodeSayHello msg = .error err) ∧
    ((∃ text, py.loads msg = .error (.valueError text)) ∨
      ∃ req text, py.loads msg = .ok req ∧ Python.readName py req = .error text))

/-- The payload of `SAY_GOODBYE`. -/
def SameGoodbye (msg : List UInt8) : Prop :=
  (∃ request, go.decodeSayGoodbye msg = .ok request ∧ py.abiDecode msg = .ok request) ∨
  ((∃ err, go.decodeSayGoodbye msg = .error err) ∧ ∃ text, py.abiDecode msg = .error text)

/-- A body is an action with a message, to both. -/
structure Sent (body : List UInt8) (action : Go.Action) (df : Go.DataFixed) : Prop where
  decodes : go.decodeAction body = .ok action
  decodesFixed : go.parseDataFixed action.message = .ok df
  parses : ∃ raw, py.loads body = .ok raw ∧ Python.parseAction py raw =
    .ok ⟨.str action.id.hex, .str action.submissionTag, .str (bytesToHex action.message)⟩
  parsesFixed : ∃ raw, py.loads action.message = .ok raw ∧ Python.parseDataFixed py raw =
    .ok ⟨.str df.opType.hex, .str df.opCommand.hex, .str (bytesToHex df.originalMessage)⟩
  hello : df.opCommand = go.toHash OPCommandSayHello → SameHello go py df.originalMessage
  goodbye : df.opCommand = go.toHash OPCommandSayGoodbye → SameGoodbye go py df.originalMessage

/-- What is counted of a body that is read. -/
theorem Sent.accepted {body : List UInt8} {action : Go.Action} {df : Go.DataFixed}
    (h : Sent go py body action df) : Go.accepted go body =
      if df.opType = go.toHash OPTypeGreeting then Go.greetingAccepted go df else none := by
  rw [Go.accepted, h.decodes]
  change Go.actionAccepted go action = _
  rw [Go.actionAccepted, h.decodesFixed]
  rfl

def Alike : Request → Prop
  | .action body => ∃ action df, Sent go py body action df
  | .state => True

/-- `ToHash` pads a text with zeros, as Solidity does. -/
def Pads : Prop := ∀ name ∈ [Version, OPTypeGreeting, OPCommandSayHello, OPCommandSayGoodbye],
  go.toHash name = Bytes32.ofText name

/-! ## 3. Answers that agree -/

/-- `data` of two results: nothing, or the response to the text that was counted. -/
def SameData (counted : Option Accepted) (data : List UInt8) (hex : Str) : Prop :=
  (counted = none ∧ data = [] ∧ hex = hexPrefix) ∨
    ∃ a n, counted = some a ∧ data = Utf8.encode (responseOf a.kind Go.escaped a.text n) ∧
      hex = Python.dumped (responseOf a.kind Python.escaped a.text n)

/-- The log of two results: `ok`, or an error. -/
def SameLog (status : Nat) (log log' : Str) : Prop :=
  (status = 1 ∧ log = "ok".toList ∧ log' = "ok".toList) ∨
    (status = 0 ∧ "error: ".toList <+: log ∧ "error: ".toList <+: log')

structure SameResult (counted : Option Accepted) (ar : Go.ActionResult) (r : Python.ActionResult) :
    Prop where
  id : r.id = .str ar.id.hex
  submissionTag : r.submissionTag = .str ar.submissionTag
  opType : r.opType = .str ar.opType.hex
  opCommand : r.opCommand = .str ar.opCommand.hex
  version : r.version = ar.version
  status : r.status = ar.status
  log : SameLog ar.status ar.log r.log
  additionalResultStatus : r.additionalResultStatus = bytesToHex ar.additionalResultStatus
  data : SameData counted ar.data r.data

inductive SameAnswer (counted : Option Accepted) : Go.Answer → Python.Answer → Prop
  | unsupported (text text' : Str) (h : counted = none) :
      SameAnswer counted ⟨501, .text text⟩ ⟨501, .text text'⟩
  | result {ar : Go.ActionResult} {r : Python.ActionResult} (h : SameResult counted ar r) :
      SameAnswer counted ⟨200, .result ar⟩ ⟨200, .result r⟩
  | state (version : Bytes32) (s : State) :
      SameAnswer counted ⟨200, .state version s⟩ ⟨200, .state version.hex s⟩

/-- Answers agree, and the Python extension has one. -/
def Answers (counted : Option Accepted) (r : Go.Answer)
    (r' : Except Python.Exception Python.Answer) : Prop :=
  ∃ a, r' = .ok a ∧ SameAnswer counted r a

/-! ## 4. One request -/

/-- The counters have room. -/
def State.Below (s : State) (n : Nat) : Prop :=
  0 ≤ s.greetingCount ∧ s.greetingCount ≤ n ∧ 0 ≤ s.farewellCount ∧ s.farewellCount ≤ n

theorem State.Below.succ {s : State} {n : Nat} (h : s.Below n) : s.Below (n + 1) := by
  obtain ⟨h₁, h₂, h₃, h₄⟩ := h
  refine ⟨h₁, ?_, h₃, ?_⟩
  · omega
  · omega

/-- What two programs do to a state that has room. -/
def SameStep {ρ ρ' : Type} (Same : ρ → ρ' → Prop) (p : Program State Go.Locals ρ)
    (p' : Program State Python.Locals ρ') : Prop :=
  ∀ (s : State) (n : Nat), s.Below n → n + 1 < 2 ^ 63 →
    (p'.run s).1 = (p.run s).1 ∧ (p.run s).1.Below (n + 1) ∧ Same (p.run s).2 (p'.run s).2

theorem SameStep.map {ρ ρ' τ τ' : Type} {Same : ρ → ρ' → Prop} {Same' : τ → τ' → Prop}
    {p : Program State Go.Locals ρ} {p' : Program State Python.Locals ρ'} (h : SameStep Same p p')
    (f : ρ → τ) (g : ρ' → τ') (hfg : ∀ r r', Same r r' → Same' (f r) (g r')) :
    SameStep Same' (p.map f) (p'.map g) := by
  intro s n hs hn
  obtain ⟨hstate, hbelow, hsame⟩ := h s n hs hn
  exact ⟨hstate, hbelow, hfg _ _ hsame⟩

/-- A result, and what the handler returned. -/
def SameHandled (action : Go.Action) (df : Go.DataFixed) (counted : Option Accepted)
    (ar : Go.ActionResult) (handled : Python.Handled) : Prop :=
  (∃ err text, counted = none ∧ ar = Go.buildResult action df [] 0 err ∧
    handled = ⟨none, 0, some text⟩) ∨
  ∃ a n, counted = some a ∧ ar = Go.buildResult action df
      (Utf8.encode (responseOf a.kind Go.escaped a.text n)) 1 [] ∧
    handled = ⟨some (Python.dumped (responseOf a.kind Python.escaped a.text n)), 1, none⟩

theorem sameStep_failed (action : Go.Action) (df : Go.DataFixed) (err text : Str) :
    SameStep (SameHandled action df none) (.pure {} (Go.buildResult action df [] 0 err))
      (Python.failed text) :=
  fun _ _ hs _ => ⟨rfl, hs.succ, Or.inl ⟨err, text, rfl, rfl, rfl⟩⟩

theorem sameStep_greet (action : Go.Action) (df : Go.DataFixed) (greeting : Str) :
    SameStep (SameHandled action df (some ⟨.greeting, greeting⟩))
      (Go.locked (Go.greetMoves greeting) fun l =>
        Go.buildResult action df (Utf8.encode (sayHelloResponse Go.escaped greeting l.number)) 1 [])
      (Python.locked (Python.greetMoves greeting) fun l =>
        ⟨some (Python.dumped (sayHelloResponse Python.escaped greeting l.number)), 1, none⟩) := by
  intro s n hs hn
  obtain ⟨h₁, h₂, h₃, h₄⟩ := hs
  have hcount : Go.int (s.greetingCount + 1) = s.greetingCount + 1 :=
    Go.int_eq (by omega) (by omega)
  simp only [Program.run, Go.locked, Python.locked, Go.greetMoves, Python.greetMoves, exec, hcount]
  refine ⟨trivial, ⟨?_, ?_, h₃, ?_⟩, Or.inr ⟨⟨.greeting, greeting⟩, s.greetingCount + 1, rfl, rfl, rfl⟩⟩
  · dsimp only
    omega
  · dsimp only
    omega
  · dsimp only
    omega

theorem sameStep_farewell (action : Go.Action) (df : Go.DataFixed) (farewell : Str) :
    SameStep (SameHandled action df (some ⟨.farewell, farewell⟩))
      (Go.locked (Go.farewellMoves farewell) fun l =>
        Go.buildResult action df (Utf8.encode (sayGoodbyeResponse Go.escaped farewell l.number)) 1 [])
      (Python.locked (Python.farewellMoves farewell) fun l =>
        ⟨some (Python.dumped (sayGoodbyeResponse Python.escaped farewell l.number)), 1, none⟩) := by
  intro s n hs hn
  obtain ⟨h₁, h₂, h₃, h₄⟩ := hs
  have hcount : Go.int (s.farewellCount + 1) = s.farewellCount + 1 :=
    Go.int_eq (by omega) (by omega)
  simp only [Program.run, Go.locked, Python.locked, Go.farewellMoves, Python.farewellMoves, exec,
    hcount]
  refine ⟨trivial, ⟨h₁, ?_, ?_, ?_⟩, Or.inr ⟨⟨.farewell, farewell⟩, s.farewellCount + 1, rfl, rfl, rfl⟩⟩
  · dsimp only
    omega
  · dsimp only
    omega
  · dsimp only
    omega

variable {go py}

theorem sameStep_sayHello {action : Go.Action} {df : Go.DataFixed}
    (h : SameHello go py df.originalMessage) :
    ∃ run, Python.handleSayHello py (.str (bytesToHex df.originalMessage)) = .ok run ∧
      SameStep (SameHandled action df (Go.sayHelloAccepted go df))
        (Go.processSayHello go action df) run := by
  simp only [Python.handleSayHello, Python.hexToBytes_bytesToHex, Go.processSayHello,
    Go.sayHelloAccepted]
  rcases h with ⟨name, req, hgo, hloads, hread⟩ | ⟨⟨err, hgo⟩, hpython⟩
  · rw [hgo, hloads]
    simp only [hread, Except.toOption, Option.bind_some]
    by_cases hname : name = []
    · simp only [if_pos hname]
      exact ⟨_, rfl, sameStep_failed action df _ _⟩
    · simp only [if_neg hname]
      exact ⟨_, rfl, sameStep_greet action df _⟩
  · rw [hgo]
    rcases hpython with ⟨text, hloads⟩ | ⟨req, text, hloads, hread⟩
    · rw [hloads]
      exact ⟨_, rfl, sameStep_failed action df _ _⟩
    · rw [hloads]
      simp only [hread]
      exact ⟨_, rfl, sameStep_failed action df _ _⟩

theorem sameStep_sayGoodbye {action : Go.Action} {df : Go.DataFixed}
    (h : SameGoodbye go py df.originalMessage) :
    ∃ run, Python.handleSayGoodbye py (.str (bytesToHex df.originalMessage)) = .ok run ∧
      SameStep (SameHandled action df (Go.sayGoodbyeAccepted go df))
        (Go.processSayGoodbye go action df) run := by
  simp only [Python.handleSayGoodbye, Python.hexToBytes_bytesToHex, Go.processSayGoodbye,
    Go.sayGoodbyeAccepted]
  rcases h with ⟨request, hgo, habi⟩ | ⟨⟨err, hgo⟩, text, habi⟩
  · obtain ⟨name, reason⟩ := request
    rw [hgo, habi]
    simp only [Except.toOption, Option.bind_some]
    by_cases hname : name = []
    · simp only [if_pos hname]
      exact ⟨_, rfl, sameStep_failed action df _ _⟩
    · simp only [if_neg hname]
      exact ⟨_, rfl, sameStep_farewell action df _⟩
  · rw [hgo, habi]
    exact ⟨_, rfl, sameStep_failed action df _ _⟩

/-- The fields that Python takes from its own reading. -/
def asParsed (action : Go.Action) : Python.ActionData :=
  ⟨.str action.id.hex, .str action.submissionTag, .str (bytesToHex action.message)⟩

def asParsedFixed (df : Go.DataFixed) : Python.DataFixed :=
  ⟨.str df.opType.hex, .str df.opCommand.hex, .str (bytesToHex df.originalMessage)⟩

theorem keyed_asParsed (df : Go.DataFixed) : Python.Keyed (asParsedFixed df) :=
  ⟨⟨_, rfl⟩, _, rfl⟩

theorem dumped_ne_nil (text : Str) : Python.dumped text ≠ [] := by
  simp [Python.dumped, bytesToHex, hexPrefix]

theorem sameResult_of_handled {action : Go.Action} {df : Go.DataFixed} {counted : Option Accepted}
    {ar : Go.ActionResult} {handled : Python.Handled} (h : SameHandled action df counted ar handled) :
    SameResult counted ar (Python.actionResult (asParsed action) (asParsedFixed df) handled) := by
  rcases h with ⟨err, text, hnone, rfl, rfl⟩ | ⟨a, n, ha, rfl, rfl⟩
  · exact ⟨rfl, rfl, rfl, rfl, rfl, rfl, Or.inr ⟨rfl, List.prefix_append _ _, List.prefix_append _ _⟩,
      rfl, Or.inl ⟨hnone, rfl, rfl⟩⟩
  · refine ⟨rfl, rfl, rfl, rfl, rfl, rfl, Or.inl ⟨rfl, rfl, rfl⟩, rfl,
      Or.inr ⟨a, n, ha, rfl, ?_⟩⟩
    rw [Python.actionResult, Python.textOr, if_neg (dumped_ne_nil _)]

theorem answers_of_handled {action : Go.Action} {df : Go.DataFixed} {counted : Option Accepted}
    (ar : Go.ActionResult) (handled : Python.Handled)
    (h : SameHandled action df counted ar handled) :
    Answers counted ⟨200, .result ar⟩
      (Python.respond py (asParsed action) (asParsedFixed df) handled) :=
  ⟨_, Python.respond_keyed py (keyed_asParsed df) _ _, .result (sameResult_of_handled h)⟩

theorem sameStep_unsupported (text text' : Str) :
    SameStep (Answers none) (.pure {} ⟨501, .text text⟩) (.pure {} (.ok ⟨501, .text text'⟩)) :=
  fun _ _ hs _ => ⟨rfl, hs.succ, _, rfl, .unsupported text text' rfl⟩

theorem readAction_sent {body : List UInt8} {action : Go.Action} {df : Go.DataFixed}
    (h : Sent go py body action df) :
    Python.readAction py body = .ok (asParsed action, asParsedFixed df) := by
  obtain ⟨raw, hloads, hparse⟩ := h.parses
  obtain ⟨raw', hloads', hparse'⟩ := h.parsesFixed
  have hmessage := Python.hexToBytes_bytesToHex py action.message
  simp only [Python.readAction, hloads, Python.guarded, hparse, hmessage, hloads', hparse', bind,
    Except.bind]
  rfl

/-- An identifier is the one of a name to both, or to neither. -/
theorem hex_eq_iff (hpads : Pads go) (name : String)
    (hname : name ∈ [Version, OPTypeGreeting, OPCommandSayHello, OPCommandSayGoodbye])
    (b : Bytes32) : b.hex = Python.stringToBytes32Hex name ↔ b = go.toHash name := by
  rw [hpads name hname, Python.stringToBytes32Hex]
  exact ⟨Latch.Bytes32.hex_inj, fun h => by rw [h]⟩

theorem lookup_sent (hpads : Pads go) (df : Go.DataFixed) :
    (Python.framework py).lookup py (asParsedFixed df).opType (asParsedFixed df).opCommand =
      .ok (if df.opType = go.toHash OPTypeGreeting then
        if df.opCommand = go.toHash OPCommandSayHello then some (Python.handleSayHello py)
        else if df.opCommand = go.toHash OPCommandSayGoodbye then some (Python.handleSayGoodbye py)
        else none
      else none) := by
  have hlookup : (Python.framework py).lookup py (asParsedFixed df).opType
      (asParsedFixed df).opCommand =
        .ok (((Python.framework py).search df.opType.hex df.opCommand.hex).or
          ((Python.framework py).search df.opType.hex Python.EMPTY_BYTES32)) := by
    rw [Python.Framework.lookup, asParsedFixed, Python.normalize_hex, Python.normalize_hex]
    rfl
  rw [hlookup, Python.search_framework]
  simp only [hex_eq_iff hpads OPTypeGreeting (by simp),
    hex_eq_iff hpads OPCommandSayHello (by simp), hex_eq_iff hpads OPCommandSayGoodbye (by simp)]

theorem sameStep_action (hpads : Pads go) {body : List UInt8} {action : Go.Action}
    {df : Go.DataFixed} (h : Sent go py body action df) :
    SameStep (Answers (Go.accepted go body)) (Go.program go (.action body))
      (Python.program py (.action body)) := by
  have hpython : Python.program py (.action body) = Python.processAction py body := by
    rw [Python.program, Python.handleRequest, if_pos (by decide), if_pos rfl]
  rw [hpython, Python.processAction, readAction_sent h, Go.program, Go.actionHandler, Go.accepted,
    h.decodes]
  simp only [Except.toOption, Option.bind_some]
  rw [Go.processAction, Go.actionAccepted, h.decodesFixed, Python.routed, lookup_sent hpads]
  simp only [Except.toOption, Option.bind_some]
  rw [Go.processGreeting, Go.greetingAccepted]
  split_ifs with htype hhello hgoodbye
  · obtain ⟨run, hrun, hsame⟩ := sameStep_sayHello (h.hello hhello)
    dsimp only [asParsedFixed]
    rw [hrun]
    exact hsame.map _ _ answers_of_handled
  · obtain ⟨run, hrun, hsame⟩ := sameStep_sayGoodbye (h.goodbye hgoodbye)
    dsimp only [asParsedFixed]
    rw [hrun]
    exact hsame.map _ _ answers_of_handled
  · exact sameStep_unsupported _ _
  · exact sameStep_unsupported _ _

theorem sameStep (hpads : Pads go) {q : Request} (h : Alike go py q) :
    SameStep (Answers ((Go.counts go).counted q)) (Go.program go q) (Python.program py q) := by
  cases q with
  | action body =>
    obtain ⟨action, df, hsent⟩ := h
    exact sameStep_action hpads hsent
  | state =>
    intro s n hs _
    have hversion : (go.toHash Version).hex = Python.stringToBytes32Hex Version := by
      rw [hpads Version (by simp)]
      rfl
    rw [(Python.counts py).reports, (Go.counts go).reports]
    refine ⟨rfl, hs.succ, _, rfl, ?_⟩
    change SameAnswer none ⟨200, .state (go.toHash Version) s⟩
      ⟨200, .state (Python.stringToBytes32Hex Version) s⟩
    rw [← hversion]
    exact .state _ s

/-! ## 5. Requests one after another -/

/-- Both servers, given the same requests one at a time. -/
theorem serial_same (hpads : Pads go) (qs : List Request) (hsent : ∀ q ∈ qs, Alike go py q)
    (hfew : qs.length < 2 ^ 63) :
    (serial (Python.program py) qs {}).1 = (serial (Go.program go) qs {}).1 ∧
      (serial (Go.program go) qs {}).1.Below qs.length := by
  induction qs using List.reverseRecOn with
  | nil => exact ⟨rfl, Int.le_refl _, Int.le_refl _, Int.le_refl _, Int.le_refl _⟩
  | append_singleton qs q ih =>
    rw [List.length_append, List.length_singleton] at hfew ⊢
    obtain ⟨hstate, hbelow⟩ := ih (fun q' hq' => hsent q' (List.mem_append_left _ hq')) (by omega)
    obtain ⟨hstate', hbelow', -⟩ := sameStep hpads
      (hsent q (List.mem_append_right _ (List.mem_singleton_self q))) _ _ hbelow hfew
    rw [serial_append, serial_append, hstate]
    exact ⟨hstate', hbelow'⟩

/-- The reply of the Python extension to the request at a place. -/
theorem serial_answers (hpads : Pads go) {qs : List Request} (hsent : ∀ q ∈ qs, Alike go py q)
    (hfew : qs.length < 2 ^ 63) {k : Nat} {q : Request} {r : Go.Answer} (hq : qs[k]? = some q)
    (hr : (serial (Go.program go) qs {}).2[k]? = some r) :
    ∃ a, (serial (Python.program py) qs {}).2[k]? = some (.ok a) ∧
      SameAnswer ((Go.counts go).counted q) r a := by
  have hk := (List.getElem?_eq_some_iff.mp hq).1
  have hlen : (qs.take k).length = k := List.length_take_of_le (Nat.le_of_lt hk)
  obtain ⟨hstate, hbelow⟩ := serial_same hpads (qs.take k)
    (fun q' hq' => hsent q' (List.mem_of_mem_take hq')) (by omega)
  obtain ⟨-, -, a, ha, hsame⟩ := sameStep hpads (hsent q (List.mem_of_getElem? hq)) _ _ hbelow
    (by omega)
  rw [serial_getElem?, hq, Option.map_some] at hr ⊢
  cases hr
  rw [hstate]
  exact ⟨a, by rw [ha], hsame⟩

/-- **What the Go extension answers to requests in progress together, the Python extension answers
to the same requests one at a time.** -/
theorem conforms (hpads : Pads go) {s : RwLock.State Request State Go.Locals Go.Answer}
    (h : Reachable (Go.program go) {} s) (hsent : ∀ c ∈ s.calls, Alike go py c.request)
    (hfew : s.calls.length < 2 ^ 63) :
    ∃ log, Linear (Go.program go) {} s log ∧ ∀ (k : Nat) (e : Entry Request Go.Answer),
      log[k]? = some e →
      ∃ a, (serial (Python.program py) (log.map Entry.request) {}).2[k]? = some (.ok a) ∧
        SameAnswer ((Go.counts go).counted e.request) e.reply a := by
  obtain ⟨log, hlinear⟩ := linearizable h
  have hlen := Counts.length_le hlinear
  have hmem : ∀ q ∈ log.map Entry.request, Alike go py q := by
    intro q hq
    obtain ⟨e, he, rfl⟩ := List.mem_map.mp hq
    obtain ⟨ph, hc⟩ := hlinear.requests e he
    exact hsent _ (List.mem_of_getElem? hc)
  refine ⟨log, hlinear, fun k e he => ?_⟩
  refine serial_answers hpads hmem (by rw [List.length_map]; omega) ?_ ?_
  · rw [List.getElem?_map, he, Option.map_some]
  · rw [hlinear.replies, List.getElem?_map, he, Option.map_some]

/-! ## 6. `data` -/

theorem parse_responseOf (num : Numbers) (kind : Kind) (text : Str) (n : Int) :
    ∃ j, JsonText.parse num (responseOf kind Go.escaped text n) = some j ∧
      JsonText.parse num (responseOf kind Python.escaped text n) = some j := by
  cases kind with
  | greeting => exact ⟨_, parse_response num Go.readsBack (by decide) text n,
      parse_response num Python.readsBack (by decide) text n⟩
  | farewell => exact ⟨_, parse_response num Go.readsBack (by decide) text n,
      parse_response num Python.readsBack (by decide) text n⟩

theorem responseOf_eq_iff (kind : Kind) (text : Str) (n : Int) :
    responseOf kind Go.escaped text n = responseOf kind Python.escaped text n ↔
      ∀ c ∈ text, Portable c := by
  cases kind with
  | greeting => exact response_eq_iff _ _ text n
  | farewell => exact response_eq_iff _ _ text n

theorem dumped_eq_iff (t t' : Str) : Python.dumped t' = bytesToHex (Utf8.encode t) ↔ t = t' := by
  constructor
  · intro h
    have hbytes := congrArg Latch.hexToBytes h
    rw [Python.dumped, Latch.hexToBytes_bytesToHex, Latch.hexToBytes_bytesToHex] at hbytes
    exact (Utf8.encode_inj (Except.ok.inj hbytes)).symm
  · rintro rfl
    rfl

/-- Two encodings of one value, which are the same where every character is portable. -/
def SameJson (text : Str) (data : List UInt8) (hex : Str) : Prop :=
  ∃ t t', data = Utf8.encode t ∧ hex = Python.dumped t' ∧
    (∀ num : Numbers, ∃ j, JsonText.parse num t = some j ∧ JsonText.parse num t' = some j) ∧
    (hex = bytesToHex data ↔ ∀ c ∈ text, Portable c)

theorem SameData.json {a : Accepted} {data : List UInt8} {hex : Str}
    (h : SameData (some a) data hex) : SameJson a.text data hex := by
  rcases h with ⟨hnone, -⟩ | ⟨a', n, ha, rfl, rfl⟩
  · cases hnone
  · cases ha
    refine ⟨_, _, rfl, rfl, fun num => parse_responseOf num a.kind a.text n, ?_⟩
    rw [dumped_eq_iff, responseOf_eq_iff]

/-- Where the text is portable, and where there is none, the bytes are the same. -/
theorem SameData.hex_eq {counted : Option Accepted} {data : List UInt8} {hex : Str}
    (h : SameData counted data hex)
    (hportable : ∀ a, counted = some a → ∀ c ∈ a.text, Portable c) : hex = bytesToHex data := by
  cases counted with
  | none =>
    rcases h with ⟨-, rfl, rfl⟩ | ⟨a, n, hnone, -⟩
    · rfl
    · cases hnone
  | some a =>
    obtain ⟨t, t', -, -, -, hiff⟩ := h.json
    exact hiff.mpr (hportable a rfl)

/-- What is counted is answered by a result. -/
theorem SameAnswer.json {a : Accepted} {ar : Go.ActionResult} {r' : Python.Answer}
    (h : SameAnswer (some a) ⟨200, .result ar⟩ r') :
    ∃ r, r' = ⟨200, .result r⟩ ∧ SameJson a.text ar.data r.data := by
  cases h with
  | result h => exact ⟨_, rfl, h.data.json⟩

/-- **`data` is the same JSON value from both extensions**, and the same bytes exactly when no
character of the text is escaped by one of them only. -/
theorem conforms_data (hpads : Pads go) {s : RwLock.State Request State Go.Locals Go.Answer}
    (h : Reachable (Go.program go) {} s) (hsent : ∀ c ∈ s.calls, Alike go py c.request)
    (hfew : s.calls.length < 2 ^ 63) :
    ∃ log, Linear (Go.program go) {} s log ∧ ∀ (k : Nat) (e : Entry Request Go.Answer)
      (a : Accepted), log[k]? = some e → (Go.counts go).counted e.request = some a →
      ∃ ar r, e.reply = ⟨200, .result ar⟩ ∧
        (serial (Python.program py) (log.map Entry.request) {}).2[k]? =
          some (.ok ⟨200, .result r⟩) ∧ SameJson a.text ar.data r.data := by
  obtain ⟨log, hlinear, hsame⟩ := conforms hpads h hsent hfew
  refine ⟨log, hlinear, fun k e a he ha => ?_⟩
  obtain ⟨ar, hreply, -⟩ := ((Go.counts go).history_of_linear hlinear).numbered k e a he ha
  obtain ⟨answer, hanswer, hsameAnswer⟩ := hsame k e he
  rw [ha, hreply] at hsameAnswer
  obtain ⟨r, rfl, hjson⟩ := hsameAnswer.json
  exact ⟨ar, r, hreply, hanswer, hjson⟩

namespace Fixture

theorem sayGoodbye_ne_sayHello : sayGoodbye ≠ sayHello := by decide +kernel

theorem farewell_ne_hello : farewell ≠ hello := by decide +kernel

/-- Both extensions read the greeting alike. -/
theorem sent_sayHello : Sent library python sayHello ⟨ACTION_ID, "submit".toList, hello⟩
    ⟨Bytes32.ofText OPTypeGreeting, Bytes32.ofText OPCommandSayHello, name "World"⟩ where
  decodes := by
    rw [library]
    dsimp only
    rw [if_pos rfl]
  decodesFixed := by
    rw [library]
    dsimp only
    rw [if_pos rfl]
  parses := ⟨actionJson hello, by
    rw [python]
    dsimp only
    rw [if_pos rfl], rfl⟩
  parsesFixed := ⟨dataFixedJson OPTypeGreeting OPCommandSayHello (name "World"), by
    rw [python]
    dsimp only
    rw [if_neg (by decide), if_neg (by decide), if_pos rfl], rfl⟩
  hello _ := Or.inl ⟨"World".toList, Json.obj [("name".toList, .str "World".toList)],
    by
      rw [library]
      dsimp only
      rw [if_pos rfl],
    by
      rw [python]
      dsimp only
      rw [if_neg (by decide), if_neg (by decide), if_neg (by decide), if_neg (by decide),
        if_pos rfl], rfl⟩
  goodbye h := absurd h (by decide)

/-- And the farewell, whose payload is of the ABI. -/
theorem sent_sayGoodbye : Sent library python sayGoodbye ⟨ACTION_ID, "submit".toList, farewell⟩
    ⟨Bytes32.ofText OPTypeGreeting, Bytes32.ofText OPCommandSayGoodbye,
      Fixture.goodbye "World" "done"⟩ where
  decodes := by
    rw [library]
    dsimp only
    rw [if_neg sayGoodbye_ne_sayHello, if_pos rfl]
  decodesFixed := by
    rw [library]
    dsimp only
    rw [if_neg farewell_ne_hello, if_pos rfl]
  parses := ⟨actionJson farewell, by
    rw [python]
    dsimp only
    rw [if_neg sayGoodbye_ne_sayHello, if_pos rfl], rfl⟩
  parsesFixed := ⟨dataFixedJson OPTypeGreeting OPCommandSayGoodbye (Fixture.goodbye "World" "done"),
    by
      rw [python]
      dsimp only
      rw [if_neg (by decide), if_neg (by decide), if_neg farewell_ne_hello, if_pos rfl], rfl⟩
  hello h := absurd h (by decide)
  goodbye _ := Or.inl ⟨("World".toList, "done".toList),
    by
      rw [library]
      dsimp only
      rw [if_pos rfl],
    by
      rw [python]
      dsimp only
      rw [if_pos rfl]⟩

theorem pads : Pads library := fun _ _ => rfl

/-- What the schedule sends. -/
theorem request_cases {c : RwLock.Call Request State Go.Locals Go.Answer}
    (hc : c ∈ (after (Go.program library) {} schedule).calls) :
    c.request = .action sayHello ∨ c.request = .action sayGoodbye ∨ c.request = .state := by
  have hmem := (calls_after (Go.program library) {} schedule).2 c hc
  have hcases : c.request = .action sayHello ∨ c.request = .state ∨
      c.request = .action sayGoodbye ∨ c.request = .action sayHello := by
    simpa [schedule] using hmem
  rcases hcases with h | h | h | h
  · exact Or.inl h
  · exact Or.inr (Or.inr h)
  · exact Or.inr (Or.inl h)
  · exact Or.inl h

theorem alike : ∀ c ∈ (after (Go.program library) {} schedule).calls,
    Alike library python c.request := by
  intro c hc
  rcases request_cases hc with h | h | h
  · rw [h]
    exact ⟨_, _, sent_sayHello⟩
  · rw [h]
    exact ⟨_, _, sent_sayGoodbye⟩
  · rw [h]
    exact trivial

/-- Fewer requests than an `int` can count. -/
theorem few : (after (Go.program library) {} schedule).calls.length < 2 ^ 63 :=
  Nat.lt_of_le_of_lt (calls_after _ _ schedule).1 (by decide)

theorem accepted_sayHello :
    Go.accepted library sayHello = some ⟨.greeting, greetingOf "World".toList⟩ := by
  have hname : library.decodeSayHello (name "World") = .ok "World".toList := by
    rw [library]
    dsimp only
    rw [if_pos rfl]
  rw [sent_sayHello.accepted, pads OPTypeGreeting (by simp), if_pos rfl, Go.greetingAccepted,
    pads OPCommandSayHello (by simp), if_pos rfl, Go.sayHelloAccepted, hname]
  rfl

theorem accepted_sayGoodbye :
    Go.accepted library sayGoodbye = some ⟨.farewell, farewellOf "World".toList "done".toList⟩ := by
  have hrequest : library.decodeSayGoodbye (Fixture.goodbye "World" "done") =
      .ok ("World".toList, "done".toList) := by
    rw [library]
    dsimp only
    rw [if_pos rfl]
  rw [sent_sayGoodbye.accepted, pads OPTypeGreeting (by simp), if_pos rfl, Go.greetingAccepted,
    pads OPCommandSayHello (by simp), if_neg (by decide), pads OPCommandSayGoodbye (by simp),
    if_pos rfl, Go.sayGoodbyeAccepted, hrequest]
  rfl

/-- Both texts are plain. -/
theorem portable {c : RwLock.Call Request State Go.Locals Go.Answer}
    (hc : c ∈ (after (Go.program library) {} schedule).calls) (a : Accepted)
    (ha : (Go.counts library).counted c.request = some a) : ∀ ch ∈ a.text, Portable ch := by
  rcases request_cases hc with h | h | h
  · rw [h, Go.counted_action, accepted_sayHello] at ha
    cases ha
    exact fun ch hch => of_decide_eq_true
      (List.all_eq_true (p := fun ch => decide (Portable ch)).mp (by decide) ch hch)
  · rw [h, Go.counted_action, accepted_sayGoodbye] at ha
    cases ha
    exact fun ch hch => of_decide_eq_true
      (List.all_eq_true (p := fun ch => decide (Portable ch)).mp (by decide) ch hch)
  · rw [h] at ha
    cases ha

/-- A call with `data` has been answered with a result. -/
theorem replied_of_data {c : RwLock.Call Request State Go.Locals Go.Answer} {bytes : List UInt8}
    (h : data c = some bytes) : ∃ code ar made,
      c.phase = .replied ⟨code, .result ar⟩ made ∧ ar.data = bytes := by
  unfold data at h
  split at h
  case h_1 code ar made hphase => exact ⟨code, ar, made, hphase, Option.some.inj h⟩
  case h_2 => cases h

end Fixture

/-- Both commands are sent while the state is read, and the Python extension answers them with the
bytes that the Go extension answers. -/
theorem conforms_fixture : ∃ log,
    Linear (Go.program Fixture.library) {} (after (Go.program Fixture.library) {} Fixture.schedule)
      log ∧
    ∀ (i : Nat) (bytes : List UInt8), Fixture.responses[i]? = some (some bytes) →
      ∃ (k : Nat) (r : Python.ActionResult), (log.map Entry.call)[k]? = some i ∧
        (serial (Python.program Fixture.python) (log.map Entry.request) {}).2[k]? =
          some (.ok ⟨200, .result r⟩) ∧ r.data = bytesToHex bytes := by
  obtain ⟨log, hlinear, hsame⟩ :=
    conforms Fixture.pads (reachable_after _ _ _) Fixture.alike Fixture.few
  refine ⟨log, hlinear, fun i bytes hbytes => ?_⟩
  rw [← Go.responses_fixture, List.getElem?_map] at hbytes
  obtain ⟨⟨q, phase⟩, hc, hdata⟩ := Option.map_eq_some_iff.mp hbytes
  obtain ⟨code, ar, made, rfl, rfl⟩ := Fixture.replied_of_data hdata
  obtain ⟨k, hk⟩ := List.getElem?_of_mem (hlinear.replied i q _ made hc)
  obtain ⟨a, ha, hanswer⟩ := hsame k _ hk
  cases hanswer with
  | result hresult =>
    refine ⟨k, _, ?_, ha, hresult.data.hex_eq (Fixture.portable (List.mem_of_getElem? hc))⟩
    rw [List.getElem?_map, hk, Option.map_some]

theorem conforms_data_fixture : ∃ log,
    Linear (Go.program Fixture.library) {} (after (Go.program Fixture.library) {} Fixture.schedule)
      log ∧
    ∀ (k : Nat) (e : Entry Request Go.Answer) (a : Accepted), log[k]? = some e →
      (Go.counts Fixture.library).counted e.request = some a →
      ∃ ar r, e.reply = ⟨200, .result ar⟩ ∧
        (serial (Python.program Fixture.python) (log.map Entry.request) {}).2[k]? =
          some (.ok ⟨200, .result r⟩) ∧ SameJson a.text ar.data r.data :=
  conforms_data Fixture.pads (reachable_after _ _ _) Fixture.alike Fixture.few

end OneSig.Greeting
