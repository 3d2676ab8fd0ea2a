/-
# What a reply says is read back

A handler encodes its payload with `JSON.stringify`, the server writes the bytes of the text as
hexadecimal, and a client decodes them with `JSON.parse`.  This module shows that the client gets
the value the handler had in mind, `Payload.value`, so that results about payloads are results
about what a client sees.

The strings of a payload are hexadecimal and its numbers come from parsed JSON or from the clock,
so the text needs no escapes and reads back.  Both facts have to be known of the memory, since
that is where payloads come from: an intent that is `Readable` has an address, bytes and a
commitment in plain characters, and a deadline that JSON can hold.

* `stringify_value`: the text the server sends is the text of the value.  The server's quoting
  puts quotes around a string and escapes nothing, which is right for plain strings.
* `Payload.Readable.decoded`: what a client decodes is what the handler encoded.
* `parseArm_readable` and `handle_readable`: an ARM message that is accepted asks for a readable
  intent, and every command leaves the memory readable.
* `readable_run`: the memory is readable in every reachable state, along every run in which the
  clock and the ticks are given numbers.  It is a discipline of the machine, so it holds between
  any two steps of overlapping ticks as well.
* `handle_payload`: so what a handler replies is readable.
-/
import OneSig.JsonStringify
import OneSig.Latch.Seal
import OneSig.Latch.Server

namespace OneSig.Latch

open Async JsonText

variable {o : Options} {num : Numbers}

/-! ## 1. The value of a payload -/

/-- A number as a JSON value. -/
def numberValue (num : Numbers) (q : ℚ) : Json := .num q (num.text q)

/-- The members of what a handler encodes. -/
def Payload.fields (num : Numbers) : Payload → List (Str × Json)
  | .armed commitment alreadyArmed =>
    [("armed".toList, .bool true), ("commitment".toList, .str commitment)] ++
      if alreadyArmed then [("alreadyArmed".toList, .bool true)] else []
  | .unknown => [("state".toList, .str "unknown".toList)]
  | .status state armedAt deadline firedAt =>
    [("state".toList, .str state.text), ("armedAt".toList, numberValue num armedAt),
      ("deadline".toList, numberValue num deadline)] ++
      firedAt.elim [] fun t => [("firedAt".toList, numberValue num t)]
  | .cancelled commitment =>
    [("cancelled".toList, .bool true), ("commitment".toList, .str commitment)]
  | .released userOpData firedAt =>
    [("userOpData".toList, .str userOpData),
      ("firedAt".toList, firedAt.elim .null (numberValue num))]

def Payload.value (num : Numbers) (payload : Payload) : Json := .obj (payload.fields num)

/-- The strings of a payload that are not fixed. -/
def Payload.texts : Payload → List Str
  | .armed commitment _ => [commitment]
  | .unknown => []
  | .status _ _ _ _ => []
  | .cancelled commitment => [commitment]
  | .released userOpData _ => [userOpData]

def Payload.numbers : Payload → List ℚ
  | .armed _ _ => []
  | .unknown => []
  | .status _ armedAt deadline firedAt => armedAt :: deadline :: firedAt.toList
  | .cancelled _ => []
  | .released _ firedAt => firedAt.toList

/-- Nothing in the payload needs an escape, and its numbers are JSON's. -/
structure Payload.Readable (num : Numbers) (payload : Payload) : Prop where
  texts : ∀ s ∈ payload.texts, Unescaped s
  numbers : ∀ q ∈ payload.numbers, num.Double q

theorem plain_state (state : IntentState) : Unescaped state.text := by
  cases state <;> decide

section Payload

variable {payload : Payload}

theorem Payload.fields_nodup (payload : Payload) : ((payload.fields num).map Prod.fst).Nodup := by
  cases payload with
  | armed commitment alreadyArmed =>
    cases alreadyArmed with
    | true => exact (by decide : ["armed".toList, "commitment".toList, "alreadyArmed".toList].Nodup)
    | false => exact (by decide : ["armed".toList, "commitment".toList].Nodup)
  | unknown => exact List.nodup_singleton _
  | status state armedAt deadline firedAt =>
    cases firedAt with
    | some t =>
      exact (by decide :
        ["state".toList, "armedAt".toList, "deadline".toList, "firedAt".toList].Nodup)
    | none => exact (by decide : ["state".toList, "armedAt".toList, "deadline".toList].Nodup)
  | cancelled commitment => exact (by decide : ["cancelled".toList, "commitment".toList].Nodup)
  | released userOpData firedAt =>
    exact (by decide : ["userOpData".toList, "firedAt".toList].Nodup)

theorem Payload.Readable.value_wellformed (h : payload.Readable num) :
    Wellformed num (payload.value num) := by
  refine .obj payload.fields_nodup ?_
  have hnumber : ∀ q ∈ payload.numbers, Wellformed num (numberValue num q) :=
    fun q hq => .num (h.numbers q hq)
  cases payload with
  | armed commitment alreadyArmed =>
    cases alreadyArmed <;> simp [Payload.fields, Wellformed.bool, Wellformed.str]
  | unknown => simp [Payload.fields, Wellformed.str]
  | status state armedAt deadline firedAt =>
    simp only [Payload.numbers, List.forall_mem_cons] at hnumber
    obtain ⟨harmed, hdeadline, hfired⟩ := hnumber
    cases firedAt with
    | none => simp [Payload.fields, Wellformed.str, harmed, hdeadline]
    | some t => simp [Payload.fields, Wellformed.str, harmed, hdeadline, hfired t (by simp)]
  | cancelled commitment => simp [Payload.fields, Wellformed.bool, Wellformed.str]
  | released userOpData firedAt =>
    cases firedAt with
    | none => simp [Payload.fields, Wellformed.str, Wellformed.null]
    | some t => simp [Payload.fields, Wellformed.str, hnumber t (by simp [Payload.numbers])]

/-- **The text the server sends is the text of the value** that the handler has built, with its
numbers printed as JavaScript prints them. -/
theorem Payload.Readable.stringify_value (h : payload.Readable num) :
    JsonText.stringify (payload.value num) = payload.stringify num := by
  have hquote : ∀ s, Unescaped s → quote s = quoted s := fun s hs => quote_plain hs
  have hcommitment : quote "commitment".toList = "\"commitment\"".toList := by decide
  have hfired : quote "firedAt".toList = "\"firedAt\"".toList := by decide
  cases payload with
  | armed commitment alreadyArmed =>
    have hc := hquote commitment (h.texts commitment (List.mem_singleton_self _))
    cases alreadyArmed with
    | true =>
      change '\x7b' :: (quote "armed".toList ++ ':' :: ("true".toList ++ ',' ::
        (quote "commitment".toList ++ ':' :: (quote commitment ++ ',' ::
          (quote "alreadyArmed".toList ++ ':' :: "true".toList)))) ++ ['\x7d']) = 
        "\x7b\"armed\":true,\"commitment\":".toList ++ quoted commitment ++
          ",\"alreadyArmed\":true\x7d".toList
      rw [hc, hcommitment]
      simp only [List.append_assoc, List.cons_append]
      rfl
    | false =>
      change '\x7b' :: (quote "armed".toList ++ ':' :: ("true".toList ++ ',' ::
        (quote "commitment".toList ++ ':' :: quote commitment)) ++ ['\x7d']) = _
      rw [hc]
      rfl
  | unknown => rfl
  | status state armedAt deadline firedAt =>
    have hs := hquote state.text (plain_state state)
    have hstate : quote "state".toList = "\"state\"".toList := by decide
    have harmed : quote "armedAt".toList = "\"armedAt\"".toList := by decide
    have hdeadline : quote "deadline".toList = "\"deadline\"".toList := by decide
    cases firedAt with
    | none =>
      change '\x7b' :: (quote "state".toList ++ ':' :: (quote state.text ++ ',' ::
        (quote "armedAt".toList ++ ':' :: (num.text armedAt ++ ',' ::
          (quote "deadline".toList ++ ':' :: num.text deadline)))) ++ ['\x7d']) = 
        "\x7b\"state\":".toList ++ quoted state.text ++ ",\"armedAt\":".toList ++
          num.text armedAt ++ ",\"deadline\":".toList ++ num.text deadline ++ [] ++
          "\x7d".toList
      rw [hs, hstate, harmed, hdeadline]
      simp only [List.append_assoc, List.cons_append, List.nil_append]
      rfl
    | some t =>
      change '\x7b' :: (quote "state".toList ++ ':' :: (quote state.text ++ ',' ::
        (quote "armedAt".toList ++ ':' :: (num.text armedAt ++ ',' ::
          (quote "deadline".toList ++ ':' :: (num.text deadline ++ ',' ::
            (quote "firedAt".toList ++ ':' :: num.text t)))))) ++ ['\x7d']) = 
        "\x7b\"state\":".toList ++ quoted state.text ++ ",\"armedAt\":".toList ++
          num.text armedAt ++ ",\"deadline\":".toList ++ num.text deadline ++
          (",\"firedAt\":".toList ++ num.text t) ++ "\x7d".toList
      rw [hs, hstate, harmed, hdeadline, hfired]
      simp only [List.append_assoc, List.cons_append]
      rfl
  | cancelled commitment =>
    have hc := hquote commitment (h.texts commitment (List.mem_singleton_self _))
    change '\x7b' :: (quote "cancelled".toList ++ ':' :: ("true".toList ++ ',' ::
      (quote "commitment".toList ++ ':' :: quote commitment)) ++ ['\x7d']) = _
    rw [hc]
    rfl
  | released userOpData firedAt =>
    have hd := hquote userOpData (h.texts userOpData (List.mem_singleton_self _))
    cases firedAt with
    | none =>
      change '\x7b' :: (quote "userOpData".toList ++ ':' :: (quote userOpData ++ ',' ::
        (quote "firedAt".toList ++ ':' :: "null".toList)) ++ ['\x7d']) = 
        "\x7b\"userOpData\":".toList ++ quoted userOpData ++ ",\"firedAt\":".toList ++
          "null".toList ++ "\x7d".toList
      rw [hd, hfired]
      simp only [List.append_assoc, List.cons_append]
      rfl
    | some t =>
      change '\x7b' :: (quote "userOpData".toList ++ ':' :: (quote userOpData ++ ',' ::
        (quote "firedAt".toList ++ ':' :: num.text t)) ++ ['\x7d']) = 
        "\x7b\"userOpData\":".toList ++ quoted userOpData ++ ",\"firedAt\":".toList ++
          num.text t ++ "\x7d".toList
      rw [hd, hfired]
      simp only [List.append_assoc, List.cons_append]
      rfl

/-! ## 2. The bytes of a payload -/

def Ascii (s : Str) : Prop := ∀ c ∈ s, c.toNat < 128

instance (s : Str) : Decidable (Ascii s) := List.decidableBAll (fun c : Char => c.toNat < 128) s

theorem Ascii.append {s t : Str} (hs : Ascii s) (ht : Ascii t) : Ascii (s ++ t) := by
  intro c hc
  rcases List.mem_append.mp hc with hc | hc
  · exact hs c hc
  · exact ht c hc

theorem ascii_plain {s : Str} (h : Unescaped s) : Ascii s := fun c hc => (h c hc).2.1

theorem ascii_quoted {s : Str} (h : Unescaped s) : Ascii (quoted s) :=
  ((by decide : Ascii "\"".toList).append (ascii_plain h)).append (by decide)

/-- A text of ASCII is its own encoding. -/
theorem textToHex_eq {s : Str} (h : Ascii s) : textToHex s = bytesToHex (Utf8.encode s) := by
  have hbytes : s.map (fun c => UInt8.ofNat c.toNat) = Utf8.encode s := by
    induction s with
    | nil => rfl
    | cons c s ih =>
      have hpoint : Utf8.encodePoint c.toNat = [c.toNat] := if_pos (h c (List.mem_cons_self ..))
      rw [Utf8.encode_cons, hpoint, List.map_cons, ih fun d hd => h d (List.mem_cons_of_mem c hd)]
      rfl
  rw [textToHex, hbytes]

theorem Payload.Readable.ascii (hnum : num.Lawful) (h : payload.Readable num) :
    Ascii (payload.stringify num) := by
  have htext : ∀ q ∈ payload.numbers, Ascii (num.text q) :=
    fun q hq => ascii_plain (number_plain (hnum.literal q (h.numbers q hq)))
  cases payload with
  | armed commitment alreadyArmed =>
    have hc := ascii_quoted (h.texts commitment (List.mem_singleton_self _))
    cases alreadyArmed with
    | true => exact ((by decide : Ascii _).append hc).append (by decide)
    | false => exact ((by decide : Ascii _).append hc).append (by decide)
  | unknown => exact (by decide : Ascii "\x7b\"state\":\"unknown\"\x7d".toList)
  | status state armedAt deadline firedAt =>
    have hs := ascii_quoted (plain_state state)
    have harmed := htext armedAt (by simp [Payload.numbers])
    have hdeadline := htext deadline (by simp [Payload.numbers])
    have hbase : Ascii ("\x7b\"state\":".toList ++ quoted state.text ++ ",\"armedAt\":".toList ++
        num.text armedAt ++ ",\"deadline\":".toList ++ num.text deadline) :=
      (((((by decide : Ascii _).append hs).append (by decide)).append harmed).append
        (by decide)).append hdeadline
    cases firedAt with
    | none => exact (hbase.append (by decide : Ascii [])).append (by decide)
    | some t =>
      have hfired := htext t (by simp [Payload.numbers])
      have hmember : Ascii (",\"firedAt\":".toList ++ num.text t) :=
        (by decide : Ascii _).append hfired
      exact (hbase.append hmember).append (by decide)
  | cancelled commitment =>
    have hc := ascii_quoted (h.texts commitment (List.mem_singleton_self _))
    exact ((by decide : Ascii _).append hc).append (by decide)
  | released userOpData firedAt =>
    have hd := ascii_quoted (h.texts userOpData (List.mem_singleton_self _))
    have hbase : Ascii ("\x7b\"userOpData\":".toList ++ quoted userOpData ++
        ",\"firedAt\":".toList) := ((by decide : Ascii _).append hd).append (by decide)
    cases firedAt with
    | none => exact (hbase.append (by decide : Ascii "null".toList)).append (by decide)
    | some t => exact (hbase.append (htext t (by simp [Payload.numbers]))).append (by decide)

/-- **What a client decodes is what the handler encoded**: the hex is taken off, the bytes are
decoded as UTF-8, and the text is parsed. -/
theorem Payload.Readable.decoded (hnum : num.Lawful) (h : payload.Readable num) :
    JsonText.parse num (Utf8.decode (Bytes.hexDecodePrefix
      ((textToHex (payload.stringify num)).drop 2))) = some (payload.value num) := by
  have hdrop : (bytesToHex (Utf8.encode (payload.stringify num))).drop 2 =
      Bytes.hexEncode (Utf8.encode (payload.stringify num)) := rfl
  rw [textToHex_eq (h.ascii hnum), hdrop,
    Bytes.hexDecodePrefix_of_hexDecode _ _ (Bytes.hexDecode_hexEncode _), Utf8.decode_encode,
    ← h.stringify_value, parse_stringify hnum h.value_wellformed]

end Payload

/-! ## 3. The memory -/

/-- What the enclave keeps of an intent is readable. -/
structure Intent.Readable (num : Numbers) (intent : Intent) : Prop where
  userOpData : Unescaped intent.userOpData
  armedAt : num.Double intent.armedAt
  deadline : num.Double intent.deadline
  firedAt : ∀ t, intent.firedAt = some t → num.Double t

structure Memory.Readable (num : Numbers) (m : Memory) : Prop where
  now : num.Double m.now
  intents : ∀ intent ∈ m.heap, intent.Readable num

section Memory

variable {m : Memory} {r : Ref} {f : Intent → Intent}

theorem Intent.Readable.drop {intent : Intent} (h : intent.Readable num) (state : IntentState) :
    (intent.drop state).Readable num :=
  ⟨(by decide : Unescaped hexPrefix), h.armedAt, h.deadline, h.firedAt⟩

theorem Intent.Readable.fire {intent : Intent} (h : intent.Readable num) {now : ℚ}
    (hnow : num.Double now) : (intent.fire now).Readable num := by
  refine ⟨h.userOpData, h.armedAt, h.deadline, ?_⟩
  rintro t ⟨⟩
  exact hnow

theorem Intent.Readable.collect {intent : Intent} (h : intent.Readable num) :
    intent.collect.Readable num := ⟨h.userOpData, h.armedAt, h.deadline, h.firedAt⟩

theorem Memory.Readable.update (h : m.Readable num)
    (hf : ∀ intent : Intent, intent.Readable num → (f intent).Readable num) :
    (m.update r f).Readable num := by
  refine ⟨h.now, fun intent hmem => ?_⟩
  obtain ⟨j, hj⟩ := List.mem_iff_getElem?.mp hmem
  rw [Memory.update_heap] at hj
  split at hj
  · obtain ⟨old, hold, rfl⟩ := Option.map_eq_some_iff.mp hj
    exact hf old (h.intents old (List.mem_of_getElem? hold))
  · exact h.intents intent (List.mem_of_getElem? hj)

theorem plain_hex {digit : Char → Bool} (hdigit : ∀ c, digit c = true → Bytes.isHexDigit c = true)
    {s : Str} (h : isHexText digit s = true) : Unescaped s := by
  have hall : ∀ c ∈ Bytes.anyHexDigits, 0x20 ≤ c.toNat ∧ c.toNat < 0x80 ∧ c ≠ '"' ∧ c ≠ '\\' :=
    Bytes.forall_anyHexDigits (by decide)
  obtain ⟨body, rfl, hbody⟩ := (isHexText_iff digit s).mp h
  intro c hc
  rcases List.mem_append.mp hc with hc | hc
  · exact (by decide : Unescaped hexPrefix) c hc
  · exact hall c (Bytes.mem_anyHexDigits (hdigit c (hbody c hc)))

theorem plain_hash (hv : o.viem.Lawful) {b k : Str} (h : o.viem.keccak256 b = .ok k) : Unescaped k := by
  obtain ⟨bs, -, rfl⟩ := hv.keccak256_shape b k h
  refine plain_hex (fun _ => Bytes.isHexDigit_of_lower) ((isHexText_iff Bytes.isLowerHexDigit _).mpr ?_)
  exact ⟨_, rfl, Bytes.hexEncode_lower bs⟩

theorem numberField_ok {good : ℚ → Bool} {message : String} {j : Option Json} {q : ℚ}
    (h : numberField good message j = .ok q) : ∃ t, j = some (.num q t) := by
  unfold numberField at h
  split at h
  · split at h
    · cases h
      exact ⟨_, rfl⟩
    · cases h
  · cases h

theorem decodeJson_ok {engine : Engine} {msg : Str} {j : Json} (h : decodeJson engine msg = .ok j) :
    ∃ raw, hexToBytes msg = .ok raw ∧ JsonText.parse engine.numbers (Utf8.decode raw) = some j := by
  unfold decodeJson at h
  split at h
  case h_1 => cases h
  case h_2 raw hraw =>
  split at h
  case h_1 hparse =>
    cases h
    exact ⟨raw, hraw, hparse⟩
  case h_2 => cases h
  case h_3 => cases h

/-- What an ARM message asks for is readable. -/
theorem parseArm_readable {msg : Str} {req : ArmRequest} (h : parseArm o msg = .ok req) :
    Unescaped req.userOpData ∧ o.engine.numbers.Double req.deadline := by
  unfold parseArm at h
  obtain ⟨j, hj, h⟩ := bind_ok h
  obtain ⟨userOpData, hdata, h⟩ := bind_ok h
  obtain ⟨commitment, -, h⟩ := bind_ok h
  obtain ⟨-, -, h⟩ := bind_ok h
  obtain ⟨trigger, -, h⟩ := bind_ok h
  obtain ⟨deadline, hdeadline, h⟩ := bind_ok h
  cases h
  have hgood := (stringField_ok hdata).2
  rw [Bool.and_eq_true] at hgood
  refine ⟨plain_hex (fun _ => id) hgood.1, ?_⟩
  obtain ⟨raw, -, hparse⟩ := decodeJson_ok hj
  obtain ⟨t, hfield⟩ := numberField_ok hdeadline
  exact parse_double hparse hfield

/-- A command leaves the memory readable. -/
theorem handle_readable (h : m.Readable o.engine.numbers) (command : Command) (msg : Str) :
    (handle o command msg m).1.Readable o.engine.numbers := by
  have hhandled := handled o command msg m
  generalize handle o command msg m = p at hhandled ⊢
  obtain ⟨m', result⟩ := p
  cases hhandled with
  | quiet hquiet => exact h
  | created hreq hnew hcreated =>
    obtain ⟨hdata, hdeadline⟩ := parseArm_readable hreq
    refine ⟨h.now, fun intent hmem => ?_⟩
    obtain ⟨j, hj⟩ := List.mem_iff_getElem?.mp hmem
    rcases Memory.create_heap hj with hold | ⟨-, rfl⟩
    · exact h.intents intent (List.mem_of_getElem? hold)
    · exact ⟨hdata, h.now, hdeadline, nofun⟩
  | status hname hkey hlookup => exact h
  | cancelled hname hlookup harmed => exact h.update fun _ hi => hi.drop .cancelled
  | collected hname hlookup hstate => exact h.update fun _ hi => hi.collect

/-- An intent that is found is readable, and so is the commitment it is found under. -/
theorem lookup_readable (hv : o.viem.Lawful) (hm : m.Sound o) (h : m.Readable o.engine.numbers)
    {k : Str} {r : Ref} {intent : Intent} (hlookup : m.lookup k = some (r, intent)) :
    Unescaped k ∧ intent.Readable o.engine.numbers := by
  obtain ⟨hk, hr⟩ := Memory.lookup_eq_some.mp hlookup
  obtain ⟨intent', hr', rfl⟩ := hm.refs k r hk
  have hmem := List.mem_of_getElem? hr'
  obtain ⟨b, hb⟩ := hm.hashed intent' hmem
  exact ⟨plain_hash hv hb, h.intents intent (List.mem_of_getElem? hr)⟩

theorem armed_readable {k : Hex} {again : Bool} (hk : Unescaped k) :
    (Payload.armed k again).Readable o.engine.numbers :=
  ⟨fun s hs => List.mem_singleton.mp hs ▸ hk, fun _ hq => by cases hq⟩

section Reply

variable {msg : Str} {payload : Payload}

theorem arm_payload (hv : o.viem.Lawful) (hreply : (handleArm o msg m).2 = .ok (.ok payload)) :
    payload.Readable o.engine.numbers := by
  simp only [handleArm] at hreply
  split at hreply
  case h_1 refusal _ => cases refusal <;> cases hreply
  case h_2 req hreq =>
    have hk := plain_hash hv (parseArm_hash hreq).1
    unfold arm at hreply
    split_ifs at hreply
    · cases hreply
    · cases hreply
    · cases hreply
      exact armed_readable hk
    · cases hdescribe : describeTrigger req.trigger with
      | ok u =>
        rw [hdescribe] at hreply
        cases hreply
        exact armed_readable hk
      | error e =>
        rw [hdescribe] at hreply
        cases hreply

theorem status_payload (hv : o.viem.Lawful) (hm : m.Sound o) (h : m.Readable o.engine.numbers)
    (hreply : (handleStatus o msg m).2 = .ok (.ok payload)) :
    payload.Readable o.engine.numbers := by
  simp only [handleStatus] at hreply
  split at hreply
  case h_1 refusal _ => cases refusal <;> cases hreply
  case h_2 named hname =>
  split at hreply
  case h_1 =>
    cases hreply
    exact ⟨nofun, nofun⟩
  case h_2 r intent hlookup =>
    cases hreply
    have hintent : intent.Readable o.engine.numbers := by
      rcases Option.or_eq_some_iff.mp hlookup with hlower | ⟨-, hexact⟩
      · exact (lookup_readable hv hm h hlower).2
      · exact (lookup_readable hv hm h hexact).2
    refine ⟨nofun, fun q hq => ?_⟩
    simp only [Payload.numbers, List.mem_cons, Option.mem_toList,
      Option.filter_eq_some_iff] at hq
    rcases hq with rfl | rfl | ⟨hfired, -⟩
    · exact hintent.armedAt
    · exact hintent.deadline
    · exact hintent.firedAt q hfired

theorem cancel_payload (hv : o.viem.Lawful) (hm : m.Sound o) (h : m.Readable o.engine.numbers)
    (hreply : (handleCancel o msg m).2 = .ok (.ok payload)) :
    payload.Readable o.engine.numbers := by
  simp only [handleCancel] at hreply
  split at hreply
  case h_1 refusal _ => cases refusal <;> cases hreply
  case h_2 k hname =>
  split at hreply
  case h_1 => cases hreply
  case h_2 r intent hlookup =>
    split at hreply
    case isTrue => cases hreply
    case isFalse =>
      cases hreply
      exact ⟨fun s hs => List.mem_singleton.mp hs ▸ (lookup_readable hv hm h hlookup).1, nofun⟩

theorem collect_payload (hv : o.viem.Lawful) (hm : m.Sound o) (h : m.Readable o.engine.numbers)
    (hreply : (handleCollect o msg m).2 = .ok (.ok payload)) :
    payload.Readable o.engine.numbers := by
  simp only [handleCollect] at hreply
  split at hreply
  case h_1 refusal _ => cases refusal <;> cases hreply
  case h_2 k hname =>
  split at hreply
  case h_1 => cases hreply
  case h_2 r intent hlookup =>
    have hintent := (lookup_readable hv hm h hlookup).2
    split at hreply
    case h_1 => cases hreply
    case h_2 => cases hreply
    case h_3 => cases hreply
    case h_4 =>
      cases hreply
      refine ⟨fun s hs => List.mem_singleton.mp hs ▸ hintent.userOpData, fun q hq => ?_⟩
      exact hintent.firedAt q (Option.mem_toList.mp hq)

/-- **What a handler replies is readable**, in a memory that is: its numbers are times that came
from JSON or the clock, and its members have distinct names. -/
theorem handle_payload (hv : o.viem.Lawful) (hm : m.Sound o) (h : m.Readable o.engine.numbers)
    {command : Command} (hreply : (handle o command msg m).2 = .ok (.ok payload)) :
    payload.Readable o.engine.numbers := by
  cases command with
  | arm => exact arm_payload hv hreply
  | status => exact status_payload hv hm h hreply
  | cancel => exact cancel_payload hv hm h hreply
  | collect => exact collect_payload hv hm h hreply

end Reply

end Memory

/-! ## 4. Along a run -/

/-- When the tick was started that a task belongs to. -/
def Label.now : Label → ℚ
  | .tick now => now
  | .next _ now => now
  | .visit _ _ now => now

/-- The clock and the ticks are given numbers. -/
def Timed (num : Numbers) : Event o → Prop
  | .spawn l => num.Double (Label.now l)
  | .outside x =>
    match (x : Ext) with
    | .clock now => num.Double now
    | _ => True
  | _ => True

namespace Readable

/-- Every task keeps the memory readable. -/
def discipline (o : Options) : Discipline (machine o) Unit where
  kind := fun _ => ()
  excl := fun _ => False
  inv := fun s => s.mem.Readable o.engine.numbers
  rely := fun _ _ _ => True
  guar := fun _ _ _ => True
  adm := fun _ _ _ _ => True
  pre := fun l _ => o.engine.numbers.Double (Label.now l)
  idle := fun _ _ => True

theorem tickOne_readable (r : Ref) {now : ℚ} (hnow : o.engine.numbers.Double now) (l : Label)
    {s : St sig world} (hs : s.mem.Readable o.engine.numbers) :
    wp ((discipline o).spec l) (tickOne r now) (fun _ _ => True) s := by
  refine wp_bind (wp_gets ?_)
  simp only [bindPost]
  split
  case h_1 => exact wp_pure trivial
  case h_2 intent hr =>
    unfold evaluate
    split_ifs with hstate hdue
    · exact wp_pure trivial
    · exact wp_modify (hs.update fun _ hi => hi.drop .expired) trivial trivial
    · refine wp_bind (wp_call (fun s₁ w _ _ hw => by cases hw) ?_)
      intro s₁ c res w _ hs₁ _ hper
      refine ⟨hs₁, trivial, fun s₂ _ hs₂ => ?_⟩
      cases c with
      | error e =>
        cases hper
        trivial
      | ok fired =>
        cases hper
        simp only [bindPost]
        cases fired with
        | false => exact wp_pure trivial
        | true =>
          have hfired := hs₂.update (r := r) fun _ hi => hi.fire hnow
          exact wp_bind (wp_modify ⟨hfired.now, hfired.intents⟩ trivial (wp_lift trivial))

theorem discipline_sound (o : Options) : (discipline o).Sound where
  rely_refl := fun _ _ => trivial
  rely_trans := fun _ _ _ _ _ _ => trivial
  guar_refl := fun _ _ => trivial
  guar_trans := fun _ _ _ _ _ _ => trivial
  compat := fun _ _ _ _ _ _ => trivial
  pre_stable := fun _ _ _ _ _ h => h
  idle_stable := fun _ _ _ _ _ _ => trivial
  idle_open := fun _ _ _ => trivial
  code := by
    intro l s hs hnow
    cases l with
    | tick now => exact wp_pure ⟨rfl, hnow⟩
    | next place now =>
      refine wp_bind (wp_gets ?_)
      simp only [bindPost]
      split
      · exact wp_pure trivial
      · exact wp_pure ⟨rfl, hnow⟩
      · exact wp_pure ⟨rfl, hnow⟩
    | visit r place now =>
      refine wp_seq (tickOne_readable r hnow _ hs) ?_ ?_
      · intro _ s' _
        exact wp_pure ⟨rfl, hnow⟩
      · intro _ s' _
        trivial

end Readable

/-- **The memory stays readable** along every run whose clock shows doubles: every time that an
intent keeps was read from JSON or from the clock. -/
theorem readable_run {now : ℚ} {s : Sys o}
    (hrun : Run (fun e _ => Timed o.engine.numbers e) (Sys.fresh o now) s)
    (hnow : o.engine.numbers.Double now) : s.mem.Readable o.engine.numbers := by
  have h₀ : (Readable.discipline o).Ok (Sys.fresh o now) :=
    .init ⟨hnow, by simp [Memory.boot]⟩ fun _ => trivial
  refine ((Readable.discipline_sound o).run h₀ (hrun.mono ?_)).inv
  intro e s he
  cases e with
  | spawn l => exact ⟨fun h => h.elim, fun _ _ => he⟩
  | perform i c => exact fun _ _ _ _ => trivial
  | disturb i => trivial
  | resume i => trivial
  | outside x =>
    intro hs
    refine ⟨?_, fun _ _ _ => trivial, fun _ _ => trivial⟩
    cases x with
    | request command msg => exact handle_readable hs command msg
    | state => exact hs
    | clock now => exact ⟨he, hs.intents⟩
  | crash => exact fun hs => ⟨⟨hs.now, by simp [machine, Memory.boot]⟩, fun _ => trivial⟩

end OneSig.Latch
