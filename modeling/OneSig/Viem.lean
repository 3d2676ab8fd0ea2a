/-
# The functions taken from viem

The hashing, the ABI codec and the two string checks are a third-party package whose code is not
part of the repository.  `Viem` is a structure of the functions that the sources call of it, so
every definition that hashes or encodes takes one as a parameter; an error of the package is an
error of the function.

What the results rely on is split by what it is about.

* `Viem.Lawful` is the documented shape of what the string functions accept and return: a hash is
  32 bytes in lower-case hexadecimal, `isHex` accepts exactly the 0x-prefixed hexadecimal texts,
  and `isAddress` only such texts of 20 bytes.
* `Viem.Encoding` is the ABI: on calls and operations whose byte strings are strings of whole
  bytes, the encoding is one as well, and the value can be read back from it.  Only the results
  that follow an amount through the calldata ask for it.  No injectivity is assumed of the hash.

Hexadecimal text is compared up to the case of its digits (`canonical`), since viem keeps the case
of a `bytes` argument and lower-cases an `address`.

The last section builds a `Viem` from tables: on their entries it is the package, and outside them
it throws.  `Consistent` and `Faithful` are what the tables have to satisfy to be lawful and to be
an encoding; the runs on fixed inputs in other modules give their few hashes and encodings this
way, so that no hash function has to be computed.
-/
import OneSig.Js

namespace OneSig

/-! ## 1. The values that cross the ABI boundary -/

/-- `IPersonalAccount.Call`: one entry in a batch. -/
structure Call where
  target : Address
  value : Int
  data : Hex
  deriving DecidableEq, Repr

/-- EIP-4337 v0.7 `PackedUserOperation`. -/
structure PackedUserOperation where
  sender : Address
  nonce : Int
  initCode : Hex
  callData : Hex
  accountGasLimits : Hex
  preVerificationGas : Int
  gasFees : Hex
  paymasterAndData : Hex
  signature : Hex
  deriving DecidableEq, Repr

/-- A log of a transaction receipt. -/
structure Log where
  address : Address
  data : Hex
  topics : List Hex
  deriving DecidableEq, Repr

/-- What `decodeEventLog` returns: the event's name, and its `executionAllowedAt` argument when
it has one that is a bigint. -/
structure DecodedEvent where
  eventName : Str
  executionAllowedAt : Option Int
  deriving DecidableEq, Repr

/-- The value of a call, whatever the case its strings are written in. -/
def Call.canonical (c : Call) : Call :=
  { c with target := toLowerCase c.target, data := toLowerCase c.data }

/-- The value of an operation, whatever the case its strings are written in. -/
def PackedUserOperation.canonical (op : PackedUserOperation) : PackedUserOperation :=
  { op with
    sender := toLowerCase op.sender
    initCode := toLowerCase op.initCode
    callData := toLowerCase op.callData
    accountGasLimits := toLowerCase op.accountGasLimits
    gasFees := toLowerCase op.gasFees
    paymasterAndData := toLowerCase op.paymasterAndData
    signature := toLowerCase op.signature }

/-! ## 2. The functions -/

/-- What the sources call of viem. -/
structure Viem where
  isHex : Str → Bool
  isAddress : Str → Bool
  keccak256 : Str → Except JsError Hex
  /-- `encodeFunctionData` for `executeUserOp(Call[])`. -/
  encodeFunctionData : List Call → Except JsError Hex
  /-- `encodeAbiParameters` for one `PackedUserOperation`. -/
  encodeAbiParameters : PackedUserOperation → Except JsError Hex
  /-- `decodeAbiParameters` for the `IXRPPayment.Response` tuple, as an opaque value. -/
  decodeAbiParameters : Hex → Except JsError Str
  /-- `decodeEventLog` for the events of `IDirectMinting`. -/
  decodeEventLog : Log → Except JsError DecodedEvent

/-- A 0x-prefixed string of `n` bytes in lower case. -/
def IsLowerHex (n : Nat) (h : Hex) : Prop :=
  ∃ bs : List UInt8, bs.length = n ∧ h = hexPrefix ++ Bytes.hexEncode bs

/-- A 0x-prefixed string of `n` bytes, in any case. -/
def IsHex (n : Nat) (h : Hex) : Prop :=
  ∃ body : Str, h = hexPrefix ++ body ∧ body.length = 2 * n ∧ ∀ c ∈ body, Bytes.isHexDigit c = true

/-- A 0x-prefixed string of whole bytes, in any case. -/
def IsBytes (h : Hex) : Prop := ∃ n, IsHex n h

/-- The data of a call is a string of whole bytes. -/
def Call.Bytes (c : Call) : Prop := IsBytes c.data

/-- The byte strings of an operation are strings of whole bytes. -/
structure PackedUserOperation.Bytes (op : PackedUserOperation) : Prop where
  initCode : IsBytes op.initCode
  callData : IsBytes op.callData
  accountGasLimits : IsBytes op.accountGasLimits
  gasFees : IsBytes op.gasFees
  paymasterAndData : IsBytes op.paymasterAndData
  signature : IsBytes op.signature

/-- What the sources rely on: the shape of what the string functions accept and return. -/
structure Viem.Lawful (viem : Viem) : Prop where
  isHex_iff : ∀ s, viem.isHex s = true ↔
    ∃ body : Str, s = hexPrefix ++ body ∧ ∀ c ∈ body, Bytes.isHexDigit c = true
  isAddress_shape : ∀ s, viem.isAddress s = true → IsHex 20 s
  keccak256_shape : ∀ s h, viem.keccak256 s = .ok h → IsLowerHex 32 h

/-- What the ABI says of the two encoders, for values whose byte strings are strings of whole
bytes: the encoding is one too, and the value can be read back from it.  Of a string with an odd
number of digits the encoders make a text that is not aligned, of which nothing is said. -/
structure Viem.Encoding (viem : Viem) : Prop where
  encodeFunctionData_bytes : ∀ calls h, (∀ c ∈ calls, c.Bytes) →
    viem.encodeFunctionData calls = .ok h → IsBytes h
  encodeFunctionData_inj : ∀ calls calls' h h', (∀ c ∈ calls, c.Bytes) → (∀ c ∈ calls', c.Bytes) →
    viem.encodeFunctionData calls = .ok h → viem.encodeFunctionData calls' = .ok h' →
    toLowerCase h = toLowerCase h' → calls.map Call.canonical = calls'.map Call.canonical
  encodeAbiParameters_inj : ∀ op op' h h', op.Bytes → op'.Bytes →
    viem.encodeAbiParameters op = .ok h → viem.encodeAbiParameters op' = .ok h' →
    toLowerCase h = toLowerCase h' → op.canonical = op'.canonical

/-! ## 3. Lower-case hexadecimal strings -/

theorem toLowerCase_hexEncode (bs : List UInt8) :
    toLowerCase (Bytes.hexEncode bs) = Bytes.hexEncode bs := by
  have h : ∀ s : Str, (∀ c ∈ s, Bytes.isLowerHexDigit c = true) → toLowerCase s = s := by
    intro s hs
    calc toLowerCase s = s.map id :=
          List.map_congr_left fun c hc => Bytes.toLower_of_lower (hs c hc)
      _ = s := List.map_id s
  exact h _ (Bytes.hexEncode_lower bs)

/-- A lower-case string is its own lower-case spelling. -/
theorem IsLowerHex.toLowerCase_eq {n : Nat} {h : Hex} (hh : IsLowerHex n h) :
    toLowerCase h = h := by
  obtain ⟨bs, -, rfl⟩ := hh
  rw [toLowerCase_append, toLowerCase_hexPrefix, toLowerCase_hexEncode]

theorem IsLowerHex.isHex {n : Nat} {h : Hex} (hh : IsLowerHex n h) : IsHex n h := by
  obtain ⟨bs, hlen, rfl⟩ := hh
  exact ⟨_, rfl, by rw [Bytes.length_hexEncode, hlen],
    fun c hc => Bytes.isHexDigit_of_lower (Bytes.hexEncode_lower bs c hc)⟩

/-- The digits of a hexadecimal string denote a byte string. -/
theorem IsHex.decode {n : Nat} {h : Hex} (hh : IsHex n h) :
    ∃ bs : List UInt8, bs.length = n ∧ Bytes.hexDecode (h.drop 2) = some bs ∧
      toLowerCase h = hexPrefix ++ Bytes.hexEncode bs := by
  obtain ⟨body, rfl, hlen, hdig⟩ := hh
  obtain ⟨bs, hbs⟩ := Bytes.hexDecode_total body hdig (by omega)
  have hlen' := Bytes.length_of_hexDecode hbs
  refine ⟨bs, by omega, hbs, ?_⟩
  rw [toLowerCase_append, toLowerCase_hexPrefix, Bytes.hexEncode_hexDecode body bs hbs]
  rfl

/-! ## 4. A viem given by tables

On the entries of its tables this is the package; outside them it throws.  It accepts the
addresses that are written in lower case, which need no checksum. -/

/-- The value a table gives, or an error. -/
def lookupOr {α β : Type} [DecidableEq α] (table : List (α × β)) (a : α) : Except JsError β :=
  match table.find? fun p => p.1 = a with
  | some p => .ok p.2
  | none => raise "not in the table".toList

theorem lookupOr_mem {α β : Type} [DecidableEq α] {table : List (α × β)} {a : α} {b : β}
    (h : lookupOr table a = .ok b) : (a, b) ∈ table := by
  unfold lookupOr at h
  split at h
  case h_2 => simp [raise] at h
  case h_1 p hp =>
    have hkey := List.find?_some hp
    have hmem := List.mem_of_find?_eq_some hp
    simp only [decide_eq_true_eq] at hkey
    simp only [Except.ok.injEq] at h
    subst hkey h
    exact hmem

/-- The text after the prefix, when all of it is digits. -/
def isHexText (digit : Char → Bool) (s : Str) : Bool :=
  hexPrefix.isPrefixOf s && (s.drop 2).all digit

theorem isHexText_iff (digit : Char → Bool) (s : Str) :
    isHexText digit s = true ↔ ∃ body : Str, s = hexPrefix ++ body ∧ ∀ c ∈ body, digit c = true := by
  unfold isHexText
  rw [Bool.and_eq_true, List.isPrefixOf_iff_prefix, List.all_eq_true]
  constructor
  · rintro ⟨⟨body, rfl⟩, hdig⟩
    exact ⟨body, rfl, hdig⟩
  · rintro ⟨body, rfl, hdig⟩
    exact ⟨⟨body, rfl⟩, hdig⟩

/-- The four tables. -/
structure ViemTables where
  hashes : List (Str × Hex) := []
  batches : List (List Call × Hex) := []
  userOps : List (PackedUserOperation × Hex) := []
  events : List (Log × DecodedEvent) := []

namespace ViemTables

def viem (t : ViemTables) : Viem where
  isHex := isHexText Bytes.isHexDigit
  isAddress := fun s => isHexText Bytes.isLowerHexDigit s && s.length == 42
  keccak256 := lookupOr t.hashes
  encodeFunctionData := lookupOr t.batches
  encodeAbiParameters := lookupOr t.userOps
  decodeAbiParameters := .ok
  decodeEventLog := lookupOr t.events

/-- What the table of hashes has to satisfy. -/
structure Consistent (t : ViemTables) : Prop where
  hashes : ∀ p ∈ t.hashes, IsLowerHex 32 p.2

/-- What the tables of encodings have to satisfy. -/
structure Faithful (t : ViemTables) : Prop where
  bytes : ∀ p ∈ t.batches, IsBytes p.2
  batches : ∀ p ∈ t.batches, ∀ q ∈ t.batches, toLowerCase p.2 = toLowerCase q.2 →
    p.1.map Call.canonical = q.1.map Call.canonical
  userOps : ∀ p ∈ t.userOps, ∀ q ∈ t.userOps, toLowerCase p.2 = toLowerCase q.2 →
    p.1.canonical = q.1.canonical

theorem Consistent.lawful {t : ViemTables} (h : t.Consistent) : t.viem.Lawful where
  isHex_iff := isHexText_iff _
  isAddress_shape := by
    intro s hs
    simp only [viem, Bool.and_eq_true, beq_iff_eq] at hs
    obtain ⟨body, rfl, hdig⟩ := (isHexText_iff _ _).mp hs.1
    refine ⟨body, rfl, ?_, fun c hc => Bytes.isHexDigit_of_lower (hdig c hc)⟩
    have hlen := hs.2
    rw [List.length_append] at hlen
    simp only [hexPrefix, List.length_cons, List.length_nil] at hlen
    omega
  keccak256_shape := fun _ _ hk => h.hashes _ (lookupOr_mem hk)

theorem Faithful.encoding {t : ViemTables} (h : t.Faithful) : t.viem.Encoding where
  encodeFunctionData_bytes := fun _ _ _ hc => h.bytes _ (lookupOr_mem hc)
  encodeFunctionData_inj := fun _ _ _ _ _ _ hc hc' he =>
    h.batches _ (lookupOr_mem hc) _ (lookupOr_mem hc') he
  encodeAbiParameters_inj := fun _ _ _ _ _ _ ho ho' he =>
    h.userOps _ (lookupOr_mem ho) _ (lookupOr_mem ho') he

theorem empty_consistent : Consistent {} := ⟨by simp⟩

end ViemTables

end OneSig
