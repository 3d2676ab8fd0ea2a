/-
# `packages/sdk/src/userop.ts`

The user operation of a batch of calls.  `buildUserOp` fills in the three fields that mean
something to the controller, the sender, the nonce and the call data, and puts zeros or the empty
string into the others; `encodeUserOp` is `abi.encode` of the result, the bytes that the executor
delivers in the end; and `prepareUserOp` builds, encodes and hashes in one step.  The hash is the
commitment that goes into the memo of the payment.  `totalCallValue` is the sum of the values of
the calls, which the operation has to be funded with.

The encoders and the hash are the package's, so they are arguments (`Viem`), and every function
here throws what they throw.

What an encoding determines is the subject of the second half.  Two operations with one encoding
have the same fields up to the case of hexadecimal digits, and two batches with one encoding have
the same calls (`Viem.Encoding`).  The fields that are not the caller's are constants
(`bytes_of_prepareUserOp`), so an operation that was built is determined by its sender, its nonce
and its calls, and

* `prepareUserOp_ok` says what is returned, field by field;
* `totalCallValue_canonical` says that the sum depends on the values only.

The last section is one operation with one call: its encoding word by word, the tables of a `Viem`
that knows it, and the proof that the tables are lawful.  Other modules run the service on it.
-/
import OneSig.Viem

namespace OneSig

/-- `0x` and 32 zero bytes. -/
def ZERO_BYTES32 : Hex := hexPrefix ++ List.replicate 64 '0'

/-- Encode a batch into the callData the controller invokes on the personal account. -/
def encodeCallBatch (viem : Viem) (calls : List Call) : Except JsError Hex :=
  if calls.length = 0 then raise "call batch must not be empty".toList
  else viem.encodeFunctionData calls

/-- Build a `PackedUserOperation` with the three meaningful fields set. -/
def buildUserOp (viem : Viem) (sender : Address) (nonce : Int) (calls : List Call) :
    Except JsError PackedUserOperation := do
  let callData ← encodeCallBatch viem calls
  return {
    sender, nonce, callData
    initCode := hexPrefix
    accountGasLimits := ZERO_BYTES32
    preVerificationGas := 0
    gasFees := ZERO_BYTES32
    paymasterAndData := hexPrefix
    signature := hexPrefix }

/-- `abi.encode(userOp)`: the bytes the executor delivers. -/
def encodeUserOp (viem : Viem) (userOp : PackedUserOperation) : Except JsError Hex :=
  viem.encodeAbiParameters userOp

structure PreparedUserOp where
  userOp : PackedUserOperation
  userOpData : Hex
  userOpHash : Hex
  deriving DecidableEq, Repr

/-- Build, encode and hash in one step. -/
def prepareUserOp (viem : Viem) (sender : Address) (nonce : Int) (calls : List Call) :
    Except JsError PreparedUserOp := do
  let userOp ← buildUserOp viem sender nonce calls
  let userOpData ← encodeUserOp viem userOp
  let userOpHash ← viem.keccak256 userOpData
  return { userOp, userOpData, userOpHash }

/-- `calls.reduce((acc, c) => acc + c.value, 0n)`. -/
def totalCallValue (calls : List Call) : Int := calls.foldl (fun acc c => acc + c.value) 0

/-! ## What an encoding determines -/

/-- What `prepareUserOp` returns, field by field. -/
theorem prepareUserOp_ok {viem : Viem} {sender : Address} {nonce : Int} {calls : List Call}
    {p : PreparedUserOp} (h : prepareUserOp viem sender nonce calls = .ok p) :
    viem.encodeFunctionData calls = .ok p.userOp.callData ∧
      viem.encodeAbiParameters p.userOp = .ok p.userOpData ∧
      viem.keccak256 p.userOpData = .ok p.userOpHash ∧
      p.userOp.sender = sender ∧ p.userOp.nonce = nonce := by
  unfold prepareUserOp at h
  obtain ⟨op, hop, h⟩ := bind_ok h
  obtain ⟨data, hdata, h⟩ := bind_ok h
  obtain ⟨hash, hhash, h⟩ := bind_ok h
  cases h
  unfold buildUserOp at hop
  obtain ⟨callData, hcall, hop⟩ := bind_ok hop
  cases hop
  unfold encodeCallBatch at hcall
  split at hcall
  · cases hcall
  · exact ⟨hcall, hdata, hhash, rfl, rfl⟩

theorem isBytes_zeros (n : Nat) : IsBytes (hexPrefix ++ List.replicate (2 * n) '0') := by
  refine ⟨n, _, rfl, List.length_replicate .., fun c hc => ?_⟩
  rw [List.eq_of_mem_replicate hc]
  decide

/-- The other byte strings of a built operation are constants. -/
theorem bytes_of_prepareUserOp {viem : Viem} (hv : viem.Encoding) {sender : Address} {nonce : Int}
    {calls : List Call} {p : PreparedUserOp} (h : prepareUserOp viem sender nonce calls = .ok p)
    (hcalls : ∀ c ∈ calls, c.Bytes) : p.userOp.Bytes := by
  have hcallData := hv.encodeFunctionData_bytes _ _ hcalls (prepareUserOp_ok h).1
  unfold prepareUserOp at h
  obtain ⟨op, hop, h⟩ := bind_ok h
  obtain ⟨data, -, h⟩ := bind_ok h
  obtain ⟨hash, -, h⟩ := bind_ok h
  cases h
  unfold buildUserOp at hop
  obtain ⟨callData, -, hop⟩ := bind_ok hop
  cases hop
  have hnone : IsBytes hexPrefix := isBytes_zeros 0
  have hzero : IsBytes ZERO_BYTES32 := isBytes_zeros 32
  exact ⟨hnone, hcallData, hzero, hzero, hnone, hnone⟩

/-- The sum only depends on the values. -/
theorem totalCallValue_canonical (calls : List Call) :
    totalCallValue (calls.map Call.canonical) = totalCallValue calls := by
  unfold totalCallValue
  rw [List.foldl_map]
  rfl

/-! ## An operation with one call -/

namespace SampleOp

/-- A 32-byte word of an ABI encoding. -/
def word (n : Nat) : Str := Bytes.hexEncode (Bytes.beBytes 32 n)

/-- The word of an address. -/
def addressWord (a : Address) : Str := List.replicate 24 '0' ++ a.drop 2

def sender : Address := "0xcdcdcdcdcdcdcdcdcdcdcdcdcdcdcdcdcdcdcdcd".toList

def target : Address := "0xabababababababababababababababababababab".toList

/-- A call that sends 5. -/
def calls : List Call := [{ target, value := 5, data := hexPrefix }]

def callData : Hex :=
  "0x2b2ee783".toList ++ word 0x20 ++ word 1 ++ word 0x20 ++ addressWord target ++ word 5 ++
    word 0x60 ++ word 0

def userOp : PackedUserOperation where
  sender := sender
  nonce := 7
  initCode := hexPrefix
  callData := callData
  accountGasLimits := ZERO_BYTES32
  preVerificationGas := 0
  gasFees := ZERO_BYTES32
  paymasterAndData := hexPrefix
  signature := hexPrefix

def userOpData : Hex :=
  hexPrefix ++ word 0x20 ++ addressWord sender ++ word 7 ++ word 0x120 ++ word 0x140 ++ word 0 ++
    word 0 ++ word 0 ++ word 0x260 ++ word 0x280 ++ word 0 ++ word 0xe4 ++ callData.drop 2 ++
    List.replicate 56 '0' ++ word 0 ++ word 0

def userOpHash : Hex :=
  "0x3de77d22a299d7c43622b712caaeb732974de65b379dcf7f1731f8d3a9af062f".toList

def tables : ViemTables where
  hashes := [(userOpData, userOpHash)]
  batches := [(calls, callData)]
  userOps := [(userOp, userOpData)]

theorem tables_consistent : tables.Consistent where
  hashes := by
    intro p hp
    rw [List.mem_singleton.mp hp]
    exact ⟨(Bytes.hexDecode (userOpHash.drop 2)).getD [], by decide, by decide⟩

theorem tables_faithful : tables.Faithful where
  bytes := by
    intro p hp
    rw [List.mem_singleton.mp hp]
    exact ⟨228, callData.drop 2, by decide +kernel, by decide +kernel,
      List.all_eq_true.mp (by decide +kernel)⟩
  batches := by
    intro p hp q hq _
    rw [List.mem_singleton.mp hp, List.mem_singleton.mp hq]
  userOps := by
    intro p hp q hq _
    rw [List.mem_singleton.mp hp, List.mem_singleton.mp hq]

theorem prepare_eq :
    prepareUserOp tables.viem sender 7 calls = .ok { userOp, userOpData, userOpHash } := by
  decide +kernel

end SampleOp

end OneSig
