/-
# `packages/sdk/src/memo.ts`

XRPL memo encoding for Flare Smart Accounts: the seven instructions, their encoders, the wire
format, and the decoder.

Every memo begins with a header of ten bytes, the opcode, the wallet id and the executor's fee,
and goes on with the fields of its instruction.  The contract requires an exact length for each
opcode but `0xFF` (`MEMO_LENGTH`), and the encoders assert it.  A memo an encoder builds is a
fresh array and is modelled by its bytes; `encodeHeader` writes it as the source does, by setting
bytes at offsets and the fee through a `DataView`, and `shiftLoop` is the loop that writes a
nonce.

The wire format is upper-case hexadecimal without a prefix (`toXrplMemoHex`), and
`fromXrplMemoHex` puts the prefix back and parses.  `Number.parseInt` reads two characters at a
time, and what is no number becomes 0 in a `Uint8Array`; since `isHex` is asked first, that case
is dead, but it is modelled.

The decoder takes any `Uint8Array`, which is a view of a buffer at an offset.  That matters,
because it reads the two fees through `memo.buffer` and the rest through the view: `Uint8Array`
keeps the buffer, the offset and the length apart, and `getBigUint64` ends where the buffer ends,
not where the view does.

Each function throws the messages of the source, with opcodes, lengths and bounds as it prints
them.  The proofs are in the next two modules: that decoding undoes encoding, and that encoding a
decoded memo gives it back.
-/
import OneSig.Viem

namespace OneSig.Memo

open OneSig

/-! ## 1. Opcodes and lengths -/

namespace OPCODE

def EXECUTE_INLINE : UInt8 := 0xff
def EXECUTE_COMMITTED : UInt8 := 0xfe
def IGNORE_MEMO : UInt8 := 0xe0
def SET_NONCE : UInt8 := 0xe1
def SET_REPLACEMENT_FEE : UInt8 := 0xe2
def SET_EXECUTOR : UInt8 := 0xd0
def REMOVE_EXECUTOR : UInt8 := 0xd1

end OPCODE

/-- Exact memo lengths the contract requires; `0xFF` has none. -/
def MEMO_LENGTH : List (UInt8 × Nat) :=
  [(OPCODE.EXECUTE_COMMITTED, 42), (OPCODE.IGNORE_MEMO, 42), (OPCODE.SET_NONCE, 42),
    (OPCODE.SET_REPLACEMENT_FEE, 50), (OPCODE.SET_EXECUTOR, 30), (OPCODE.REMOVE_EXECUTOR, 10)]

/-- Shared header: `[opcode:1][walletId:1][executorFeeUBA:8]`. -/
def HEADER_BYTES : Nat := 10

/-- XRPL caps a single memo field at 1024 bytes. -/
def XRPL_MEMO_MAX_BYTES : Nat := 1024

/-! ## 2. Building bytes -/

/-- `header.walletId` is optional and defaults to 0. -/
structure MemoHeader where
  walletId : Option Int := none
  executorFeeUBA : Int
  deriving DecidableEq, Repr

/-- `out.set(p, offset)`. -/
def setAt (out : List UInt8) (offset : Nat) (p : List UInt8) : List UInt8 :=
  out.take offset ++ p ++ out.drop (offset + p.length)

/-- `new DataView(buf.buffer).setBigUint64(offset, v, false)`; `v` is taken modulo 2^64. -/
def setBigUint64 (buf : List UInt8) (offset : Nat) (v : Int) : List UInt8 :=
  setAt buf offset (Bytes.beBytes 8 (v % 2 ^ 64).toNat)

def encodeHeader (opcode : UInt8) (header : MemoHeader) : Except JsError (List UInt8) :=
  let walletId := header.walletId.getD 0
  if walletId < 0 ∨ 0xff < walletId then
    raise ("walletId must be a uint8, got ".toList ++ intText walletId)
  else if header.executorFeeUBA < 0 ∨ 0xffffffffffffffff < header.executorFeeUBA then
    raise ("executorFeeUBA must fit in uint64, got ".toList ++ intText header.executorFeeUBA)
  else
    let bytes := List.replicate HEADER_BYTES 0
    let bytes := bytes.set 0 opcode
    let bytes := bytes.set 1 (UInt8.ofNat walletId.toNat)
    .ok (setBigUint64 bytes 2 header.executorFeeUBA)

/-- `Number.parseInt` of every two characters of the body, as bytes.  A pair that is no number
becomes 0 in a `Uint8Array`. -/
def parseBytes : Str → List UInt8
  | a :: b :: rest =>
    UInt8.ofNat (((Bytes.hexVal a).getD 0) * 16 + (Bytes.hexVal b).getD 0) :: parseBytes rest
  | _ => []

def hexToBytes (viem : Viem) (hex : Hex) (expectedBytes : Option Nat) :
    Except JsError (List UInt8) :=
  if viem.isHex hex = false then
    raise ("expected 0x-prefixed hex, got ".toList ++ hex)
  else
    let body := hex.drop 2
    if body.length % 2 ≠ 0 then raise ("hex has odd length: ".toList ++ hex)
    else
      let bytes := parseBytes body
      match expectedBytes with
      | none => .ok bytes
      | some n =>
        if bytes.length ≠ n then
          raise ("expected ".toList ++ intText n ++ " bytes, got ".toList ++ intText bytes.length)
        else .ok bytes

/-- `concat(...parts)`: each part is copied at the running offset. -/
def concat (parts : List (List UInt8)) : List UInt8 :=
  let total := parts.foldl (fun n p => n + p.length) 0
  (parts.foldl (fun (acc : List UInt8 × Nat) p => (setAt acc.1 acc.2 p, acc.2 + p.length))
    (List.replicate total 0, 0)).1

/-- The text of an opcode in a message. -/
def opcodeText (opcode : UInt8) : Str := Nat.toDigits 16 opcode.toNat

/-- Assert the memo matches the length the contract requires. -/
def assertLength (opcode : UInt8) (memo : List UInt8) : Except JsError (List UInt8) :=
  match MEMO_LENGTH.lookup opcode with
  | some expected =>
    if memo.length ≠ expected then
      raise ("opcode 0x".toList ++ opcodeText opcode ++ " requires exactly ".toList ++
        intText expected ++ " bytes, built ".toList ++ intText memo.length ++
        ". The contract reverts with InvalidMemoData().".toList)
    else .ok memo
  | none => .ok memo

/-! ## 3. The encoders -/

/-- `[0xFE][walletId:1][executorFeeUBA:8][userOpHash:32]`. -/
def encodeExecuteCommittedMemo (viem : Viem) (header : MemoHeader) (userOpHash : Hex) :
    Except JsError (List UInt8) := do
  let memo := concat [← encodeHeader OPCODE.EXECUTE_COMMITTED header,
    ← hexToBytes viem userOpHash (some 32)]
  assertLength OPCODE.EXECUTE_COMMITTED memo

/-- `[0xFF][walletId:1][executorFeeUBA:8][abi.encode(PackedUserOperation)]`. -/
def encodeExecuteInlineMemo (viem : Viem) (header : MemoHeader) (userOpData : Hex) :
    Except JsError (List UInt8) := do
  let memo := concat [← encodeHeader OPCODE.EXECUTE_INLINE header,
    ← hexToBytes viem userOpData none]
  if XRPL_MEMO_MAX_BYTES < memo.length then
    raise ("memo is ".toList ++ intText memo.length ++ " bytes, over the XRPL cap of ".toList ++
      intText XRPL_MEMO_MAX_BYTES ++ (". Use encodeExecuteCommittedMemo (0xFE) — its size is " ++
        "constant regardless of batch size.").toList)
  else .ok memo

/-- `/^0x0{40}$/i`. -/
def isZeroAddress (s : Str) : Bool :=
  toLowerCase s == hexPrefix ++ List.replicate 40 '0'

/-- `[0xD0][walletId:1][executorFeeUBA:8][executor:20]`. -/
def encodeSetExecutorMemo (viem : Viem) (header : MemoHeader) (executor : Address) :
    Except JsError (List UInt8) := do
  if viem.isAddress executor = false then
    raise ("invalid executor address: ".toList ++ executor)
  else if isZeroAddress executor then
    raise "executor must not be the zero address (contract reverts AddressZero())".toList
  else
    let memo := concat [← encodeHeader OPCODE.SET_EXECUTOR header,
      ← hexToBytes viem executor (some 20)]
    assertLength OPCODE.SET_EXECUTOR memo

/-- `[0xD1][walletId:1][executorFeeUBA:8]`. -/
def encodeRemoveExecutorMemo (header : MemoHeader) : Except JsError (List UInt8) := do
  let memo ← encodeHeader OPCODE.REMOVE_EXECUTOR header
  assertLength OPCODE.REMOVE_EXECUTOR memo

/-- `[0xE0][walletId:1][fee:8][targetTxId:32]`. -/
def encodeIgnoreMemo (viem : Viem) (header : MemoHeader) (targetTxId : Hex) :
    Except JsError (List UInt8) := do
  let memo := concat [← encodeHeader OPCODE.IGNORE_MEMO header,
    ← hexToBytes viem targetTxId (some 32)]
  assertLength OPCODE.IGNORE_MEMO memo

/-- The loop `for (let i = 31; i >= 0; i--)` from `i - 1` down, over the remaining `n`. -/
def shiftLoop : Nat → Nat → List UInt8 → List UInt8
  | 0, _, nonceBytes => nonceBytes
  | i + 1, n, nonceBytes =>
    shiftLoop i (n >>> 8) (nonceBytes.set i (UInt8.ofNat (n &&& 0xff)))

/-- `[0xE1][walletId:1][fee:8][newNonce:32]`. -/
def encodeSetNonceMemo (header : MemoHeader) (newNonce : Int) : Except JsError (List UInt8) := do
  if newNonce < 0 ∨ 2 ^ 256 - 1 < newNonce then
    raise "newNonce must fit in uint256".toList
  else
    let nonceBytes := shiftLoop 32 newNonce.toNat (List.replicate 32 0)
    let memo := concat [← encodeHeader OPCODE.SET_NONCE header, nonceBytes]
    assertLength OPCODE.SET_NONCE memo

/-- `[0xE2][walletId:1][fee:8][targetTxId:32][newFee:8]`. -/
def encodeReplacementFeeMemo (viem : Viem) (header : MemoHeader) (targetTxId : Hex)
    (newFeeUBA : Int) : Except JsError (List UInt8) := do
  if newFeeUBA < 0 ∨ 0xffffffffffffffff < newFeeUBA then
    raise "newFeeUBA must fit in uint64".toList
  else
    let feeBytes := setBigUint64 (List.replicate 8 0) 0 newFeeUBA
    let memo := concat [← encodeHeader OPCODE.SET_REPLACEMENT_FEE header,
      ← hexToBytes viem targetTxId (some 32), feeBytes]
    assertLength OPCODE.SET_REPLACEMENT_FEE memo

/-! ## 4. The wire format -/

/-- `b.toString(16).padStart(2, "0")`. -/
def byteText (b : UInt8) : Str :=
  let digits := Nat.toDigits 16 b.toNat
  List.replicate (2 - digits.length) '0' ++ digits

/-- XRPL MemoData is uppercase hex without a 0x prefix. -/
def toXrplMemoHex (memo : List UInt8) : Str := toUpperCase (memo.flatMap byteText)

def fromXrplMemoHex (viem : Viem) (hex : Str) : Except JsError (List UInt8) :=
  let clean := if hexPrefix.isPrefixOf hex then hex.drop 2 else hex
  hexToBytes viem (hexPrefix ++ clean) none

/-! ## 5. Decoding -/

/-- A `Uint8Array`: a view of `length` bytes of a buffer, from `byteOffset`. -/
structure Uint8Array where
  buffer : List UInt8
  byteOffset : Nat
  length : Nat
  inBounds : byteOffset + length ≤ buffer.length

namespace Uint8Array

/-- The bytes of the view. -/
def bytes (a : Uint8Array) : List UInt8 := (a.buffer.drop a.byteOffset).take a.length

/-- A fresh array. -/
def ofBytes (bs : List UInt8) : Uint8Array := ⟨bs, 0, bs.length, by simp⟩

/-- `a.slice(start, end)`. -/
def slice (a : Uint8Array) (start stop : Nat) : List UInt8 := (a.bytes.take stop).drop start

/-- `new DataView(a.buffer, a.byteOffset).getBigUint64(offset, false)`: the view ends with the
buffer, not with the array. -/
def getBigUint64 (a : Uint8Array) (offset : Nat) : Except JsError Nat :=
  if a.byteOffset + offset + 8 ≤ a.buffer.length then
    .ok (Bytes.beNat ((a.buffer.drop (a.byteOffset + offset)).take 8))
  else raise "Offset is outside the bounds of the DataView".toList

end Uint8Array

/-- What a memo says. -/
inductive DecodedMemo
  | executeInline (walletId executorFeeUBA : Nat) (userOpData : Hex)
  | executeCommitted (walletId executorFeeUBA : Nat) (userOpHash : Hex)
  | ignoreMemo (walletId executorFeeUBA : Nat) (targetTxId : Hex)
  | setNonce (walletId executorFeeUBA : Nat) (newNonce : Int)
  | setReplacementFee (walletId executorFeeUBA : Nat) (targetTxId : Hex) (newFeeUBA : Nat)
  | setExecutor (walletId executorFeeUBA : Nat) (executor : Address)
  | removeExecutor (walletId executorFeeUBA : Nat)
  deriving DecidableEq, Repr

/-- `decoded.opcode`. -/
def DecodedMemo.opcode : DecodedMemo → UInt8
  | executeInline _ _ _ => OPCODE.EXECUTE_INLINE
  | executeCommitted _ _ _ => OPCODE.EXECUTE_COMMITTED
  | ignoreMemo _ _ _ => OPCODE.IGNORE_MEMO
  | setNonce _ _ _ => OPCODE.SET_NONCE
  | setReplacementFee _ _ _ _ => OPCODE.SET_REPLACEMENT_FEE
  | setExecutor _ _ _ => OPCODE.SET_EXECUTOR
  | removeExecutor _ _ => OPCODE.REMOVE_EXECUTOR

def toHex (b : List UInt8) : Hex := hexPrefix ++ b.flatMap byteText

def decodeMemo (memo : Uint8Array) : Except JsError DecodedMemo :=
  match memo.bytes with
  | opcode :: wallet :: _ =>
    if memo.length < HEADER_BYTES then
      raise ("memo shorter than the ".toList ++ intText HEADER_BYTES ++ "-byte header".toList)
    else do
      let walletId := wallet.toNat
      let executorFeeUBA ← memo.getBigUint64 2
      if opcode = OPCODE.EXECUTE_INLINE then
        return .executeInline walletId executorFeeUBA (toHex (memo.slice 10 memo.length))
      else if opcode = OPCODE.EXECUTE_COMMITTED then
        let _ ← assertLength opcode memo.bytes
        return .executeCommitted walletId executorFeeUBA (toHex (memo.slice 10 42))
      else if opcode = OPCODE.IGNORE_MEMO then
        let _ ← assertLength opcode memo.bytes
        return .ignoreMemo walletId executorFeeUBA (toHex (memo.slice 10 42))
      else if opcode = OPCODE.SET_NONCE then
        let _ ← assertLength opcode memo.bytes
        return .setNonce walletId executorFeeUBA (← bigIntOfString (toHex (memo.slice 10 42)))
      else if opcode = OPCODE.SET_REPLACEMENT_FEE then
        let _ ← assertLength opcode memo.bytes
        return .setReplacementFee walletId executorFeeUBA (toHex (memo.slice 10 42))
          (← memo.getBigUint64 42)
      else if opcode = OPCODE.SET_EXECUTOR then
        let _ ← assertLength opcode memo.bytes
        return .setExecutor walletId executorFeeUBA (toHex (memo.slice 10 30))
      else if opcode = OPCODE.REMOVE_EXECUTOR then
        let _ ← assertLength opcode memo.bytes
        return .removeExecutor walletId executorFeeUBA
      else
        raise ("unknown instruction id 0x".toList ++ opcodeText opcode ++
          " (contract reverts InvalidInstructionId)".toList)
  | _ => raise ("memo shorter than the ".toList ++ intText HEADER_BYTES ++ "-byte header".toList)

end OneSig.Memo
