/-
# Decoding a memo undoes encoding it

Every encoder writes `[opcode][walletId][fee:8]` and a payload; `headerBytes` is that header and
`memoBytes` the whole layout.  The proofs go through it in both directions, so that no encoder is
ever compared with the decoder directly.

* Section 1 says that the two ways in which the source writes bytes are the same: setting parts at
  running offsets is concatenation (`concat_eq`), the shift loop and `setBigUint64` write a number
  big-endian, and a header passes its checks exactly in the ranges `MemoHeader.Valid`.
* Section 2 is the wire format, which is the identity on bytes (`fromXrplMemoHex_toXrplMemoHex`).
  The prefix that is put back can never be doubled, since the second character of a wire text is a
  digit (`wire_not_prefixed`).
* Section 3: each encoder, on valid fields, succeeds with `memoBytes` of its fields (`encode_eq`).
* Section 4: the decoder reads the fields of any `memoBytes` back, through whatever view it is
  handed (`decodeMemo_memoBytes`).  That the fees are read through the buffer and not through the
  view is dealt with once, in `getBigUint64_eq`.

`Instruction` collects the arguments of the seven encoders, so that the round trip is one
statement over all of them: `decodeMemo_encode`.  What comes back is the instruction's own fields
with the hexadecimal ones in lower case (`Instruction.decoded`), since the bytes do not keep the
case of the text they were written from.  The valid fields (`Instruction.Valid`) are those that
the encoders document: integers in the range of their width, and hexadecimal text of the right
length.
-/
import OneSig.Sdk.Memo

namespace OneSig.Memo

open OneSig

/-! ## 1. The two ways of writing bytes -/

/-- `concat` with its offsets is concatenation. -/
theorem concat_eq (parts : List (List UInt8)) : concat parts = parts.flatten := by
  have htotal : ∀ (ps : List (List UInt8)) (n : Nat),
      ps.foldl (fun n p => n + p.length) n = n + ps.flatten.length := by
    intro ps
    induction ps with
    | nil => intro n; simp
    | cons p ps ih =>
      intro n
      rw [List.foldl_cons, ih, List.flatten_cons, List.length_append]
      omega
  -- the copied parts stand before the zeros that are still to be overwritten
  have hcopy : ∀ (ps : List (List UInt8)) (front : List UInt8),
      (ps.foldl (fun (acc : List UInt8 × Nat) p => (setAt acc.1 acc.2 p, acc.2 + p.length))
        (front ++ List.replicate ps.flatten.length 0, front.length)).1 = front ++ ps.flatten := by
    intro ps
    induction ps with
    | nil => intro front; simp
    | cons p ps ih =>
      intro front
      have hset : setAt (front ++ List.replicate (p :: ps).flatten.length 0) front.length p
          = (front ++ p) ++ List.replicate ps.flatten.length 0 := by
        unfold setAt
        rw [List.take_left, List.drop_append, List.drop_eq_nil_of_le (by omega), List.nil_append,
          List.drop_replicate, List.flatten_cons, List.length_append]
        congr 2
        omega
      rw [List.foldl_cons, hset, ← List.length_append, ih, List.flatten_cons, List.append_assoc]
  unfold concat
  rw [htotal, Nat.zero_add]
  exact hcopy parts []

/-- The shift loop writes the low `i` bytes of the number, most significant first. -/
theorem shiftLoop_eq (i n : Nat) (acc : List UInt8) (h : i ≤ acc.length) :
    shiftLoop i n acc = Bytes.beBytes i n ++ acc.drop i := by
  induction i generalizing n acc with
  | zero => rfl
  | succ i ih =>
    have hbyte : UInt8.ofNat (n &&& 0xff) = UInt8.ofNat n := by
      rw [show (0xff : Nat) = 2 ^ 8 - 1 by rfl, Nat.and_two_pow_sub_one_eq_mod]
      apply UInt8.toNat_inj.mp
      simp
    have hdrop : (acc.set i (UInt8.ofNat n)).drop i = UInt8.ofNat n :: acc.drop (i + 1) := by
      rw [List.drop_eq_getElem_cons (by rw [List.length_set]; omega), List.getElem_set_self,
        List.drop_set_of_lt (by omega)]
    rw [shiftLoop, hbyte, ih _ _ (by rw [List.length_set]; omega), hdrop, Nat.shiftRight_eq_div_pow,
      Bytes.beBytes]
    simp

/-- Writing a 64-bit number into a buffer of eight zeros. -/
theorem setBigUint64_replicate (v : Nat) (h : v < 2 ^ 64) :
    setBigUint64 (List.replicate 8 0) 0 (v : Int) = Bytes.beBytes 8 v := by
  have hv : ((v : Int) % 2 ^ 64).toNat = v := by omega
  unfold setBigUint64 setAt
  rw [hv]
  simp

/-- The bytes every instruction starts with. -/
def headerBytes (opcode walletId : UInt8) (fee : Nat) : List UInt8 :=
  opcode :: walletId :: Bytes.beBytes 8 fee

/-- A whole memo: the header and the fields of the instruction. -/
def memoBytes (opcode walletId : UInt8) (fee : Nat) (payload : List UInt8) : List UInt8 :=
  headerBytes opcode walletId fee ++ payload

@[simp] theorem length_headerBytes (opcode walletId : UInt8) (fee : Nat) :
    (headerBytes opcode walletId fee).length = HEADER_BYTES := by
  simp [headerBytes, HEADER_BYTES]

@[simp] theorem length_memoBytes (opcode walletId : UInt8) (fee : Nat) (payload : List UInt8) :
    (memoBytes opcode walletId fee payload).length = 10 + payload.length := by
  rw [memoBytes, List.length_append, length_headerBytes, HEADER_BYTES]

/-- The ranges `encodeHeader` checks. -/
structure MemoHeader.Valid (header : MemoHeader) : Prop where
  walletId_nonneg : 0 ≤ header.walletId.getD 0
  walletId_le : header.walletId.getD 0 ≤ 255
  fee_nonneg : 0 ≤ header.executorFeeUBA
  fee_lt : header.executorFeeUBA < 2 ^ 64

namespace MemoHeader

/-- The wallet byte of a header. -/
def wallet (header : MemoHeader) : UInt8 := UInt8.ofNat (header.walletId.getD 0).toNat

/-- The fee of a header, as a natural number. -/
def fee (header : MemoHeader) : Nat := header.executorFeeUBA.toNat

theorem Valid.wallet_toNat {header : MemoHeader} (h : header.Valid) :
    header.wallet.toNat = (header.walletId.getD 0).toNat := by
  have h0 := h.walletId_nonneg
  have h1 := h.walletId_le
  rw [wallet, UInt8.toNat_ofNat']
  omega

theorem Valid.fee_bound {header : MemoHeader} (h : header.Valid) : header.fee < 2 ^ 64 := by
  have h0 := h.fee_nonneg
  have h1 := h.fee_lt
  unfold fee
  omega

end MemoHeader

theorem encodeHeader_eq (opcode : UInt8) (header : MemoHeader) (h : header.Valid) :
    encodeHeader opcode header = .ok (headerBytes opcode header.wallet header.fee) := by
  obtain ⟨h0, h1, h2, h3⟩ := h
  have hfee : (header.executorFeeUBA % 2 ^ 64).toNat = header.fee := by
    unfold MemoHeader.fee
    omega
  unfold encodeHeader
  simp only []
  rw [if_neg (by omega), if_neg (by omega), setBigUint64, hfee]
  simp [setAt, HEADER_BYTES, List.replicate, headerBytes, MemoHeader.wallet]

/-- A header that is encoded has passed its checks. -/
theorem valid_of_encodeHeader {opcode : UInt8} {header : MemoHeader} {bytes : List UInt8}
    (h : encodeHeader opcode header = .ok bytes) : header.Valid := by
  unfold encodeHeader at h
  dsimp only at h
  split at h
  · cases h
  · split at h
    · cases h
    · constructor <;> omega

/-! ## 2. Hexadecimal text -/

theorem parseBytes_of_hexDecode : ∀ (s : Str) (bs : List UInt8), Bytes.hexDecode s = some bs →
    parseBytes s = bs
  | [], bs, h => by simpa [Bytes.hexDecode, parseBytes] using h
  | [_], _, h => by simp [Bytes.hexDecode] at h
  | a :: b :: rest, bs, h => by
    rw [Bytes.hexDecode] at h
    split at h
    case h_2 => simp at h
    case h_1 x y hx hy =>
      obtain ⟨bs', hbs, rfl⟩ := Option.map_eq_some_iff.mp h
      rw [parseBytes, hx, hy, parseBytes_of_hexDecode rest bs' hbs]
      rfl

theorem byteText_eq (b : UInt8) : byteText b = Bytes.byteHex b := by
  have hall : ∀ n, n < 256 → byteText (UInt8.ofNat n) = Bytes.byteHex (UInt8.ofNat n) := by
    decide +kernel
  have hb := hall b.toNat b.toNat_lt
  rwa [UInt8.ofNat_toNat] at hb

theorem flatMap_byteText (bs : List UInt8) : bs.flatMap byteText = Bytes.hexEncode bs := by
  unfold Bytes.hexEncode
  congr 1
  funext b
  exact byteText_eq b

theorem toHex_eq (bs : List UInt8) : toHex bs = hexPrefix ++ Bytes.hexEncode bs := by
  rw [toHex, flatMap_byteText]

/-- What `hexToBytes` reads from well-formed text, whether or not a length is asked for. -/
theorem hexToBytes_eq {viem : Viem} (hv : viem.Lawful) {n : Nat} {h : Hex} {bs : List UInt8}
    (hh : IsHex n h) (hlen : bs.length = n) (hbs : Bytes.hexDecode (h.drop 2) = some bs)
    (expected : Option Nat) (he : ∀ m, expected = some m → m = n) :
    hexToBytes viem h expected = .ok bs := by
  have hisHex : viem.isHex h = true := by
    obtain ⟨body, rfl, -, hdig⟩ := hh
    exact (hv.isHex_iff _).mpr ⟨body, rfl, hdig⟩
  have heven := Bytes.length_of_hexDecode hbs
  unfold hexToBytes
  simp only [hisHex, Bool.true_eq_false, if_false, parseBytes_of_hexDecode _ _ hbs]
  rw [if_neg (by omega)]
  cases expected with
  | none => rfl
  | some m =>
    have := he m rfl
    simp only []
    rw [if_neg (by omega)]

/-- The upper-case text of a byte string denotes it. -/
theorem hexDecode_toUpperCase (bs : List UInt8) :
    Bytes.hexDecode (toUpperCase (Bytes.hexEncode bs)) = some bs := by
  rw [toUpperCase, Bytes.hexDecode_toUpper _ fun c hc =>
    Bytes.isHexDigit_of_lower (Bytes.hexEncode_lower bs c hc), Bytes.hexDecode_hexEncode]

theorem isHexDigit_toUpper {c : Char} (h : Bytes.isHexDigit c = true) :
    Bytes.isHexDigit c.toUpper = true := by
  rw [Bytes.isHexDigit, Bytes.hexVal_toUpper h]
  exact h

/-- The wire text of a memo, with the prefix put back, is hexadecimal text of its length. -/
theorem isHex_wire (bs : List UInt8) :
    IsHex bs.length (hexPrefix ++ toUpperCase (Bytes.hexEncode bs)) := by
  refine ⟨_, rfl, by simp [toUpperCase], fun c hc => ?_⟩
  obtain ⟨d, hd, rfl⟩ := List.mem_map.mp hc
  exact isHexDigit_toUpper (Bytes.isHexDigit_of_lower (Bytes.hexEncode_lower bs d hd))

/-- The wire text never looks prefixed: its second character is a digit. -/
theorem wire_not_prefixed (bs : List UInt8) :
    hexPrefix.isPrefixOf (toUpperCase (Bytes.hexEncode bs)) = false := by
  cases bs with
  | nil => rfl
  | cons b bs =>
    have hall : ∀ n, n < 16 → (Bytes.hexDigit n).toUpper ≠ 'x' := by decide
    have hx := hall (b.toNat % 16) (by omega)
    have hne : ('x' == (Bytes.hexDigit (b.toNat % 16)).toUpper) = false :=
      beq_eq_false_iff_ne.mpr hx.symm
    rw [Bytes.hexEncode_cons, toUpperCase, List.map_cons, List.map_cons, hexPrefix,
      List.isPrefixOf_cons_cons, List.isPrefixOf_cons_cons, hne, Bool.false_and, Bool.and_false]

/-- **The wire format loses nothing**: the bytes of a memo come back from the upper-case hex
without a mark that the ledger keeps. -/
theorem fromXrplMemoHex_toXrplMemoHex {viem : Viem} (hv : viem.Lawful) (memo : List UInt8) :
    fromXrplMemoHex viem (toXrplMemoHex memo) = .ok memo := by
  unfold fromXrplMemoHex toXrplMemoHex
  rw [flatMap_byteText]
  simp only [wire_not_prefixed, Bool.false_eq_true, if_false]
  exact hexToBytes_eq hv (isHex_wire memo) rfl (hexDecode_toUpperCase memo) none (by simp)

/-! ## 3. Every encoder writes the layout -/

/-- The arguments of the seven encoders. -/
inductive Instruction
  | executeInline (header : MemoHeader) (userOpData : Hex)
  | executeCommitted (header : MemoHeader) (userOpHash : Hex)
  | ignoreMemo (header : MemoHeader) (targetTxId : Hex)
  | setNonce (header : MemoHeader) (newNonce : Int)
  | setReplacementFee (header : MemoHeader) (targetTxId : Hex) (newFeeUBA : Int)
  | setExecutor (header : MemoHeader) (executor : Address)
  | removeExecutor (header : MemoHeader)
  deriving DecidableEq, Repr

namespace Instruction

def header : Instruction → MemoHeader
  | executeInline h _ | executeCommitted h _ | ignoreMemo h _ | setNonce h _
  | setReplacementFee h _ _ | setExecutor h _ | removeExecutor h => h

def opcode : Instruction → UInt8
  | executeInline _ _ => OPCODE.EXECUTE_INLINE
  | executeCommitted _ _ => OPCODE.EXECUTE_COMMITTED
  | ignoreMemo _ _ => OPCODE.IGNORE_MEMO
  | setNonce _ _ => OPCODE.SET_NONCE
  | setReplacementFee _ _ _ => OPCODE.SET_REPLACEMENT_FEE
  | setExecutor _ _ => OPCODE.SET_EXECUTOR
  | removeExecutor _ => OPCODE.REMOVE_EXECUTOR

/-- Call the encoder of the instruction. -/
def encode (viem : Viem) : Instruction → Except JsError (List UInt8)
  | executeInline h data => encodeExecuteInlineMemo viem h data
  | executeCommitted h hash => encodeExecuteCommittedMemo viem h hash
  | ignoreMemo h target => encodeIgnoreMemo viem h target
  | setNonce h nonce => encodeSetNonceMemo h nonce
  | setReplacementFee h target fee => encodeReplacementFeeMemo viem h target fee
  | setExecutor h executor => encodeSetExecutorMemo viem h executor
  | removeExecutor h => encodeRemoveExecutorMemo h

/-- The ranges of the fields beside the header. -/
def FieldsValid (viem : Viem) : Instruction → Prop
  | executeInline _ data => ∃ n ≤ 1014, IsHex n data
  | executeCommitted _ hash => IsHex 32 hash
  | ignoreMemo _ target => IsHex 32 target
  | setNonce _ nonce => 0 ≤ nonce ∧ nonce < 2 ^ 256
  | setReplacementFee _ target fee => IsHex 32 target ∧ 0 ≤ fee ∧ fee < 2 ^ 64
  | setExecutor _ executor => viem.isAddress executor = true ∧ isZeroAddress executor = false
  | removeExecutor _ => True

/-- The arguments the encoders document as valid. -/
structure Valid (viem : Viem) (ins : Instruction) : Prop where
  header : ins.header.Valid
  fields : ins.FieldsValid viem

/-- The length `MEMO_LENGTH` gives, and the header with the data for `0xFF`, which has none. -/
def length (ins : Instruction) : Nat :=
  match ins, MEMO_LENGTH.lookup ins.opcode with
  | executeInline _ data, none => HEADER_BYTES + (data.length - 2) / 2
  | _, expected => expected.getD 0

/-- What decoding is to return: the instruction's own fields, hexadecimal ones lower-cased. -/
def decoded (ins : Instruction) : DecodedMemo :=
  let walletId := (ins.header.walletId.getD 0).toNat
  let executorFeeUBA := ins.header.executorFeeUBA.toNat
  match ins with
  | executeInline _ data => .executeInline walletId executorFeeUBA (toLowerCase data)
  | executeCommitted _ hash => .executeCommitted walletId executorFeeUBA (toLowerCase hash)
  | ignoreMemo _ target => .ignoreMemo walletId executorFeeUBA (toLowerCase target)
  | setNonce _ nonce => .setNonce walletId executorFeeUBA nonce
  | setReplacementFee _ target fee =>
    .setReplacementFee walletId executorFeeUBA (toLowerCase target) fee.toNat
  | setExecutor _ executor => .setExecutor walletId executorFeeUBA (toLowerCase executor)
  | removeExecutor _ => .removeExecutor walletId executorFeeUBA

end Instruction

/-- A memo of the right length passes the assertion. -/
theorem assertLength_ok (opcode : UInt8) (memo : List UInt8)
    (h : ∀ n, MEMO_LENGTH.lookup opcode = some n → memo.length = n) :
    assertLength opcode memo = .ok memo := by
  unfold assertLength
  cases hl : MEMO_LENGTH.lookup opcode with
  | none => rfl
  | some n =>
    have := h n hl
    simp only []
    rw [if_neg (by omega)]

/-- The payload bytes of an instruction, as the decoder will find them. -/
inductive Payload : Instruction → List UInt8 → Prop
  | executeInline {h data bs} (hbs : bs.length ≤ 1014) (hlen : data.length = 2 + 2 * bs.length)
      (heq : toLowerCase data = toHex bs) : Payload (.executeInline h data) bs
  | executeCommitted {h hash bs} (hbs : bs.length = 32) (heq : toLowerCase hash = toHex bs) :
      Payload (.executeCommitted h hash) bs
  | ignoreMemo {h target bs} (hbs : bs.length = 32) (heq : toLowerCase target = toHex bs) :
      Payload (.ignoreMemo h target) bs
  | setNonce {h nonce} (h0 : 0 ≤ nonce) (hlt : nonce < 2 ^ 256) :
      Payload (.setNonce h nonce) (Bytes.beBytes 32 nonce.toNat)
  | setReplacementFee {h target fee bs} (hbs : bs.length = 32)
      (heq : toLowerCase target = toHex bs) (h0 : 0 ≤ fee) (hlt : fee < 2 ^ 64) :
      Payload (.setReplacementFee h target fee) (bs ++ Bytes.beBytes 8 fee.toNat)
  | setExecutor {h executor bs} (hbs : bs.length = 20) (heq : toLowerCase executor = toHex bs) :
      Payload (.setExecutor h executor) bs
  | removeExecutor {h} : Payload (.removeExecutor h) []

/-- The text of a field decodes to bytes that print as its lower-case spelling. -/
theorem hexField {viem : Viem} (hv : viem.Lawful) {n : Nat} {h : Hex} (hh : IsHex n h)
    (expected : Option Nat) (he : ∀ m, expected = some m → m = n) :
    ∃ bs : List UInt8, bs.length = n ∧ hexToBytes viem h expected = .ok bs ∧
      toLowerCase h = toHex bs := by
  obtain ⟨bs, hlen, hbs, hlow⟩ := hh.decode
  exact ⟨bs, hlen, hexToBytes_eq hv hh hlen hbs expected he, by rw [hlow, toHex_eq]⟩

/-- A header and one field of `n` bytes, concatenated and checked against the table. -/
theorem assertLength_concat {opcode wallet : UInt8} {fee n : Nat} {payload : List UInt8}
    (hn : MEMO_LENGTH.lookup opcode = some (10 + n)) (hlen : payload.length = n) :
    assertLength opcode (memoBytes opcode wallet fee payload)
      = .ok (memoBytes opcode wallet fee payload) := by
  refine assertLength_ok _ _ fun m hm => ?_
  rw [hn, Option.some.injEq] at hm
  rw [length_memoBytes]
  omega

/-- **Every encoder succeeds on valid fields**, with the layout of its instruction: the opcode,
the wallet and the fee in the header, and then its own payload. -/
theorem encode_eq {viem : Viem} (hv : viem.Lawful) (ins : Instruction) (h : ins.Valid viem) :
    ∃ payload, Payload ins payload ∧ ins.encode viem =
      .ok (memoBytes ins.opcode ins.header.wallet ins.header.fee payload) := by
  obtain ⟨hh, hf⟩ := h
  cases ins with
  | executeInline header data =>
    obtain ⟨n, hn, hdata⟩ := hf
    obtain ⟨bs, hlen, hbytes, hlow⟩ := hexField hv hdata none (by simp)
    have hsize : data.length = 2 + 2 * bs.length := by
      obtain ⟨body, rfl, hbody, -⟩ := hdata
      rw [List.length_append, hbody, hlen]
      rfl
    have hcap : ¬ XRPL_MEMO_MAX_BYTES < (memoBytes OPCODE.EXECUTE_INLINE header.wallet
        header.fee bs).length := by
      rw [length_memoBytes, XRPL_MEMO_MAX_BYTES]
      omega
    refine ⟨bs, .executeInline (by omega) hsize hlow, ?_⟩
    simp only [Instruction.encode, encodeExecuteInlineMemo, encodeHeader_eq _ header hh, hbytes,
      bind, Except.bind, concat_eq, List.flatten_cons, List.flatten_nil, List.append_nil]
    exact if_neg hcap
  | executeCommitted header hash =>
    obtain ⟨bs, hlen, hbytes, hlow⟩ := hexField hv hf (some 32) (by simp)
    refine ⟨bs, .executeCommitted hlen hlow, ?_⟩
    simp only [Instruction.encode, encodeExecuteCommittedMemo, encodeHeader_eq _ header hh, hbytes,
      bind, Except.bind, concat_eq, List.flatten_cons, List.flatten_nil, List.append_nil]
    exact assertLength_concat (n := 32) rfl hlen
  | ignoreMemo header target =>
    obtain ⟨bs, hlen, hbytes, hlow⟩ := hexField hv hf (some 32) (by simp)
    refine ⟨bs, .ignoreMemo hlen hlow, ?_⟩
    simp only [Instruction.encode, encodeIgnoreMemo, encodeHeader_eq _ header hh, hbytes,
      bind, Except.bind, concat_eq, List.flatten_cons, List.flatten_nil, List.append_nil]
    exact assertLength_concat (n := 32) rfl hlen
  | setNonce header nonce =>
    obtain ⟨h0, hlt⟩ := hf
    have hloop : shiftLoop 32 nonce.toNat (List.replicate 32 0) = Bytes.beBytes 32 nonce.toNat := by
      rw [shiftLoop_eq _ _ _ (by simp)]
      simp
    refine ⟨_, .setNonce h0 hlt, ?_⟩
    simp only [Instruction.encode, encodeSetNonceMemo, encodeHeader_eq _ header hh, hloop,
      bind, Except.bind, concat_eq, List.flatten_cons, List.flatten_nil, List.append_nil]
    rw [if_neg (by omega)]
    exact assertLength_concat (n := 32) rfl (Bytes.length_beBytes 32 _)
  | setReplacementFee header target fee =>
    obtain ⟨ht, h0, hlt⟩ := hf
    obtain ⟨bs, hlen, hbytes, hlow⟩ := hexField hv ht (some 32) (by simp)
    have hfee : setBigUint64 (List.replicate 8 0) 0 fee = Bytes.beBytes 8 fee.toNat := by
      have := setBigUint64_replicate fee.toNat (by omega)
      rwa [Int.toNat_of_nonneg h0] at this
    refine ⟨_, .setReplacementFee hlen hlow h0 hlt, ?_⟩
    simp only [Instruction.encode, encodeReplacementFeeMemo, encodeHeader_eq _ header hh, hbytes, hfee,
      bind, Except.bind, concat_eq, List.flatten_cons, List.flatten_nil, List.append_nil]
    rw [if_neg (by omega)]
    exact assertLength_concat (n := 40) rfl (by rw [List.length_append, Bytes.length_beBytes, hlen])
  | setExecutor header executor =>
    obtain ⟨haddr, hzero⟩ := hf
    obtain ⟨bs, hlen, hbytes, hlow⟩ :=
      hexField hv (hv.isAddress_shape _ haddr) (some 20) (by simp)
    refine ⟨bs, .setExecutor hlen hlow, ?_⟩
    simp only [Instruction.encode, encodeSetExecutorMemo, encodeHeader_eq _ header hh, hbytes, haddr,
      hzero, bind, Except.bind, concat_eq, List.flatten_cons, List.flatten_nil, List.append_nil,
      Bool.true_eq_false, Bool.false_eq_true, if_false]
    exact assertLength_concat (n := 20) rfl hlen
  | removeExecutor header =>
    refine ⟨[], .removeExecutor, ?_⟩
    simp only [Instruction.encode, encodeRemoveExecutorMemo, encodeHeader_eq _ header hh, bind,
      Except.bind]
    have hlen : assertLength OPCODE.REMOVE_EXECUTOR
        (memoBytes OPCODE.REMOVE_EXECUTOR header.wallet header.fee []) = .ok _ :=
      assertLength_concat (n := 0) rfl rfl
    rwa [memoBytes, List.append_nil] at hlen ⊢

/-- The layout of an instruction has the length its opcode asks for. -/
theorem Payload.length_eq {ins : Instruction} {payload : List UInt8} (h : Payload ins payload) :
    10 + payload.length = ins.length := by
  cases h with
  | executeInline hbs hlen _ =>
    show _ = HEADER_BYTES + _
    rw [hlen, HEADER_BYTES]
    omega
  | executeCommitted hbs _ => rw [hbs]; rfl
  | ignoreMemo hbs _ => rw [hbs]; rfl
  | setNonce _ _ => rw [Bytes.length_beBytes]; rfl
  | setReplacementFee hbs _ _ _ => rw [List.length_append, hbs, Bytes.length_beBytes]; rfl
  | setExecutor hbs _ => rw [hbs]; rfl
  | removeExecutor => rfl

/-! ## 4. The decoder reads the layout back -/

namespace Uint8Array

theorem length_bytes (a : Uint8Array) : a.bytes.length = a.length := by
  have := a.inBounds
  rw [bytes, List.length_take, List.length_drop]
  omega

/-- Reading through the buffer finds the bytes of the view, wherever it starts. -/
theorem getBigUint64_eq (a : Uint8Array) (offset : Nat) (h : offset + 8 ≤ a.length) :
    a.getBigUint64 offset = .ok (Bytes.beNat ((a.bytes.drop offset).take 8)) := by
  have hb := a.inBounds
  have hsame : (a.bytes.drop offset).take 8
      = (a.buffer.drop (a.byteOffset + offset)).take 8 := by
    rw [bytes, List.drop_take, List.drop_drop, List.take_take, Nat.min_eq_left (by omega)]
  rw [getBigUint64, if_pos (by omega), hsame]

end Uint8Array

section Decode

variable {opcode wallet : UInt8} {fee : Nat} {payload : List UInt8} {view : Uint8Array}

/-- The fee of a memo, read through its view. -/
theorem getBigUint64_header (hb : view.bytes = memoBytes opcode wallet fee payload)
    (hfee : fee < 2 ^ 64) : view.getBigUint64 2 = .ok fee := by
  have hlen : view.length = 10 + payload.length := by
    rw [← view.length_bytes, hb, length_memoBytes]
  have hread : (view.bytes.drop 2).take 8 = Bytes.beBytes 8 fee := by
    rw [hb, memoBytes, headerBytes, List.cons_append, List.cons_append, List.drop_succ_cons,
      List.drop_succ_cons, List.drop_zero, List.take_left' (Bytes.length_beBytes 8 fee)]
  rw [view.getBigUint64_eq 2 (by omega), hread, Bytes.beNat_beBytes_of_lt (by omega)]

/-- A slice of a memo from the end of its header is a slice of its payload. -/
theorem slice_payload (hb : view.bytes = memoBytes opcode wallet fee payload) (stop : Nat) :
    view.slice 10 (10 + stop) = payload.take stop := by
  have hdrop : (headerBytes opcode wallet fee ++ payload).drop 10 = payload :=
    List.drop_left' (length_headerBytes opcode wallet fee)
  rw [Uint8Array.slice, hb, memoBytes, List.drop_take, hdrop, Nat.add_sub_cancel_left]

/-- The whole payload, as the decoder takes it for the inline instruction. -/
theorem slice_all (hb : view.bytes = memoBytes opcode wallet fee payload) :
    view.slice 10 view.length = payload := by
  have hlen : view.length = 10 + payload.length := by
    rw [← view.length_bytes, hb, length_memoBytes]
  rw [hlen, slice_payload hb, List.take_length]

/-- The second fee of a replacement-fee memo. -/
theorem getBigUint64_newFee {target : List UInt8} {newFee : Nat}
    (hb : view.bytes = memoBytes opcode wallet fee (target ++ Bytes.beBytes 8 newFee))
    (ht : target.length = 32) (hfee : newFee < 2 ^ 64) : view.getBigUint64 42 = .ok newFee := by
  have hlen : view.length = 50 := by
    rw [← view.length_bytes, hb, length_memoBytes, List.length_append, Bytes.length_beBytes, ht]
  have hread : (view.bytes.drop 42).take 8 = Bytes.beBytes 8 newFee := by
    rw [hb, memoBytes, ← List.append_assoc,
      List.drop_left' (by rw [List.length_append, length_headerBytes, ht, HEADER_BYTES]),
      List.take_of_length_le (by rw [Bytes.length_beBytes])]
  rw [view.getBigUint64_eq 42 (by omega), hread, Bytes.beNat_beBytes_of_lt (by omega)]

end Decode

/-- The number a 32-byte slice denotes, through its text. -/
theorem bigIntOfString_toHex {n : Nat} (h : n < 2 ^ 256) :
    bigIntOfString (toHex (Bytes.beBytes 32 n)) = .ok (n : Int) := by
  have hne : Bytes.beBytes 32 n ≠ [] := by
    intro hnil
    have := Bytes.length_beBytes 32 n
    rw [hnil] at this
    exact absurd this (by decide)
  have hpow : n < 256 ^ 32 := by
    have : (256 : Nat) ^ 32 = 2 ^ 256 := by decide
    rwa [this]
  rw [toHex_eq, bigIntOfString_hexEncode _ hne, Bytes.beNat_beBytes_of_lt hpow]
  rfl

/-- **The decoder reads back** what the layout of an instruction says, through any view of any
buffer that shows these bytes. -/
theorem decodeMemo_memoBytes (ins : Instruction) (payload : List UInt8) (view : Uint8Array)
    (hh : ins.header.Valid) (hp : Payload ins payload)
    (hb : view.bytes = memoBytes ins.opcode ins.header.wallet ins.header.fee payload) :
    decodeMemo view = .ok ins.decoded := by
  have hlen : view.length = 10 + payload.length := by
    rw [← view.length_bytes, hb, length_memoBytes]
  have hfee := getBigUint64_header hb hh.fee_bound
  have hwallet := hh.wallet_toNat
  have hslice := slice_payload hb
  have hshape : view.bytes = ins.opcode :: ins.header.wallet ::
      (Bytes.beBytes 8 ins.header.fee ++ payload) := hb
  have hok : assertLength ins.opcode view.bytes = .ok view.bytes := by
    refine assertLength_ok _ _ fun n hn => ?_
    rw [view.length_bytes, hlen, hp.length_eq]
    unfold Instruction.length
    rw [hn]
    cases ins <;> rfl
  unfold decodeMemo
  rw [hshape] at hok ⊢
  simp only [hfee, bind, Except.bind, pure, Except.pure, if_neg (show ¬ view.length < HEADER_BYTES
    by rw [HEADER_BYTES]; omega), hwallet]
  cases hp with
  | executeInline hbs _ heq =>
    simp only [Instruction.opcode]
    rw [if_pos trivial, slice_all hb, ← heq]
    rfl
  | executeCommitted hbs heq =>
    simp only [Instruction.opcode] at hok ⊢
    rw [if_neg (by decide), if_pos trivial, hok, hslice 32, List.take_of_length_le (by omega), ← heq]
    rfl
  | ignoreMemo hbs heq =>
    simp only [Instruction.opcode] at hok ⊢
    rw [if_neg (by decide), if_neg (by decide), if_pos trivial, hok, hslice 32,
      List.take_of_length_le (by omega), ← heq]
    rfl
  | @setNonce header nonce h0 hlt =>
    simp only [Instruction.opcode] at hok ⊢
    rw [if_neg (by decide), if_neg (by decide), if_neg (by decide), if_pos trivial, hok, hslice 32,
      List.take_of_length_le (by rw [Bytes.length_beBytes]),
      bigIntOfString_toHex (by omega), Int.toNat_of_nonneg h0]
    rfl
  | @setReplacementFee header target fee bs hbs heq h0 hlt =>
    simp only [Instruction.opcode] at hok ⊢
    rw [if_neg (by decide), if_neg (by decide), if_neg (by decide), if_neg (by decide), if_pos trivial,
      hok, hslice 32, List.take_left' hbs, ← heq, getBigUint64_newFee hb hbs (by omega)]
    rfl
  | setExecutor hbs heq =>
    simp only [Instruction.opcode] at hok ⊢
    rw [if_neg (by decide), if_neg (by decide), if_neg (by decide), if_neg (by decide),
      if_neg (by decide), if_pos trivial, hok, hslice 20, List.take_of_length_le (by omega), ← heq]
    rfl
  | removeExecutor =>
    simp only [Instruction.opcode] at hok ⊢
    rw [if_neg (by decide), if_neg (by decide), if_neg (by decide), if_neg (by decide),
      if_neg (by decide), if_neg (by decide), if_pos trivial, hok]
    rfl

/-- The assertion only lets the table's length through. -/
theorem assertLength_eq {opcode : UInt8} {memo memo' : List UInt8} {n : Nat}
    (h : assertLength opcode memo = .ok memo') (hn : MEMO_LENGTH.lookup opcode = some n) :
    memo.length = n := by
  unfold assertLength at h
  rw [hn] at h
  simp only [] at h
  split at h
  · cases h
  · omega

/-- A decoded commitment is 32 bytes in lower case. -/
theorem decodeMemo_executeCommitted {view : Uint8Array} {walletId fee : Nat} {h : Hex}
    (hd : decodeMemo view = .ok (.executeCommitted walletId fee h)) : IsLowerHex 32 h := by
  unfold decodeMemo at hd
  split at hd
  case h_2 => cases hd
  split at hd
  · cases hd
  obtain ⟨f, -, hd⟩ := bind_ok hd
  split at hd
  · cases hd
  split at hd
  case isTrue hop =>
    obtain ⟨m, hm, hd⟩ := bind_ok hd
    cases hd
    have hlen := assertLength_eq (n := 42) hm (by rw [hop]; rfl)
    refine ⟨view.slice 10 42, ?_, toHex_eq _⟩
    rw [Uint8Array.slice, List.length_drop, List.length_take]
    omega
  -- every other opcode decodes to another constructor
  split at hd
  · obtain ⟨_, -, hd⟩ := bind_ok hd
    cases hd
  split at hd
  · obtain ⟨_, -, hd⟩ := bind_ok hd
    obtain ⟨_, -, hd⟩ := bind_ok hd
    cases hd
  split at hd
  · obtain ⟨_, -, hd⟩ := bind_ok hd
    obtain ⟨_, -, hd⟩ := bind_ok hd
    cases hd
  split at hd
  · obtain ⟨_, -, hd⟩ := bind_ok hd
    cases hd
  split at hd
  · obtain ⟨_, -, hd⟩ := bind_ok hd
    cases hd
  · cases hd
/-! ## 5. The round trip -/

/-- **Decoding undoes encoding**, over the wire and through any view, for all seven instructions
and all their fields in range; the memo has the length of its instruction. -/
theorem decodeMemo_encode {viem : Viem} (hv : viem.Lawful) (ins : Instruction)
    (h : ins.Valid viem) :
    ∃ memo, ins.encode viem = .ok memo ∧ memo.length = ins.length ∧
      fromXrplMemoHex viem (toXrplMemoHex memo) = .ok memo ∧
      ∀ view : Uint8Array, view.bytes = memo →
        decodeMemo view = .ok ins.decoded ∧ ins.decoded.opcode = ins.opcode := by
  obtain ⟨payload, hp, henc⟩ := encode_eq hv ins h
  refine ⟨_, henc, ?_, fromXrplMemoHex_toXrplMemoHex hv _, fun view hb => ⟨?_, ?_⟩⟩
  · rw [length_memoBytes, hp.length_eq]
  · exact decodeMemo_memoBytes ins payload view h.header hp hb
  · cases ins <;> rfl

/-- A replacement fee for a transaction id written in both cases. -/
def sampleReplacementFee : Instruction :=
  .setReplacementFee { walletId := some 7, executorFeeUBA := 2 ^ 64 - 1 }
    "0xDeaDbeefDeaDbeefDeaDbeefDeaDbeefDeaDbeefDeaDbeefDeaDbeefDeaDbeef".toList 1000

theorem decodeMemo_encode_replacementFee :
    ∃ memo, sampleReplacementFee.encode (ViemTables.viem {}) = .ok memo ∧
      memo.length = sampleReplacementFee.length ∧
      fromXrplMemoHex (ViemTables.viem {}) (toXrplMemoHex memo) = .ok memo ∧
      ∀ view : Uint8Array, view.bytes = memo →
        decodeMemo view = .ok sampleReplacementFee.decoded ∧
          sampleReplacementFee.decoded.opcode = sampleReplacementFee.opcode :=
  decodeMemo_encode ViemTables.empty_consistent.lawful sampleReplacementFee
    ⟨⟨by decide, by decide, by decide +kernel, by decide +kernel⟩,
      ⟨_, rfl, by decide +kernel, List.all_eq_true.mp (by decide +kernel)⟩, by decide, by decide⟩

end OneSig.Memo
