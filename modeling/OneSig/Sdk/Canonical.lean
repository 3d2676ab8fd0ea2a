/-
# Encoding a decoded memo gives it back

The other direction of `decodeMemo_encode`: every byte string the decoder accepts is the layout of
the fields it returns, with nothing ignored.  Hence no two memos say the same thing, and a memo
cannot carry bytes that its decoded form does not show.

`WellFormed` says which byte strings are memos: a whole header, one of the seven instruction ids,
and the length that belongs to it.  A memo is cut into its header and its payload
(`exists_memoBytes`); `Instruction.read` is what the decoder makes of the two parts, and
`Payload.unique` says that an instruction has one payload, so what was read determines the bytes
it was read from.

* `wellFormed_of_decodeMemo` and `decodeMemo_of_wellFormed`: exactly the well-formed byte strings
  are decoded, through whatever view they are handed over.
* `read_payload`: a payload of the right length is the payload of what is read from it.
* `memo_canonical` is the whole statement: the encoder of what was decoded writes the memo again.

The encoders check more than the decoder.  A fee is in range by its eight bytes, but the zero
address is refused as an executor, an inline memo may not be longer than XRPL allows, and the
address check of the package must accept the 20 bytes in lower case.  The first two are the
condition `DecodedMemo.Accepted`; the last one is a hypothesis about the package, which holds of
it because an address in one case carries no checksum.
-/
import OneSig.Sdk.MemoRoundTrip

namespace OneSig.Memo

open OneSig

/-! ## 1. Which memos are decoded -/

/-- The instruction ids. -/
def opcodes : List UInt8 :=
  [OPCODE.EXECUTE_INLINE, OPCODE.EXECUTE_COMMITTED, OPCODE.IGNORE_MEMO, OPCODE.SET_NONCE,
    OPCODE.SET_REPLACEMENT_FEE, OPCODE.SET_EXECUTOR, OPCODE.REMOVE_EXECUTOR]

/-- A whole header, a known instruction, and the length that belongs to it. -/
structure WellFormed (memo : List UInt8) : Prop where
  header : HEADER_BYTES ≤ memo.length
  opcode : ∀ b ∈ memo.head?, b ∈ opcodes
  length : ∀ b ∈ memo.head?, ∀ n, MEMO_LENGTH.lookup b = some n → memo.length = n

theorem lookup_inline : MEMO_LENGTH.lookup OPCODE.EXECUTE_INLINE = none := by decide

/-- The decoder accepts nothing else. -/
theorem wellFormed_of_decodeMemo {view : Uint8Array} {d : DecodedMemo}
    (h : decodeMemo view = .ok d) : WellFormed view.bytes := by
  unfold decodeMemo at h
  split at h
  case h_2 => cases h
  case h_1 opcode wallet rest hbytes =>
    split at h
    case isTrue => cases h
    case isFalse hlen =>
      obtain ⟨fee, -, h⟩ := bind_ok h
      have hheader : HEADER_BYTES ≤ view.bytes.length := view.length_bytes ▸ Nat.le_of_not_lt hlen
      suffices hop : opcode ∈ opcodes ∧
          ∀ n, MEMO_LENGTH.lookup opcode = some n → view.bytes.length = n by
        refine ⟨hheader, ?_, ?_⟩
        · rintro b hb
          rw [hbytes, List.head?_cons, Option.mem_some_iff] at hb
          exact hb ▸ hop.1
        · rintro b hb
          rw [hbytes, List.head?_cons, Option.mem_some_iff] at hb
          exact hb ▸ hop.2
      -- every branch but the first has passed the length check
      have hchecked : ∀ memo, assertLength opcode view.bytes = .ok memo →
          ∀ n, MEMO_LENGTH.lookup opcode = some n → view.bytes.length = n :=
        fun memo hok n hn => assertLength_eq hok hn
      by_cases hinline : opcode = OPCODE.EXECUTE_INLINE
      · rw [hinline]
        exact ⟨by decide, fun n hn => by rw [lookup_inline] at hn; cases hn⟩
      rw [if_neg hinline] at h
      by_cases hcommitted : opcode = OPCODE.EXECUTE_COMMITTED
      · rw [if_pos hcommitted] at h
        obtain ⟨memo, hok, -⟩ := bind_ok h
        exact ⟨by rw [hcommitted]; decide, hchecked memo hok⟩
      rw [if_neg hcommitted] at h
      by_cases hignore : opcode = OPCODE.IGNORE_MEMO
      · rw [if_pos hignore] at h
        obtain ⟨memo, hok, -⟩ := bind_ok h
        exact ⟨by rw [hignore]; decide, hchecked memo hok⟩
      rw [if_neg hignore] at h
      by_cases hnonce : opcode = OPCODE.SET_NONCE
      · rw [if_pos hnonce] at h
        obtain ⟨memo, hok, -⟩ := bind_ok h
        exact ⟨by rw [hnonce]; decide, hchecked memo hok⟩
      rw [if_neg hnonce] at h
      by_cases hfee : opcode = OPCODE.SET_REPLACEMENT_FEE
      · rw [if_pos hfee] at h
        obtain ⟨memo, hok, -⟩ := bind_ok h
        exact ⟨by rw [hfee]; decide, hchecked memo hok⟩
      rw [if_neg hfee] at h
      by_cases hset : opcode = OPCODE.SET_EXECUTOR
      · rw [if_pos hset] at h
        obtain ⟨memo, hok, -⟩ := bind_ok h
        exact ⟨by rw [hset]; decide, hchecked memo hok⟩
      rw [if_neg hset] at h
      by_cases hremove : opcode = OPCODE.REMOVE_EXECUTOR
      · rw [if_pos hremove] at h
        obtain ⟨memo, hok, -⟩ := bind_ok h
        exact ⟨by rw [hremove]; decide, hchecked memo hok⟩
      rw [if_neg hremove] at h
      cases h

/-! ## 2. What the decoder makes of the parts -/

/-- The header fields as they are read. -/
def readHeader (wallet : UInt8) (fee : Nat) : MemoHeader := ⟨some wallet.toNat, fee⟩

theorem readHeader_valid (wallet : UInt8) {fee : Nat} (h : fee < 2 ^ 64) :
    (readHeader wallet fee).Valid := by
  have hw := wallet.toNat_lt
  constructor <;> simp only [readHeader, Option.getD_some] <;> omega

theorem readHeader_wallet (wallet : UInt8) (fee : Nat) : (readHeader wallet fee).wallet = wallet := by
  simp [readHeader, MemoHeader.wallet]

theorem readHeader_fee (wallet : UInt8) (fee : Nat) : (readHeader wallet fee).fee = fee := by
  simp [readHeader, MemoHeader.fee]

/-- A memo with a whole header is its header and the rest. -/
theorem exists_memoBytes {memo : List UInt8} (h : HEADER_BYTES ≤ memo.length) :
    ∃ opcode wallet fee payload, memo = memoBytes opcode wallet fee payload ∧ fee < 2 ^ 64 := by
  rw [HEADER_BYTES] at h
  rcases memo with _ | ⟨opcode, _ | ⟨wallet, rest⟩⟩
  · cases h
  · simp at h
  · have hlen : (rest.take 8).length = 8 := by
      rw [List.length_take]
      simp only [List.length_cons] at h
      omega
    have hfee := Bytes.beBytes_beNat (rest.take 8)
    have hlt := Bytes.beNat_lt (rest.take 8)
    rw [hlen] at hfee hlt
    refine ⟨opcode, wallet, Bytes.beNat (rest.take 8), rest.drop 8, ?_, hlt⟩
    rw [memoBytes, headerBytes, hfee, List.cons_append, List.cons_append, List.take_append_drop]

namespace Instruction

/-- The instruction of a header and a payload, for the instruction ids. -/
def read (header : MemoHeader) (opcode : UInt8) (payload : List UInt8) : Option Instruction :=
  if opcode = OPCODE.EXECUTE_INLINE then some (.executeInline header (toHex payload))
  else if opcode = OPCODE.EXECUTE_COMMITTED then some (.executeCommitted header (toHex payload))
  else if opcode = OPCODE.IGNORE_MEMO then some (.ignoreMemo header (toHex payload))
  else if opcode = OPCODE.SET_NONCE then some (.setNonce header (Bytes.beNat payload))
  else if opcode = OPCODE.SET_REPLACEMENT_FEE then
    some (.setReplacementFee header (toHex (payload.take 32)) (Bytes.beNat (payload.drop 32)))
  else if opcode = OPCODE.SET_EXECUTOR then some (.setExecutor header (toHex payload))
  else if opcode = OPCODE.REMOVE_EXECUTOR then some (.removeExecutor header)
  else none

end Instruction

theorem toLowerCase_toHex (bs : List UInt8) : toLowerCase (toHex bs) = toHex bs := by
  rw [toHex_eq, toLowerCase_append, toLowerCase_hexPrefix, toLowerCase_hexEncode]

theorem isHex_toHex {n : Nat} {bs : List UInt8} (h : bs.length = n) : IsHex n (toHex bs) :=
  IsLowerHex.isHex ⟨bs, h, toHex_eq bs⟩

theorem toHex_inj {bs bs' : List UInt8} (h : toHex bs = toHex bs') : bs = bs' := by
  rw [toHex_eq, toHex_eq] at h
  have hdecode := congrArg Bytes.hexDecode (List.append_cancel_left h)
  rw [Bytes.hexDecode_hexEncode, Bytes.hexDecode_hexEncode] at hdecode
  exact Option.some.inj hdecode

/-- An instruction has one payload. -/
theorem Payload.unique {ins : Instruction} {bs bs' : List UInt8} (h : Payload ins bs)
    (h' : Payload ins bs') : bs = bs' := by
  cases h with
  | executeInline _ _ heq => cases h' with | executeInline _ _ heq' => exact toHex_inj (heq ▸ heq')
  | executeCommitted _ heq => cases h' with | executeCommitted _ heq' => exact toHex_inj (heq ▸ heq')
  | ignoreMemo _ heq => cases h' with | ignoreMemo _ heq' => exact toHex_inj (heq ▸ heq')
  | setNonce => cases h' with | setNonce => rfl
  | setReplacementFee _ heq =>
    cases h' with
    | setReplacementFee _ heq' =>
      obtain rfl := toHex_inj (heq.symm.trans heq')
      rfl
  | setExecutor _ heq => cases h' with | setExecutor _ heq' => exact toHex_inj (heq ▸ heq')
  | removeExecutor => cases h' with | removeExecutor => rfl

/-! ## 3. Reading and writing -/

section Read

variable {opcode wallet : UInt8} {fee : Nat} {payload : List UInt8}

/-- A payload of the right length is the payload of what is read from it. -/
theorem read_payload (header : MemoHeader) (hop : opcode ∈ opcodes)
    (hlen : ∀ n, MEMO_LENGTH.lookup opcode = some n → 10 + payload.length = n)
    (hsmall : opcode = OPCODE.EXECUTE_INLINE → payload.length ≤ 1014) :
    ∃ ins, Instruction.read header opcode payload = some ins ∧ ins.header = header ∧
      ins.opcode = opcode ∧ Payload ins payload := by
  simp only [opcodes, List.mem_cons, List.not_mem_nil, or_false] at hop
  rcases hop with rfl | rfl | rfl | rfl | rfl | rfl | rfl
  · refine ⟨_, rfl, rfl, rfl, .executeInline (hsmall rfl) ?_ (toLowerCase_toHex payload)⟩
    rw [toHex_eq, List.length_append, Bytes.length_hexEncode]
    rfl
  · have h32 := hlen 42 rfl
    exact ⟨_, rfl, rfl, rfl, .executeCommitted (by omega) (toLowerCase_toHex payload)⟩
  · have h32 := hlen 42 rfl
    exact ⟨_, rfl, rfl, rfl, .ignoreMemo (by omega) (toLowerCase_toHex payload)⟩
  · have h32 : payload.length = 32 := by have := hlen 42 rfl; omega
    have hlt := Bytes.beNat_lt payload
    have hback := Bytes.beBytes_beNat payload
    rw [h32] at hlt hback
    refine ⟨.setNonce header (Bytes.beNat payload), rfl, rfl, rfl, ?_⟩
    have hpayload : Payload (.setNonce header (Bytes.beNat payload)) _ :=
      .setNonce (Int.natCast_nonneg _) (by exact_mod_cast hlt)
    rwa [Int.toNat_natCast, hback] at hpayload
  · have h40 := hlen 50 rfl
    have h8 : (payload.drop 32).length = 8 := by rw [List.length_drop]; omega
    have hlt := Bytes.beNat_lt (payload.drop 32)
    have hback := Bytes.beBytes_beNat (payload.drop 32)
    rw [h8] at hlt hback
    refine ⟨.setReplacementFee header (toHex (payload.take 32)) (Bytes.beNat (payload.drop 32)),
      rfl, rfl, rfl, ?_⟩
    have hpayload : Payload (.setReplacementFee header (toHex (payload.take 32))
        (Bytes.beNat (payload.drop 32))) _ :=
      .setReplacementFee (by rw [List.length_take]; omega) (toLowerCase_toHex _)
        (Int.natCast_nonneg _) (by exact_mod_cast hlt)
    rwa [Int.toNat_natCast, hback, List.take_append_drop] at hpayload
  · have h20 := hlen 30 rfl
    exact ⟨_, rfl, rfl, rfl, .setExecutor (by omega) (toLowerCase_toHex payload)⟩
  · have h0 := hlen 10 rfl
    obtain rfl : payload = [] := List.length_eq_zero_iff.mp (by omega)
    exact ⟨_, rfl, rfl, rfl, .removeExecutor⟩

/-- The inline instruction is decoded at any length. -/
theorem decodeMemo_inline {view : Uint8Array} (hfee : fee < 2 ^ 64)
    (hb : view.bytes = memoBytes OPCODE.EXECUTE_INLINE wallet fee payload) :
    decodeMemo view = .ok (.executeInline wallet.toNat fee (toHex payload)) := by
  have hlen : view.length = 10 + payload.length := by
    rw [← view.length_bytes, hb, length_memoBytes]
  have hread := getBigUint64_header hb hfee
  have hslice := slice_all hb
  have hshape : view.bytes = OPCODE.EXECUTE_INLINE :: wallet ::
      (Bytes.beBytes 8 fee ++ payload) := hb
  unfold decodeMemo
  rw [hshape]
  simp only [hread, bind, Except.bind, if_neg (show ¬ view.length < HEADER_BYTES by
    rw [HEADER_BYTES]; omega), if_pos, hslice]
  rfl

end Read

/-- What was decoded, as arguments of its encoder. -/
def DecodedMemo.instruction : DecodedMemo → Instruction
  | executeInline walletId fee data => .executeInline ⟨some walletId, fee⟩ data
  | executeCommitted walletId fee hash => .executeCommitted ⟨some walletId, fee⟩ hash
  | ignoreMemo walletId fee target => .ignoreMemo ⟨some walletId, fee⟩ target
  | setNonce walletId fee nonce => .setNonce ⟨some walletId, fee⟩ nonce
  | setReplacementFee walletId fee target newFee =>
    .setReplacementFee ⟨some walletId, fee⟩ target newFee
  | setExecutor walletId fee executor => .setExecutor ⟨some walletId, fee⟩ executor
  | removeExecutor walletId fee => .removeExecutor ⟨some walletId, fee⟩

theorem decoded_instruction {opcode wallet : UInt8} {fee : Nat} {payload : List UInt8}
    {ins : Instruction} (h : Instruction.read (readHeader wallet fee) opcode payload = some ins) :
    ins.decoded.instruction = ins := by
  unfold Instruction.read at h
  split_ifs at h <;> cases h <;>
    simp [Instruction.decoded, Instruction.header, DecodedMemo.instruction, readHeader,
      toLowerCase_toHex]

/-- The checks of the encoders that a decoded memo can fail. -/
def DecodedMemo.Accepted (memo : List UInt8) : DecodedMemo → Prop
  | executeInline _ _ _ => memo.length ≤ XRPL_MEMO_MAX_BYTES
  | setExecutor _ _ executor => isZeroAddress executor = false
  | _ => True

/-- A well-formed memo is decoded as it is read. -/
theorem decodeMemo_of_wellFormed {view : Uint8Array} (h : WellFormed view.bytes) :
    ∃ opcode wallet fee payload ins, fee < 2 ^ 64 ∧ opcode ∈ opcodes ∧
      (∀ n, MEMO_LENGTH.lookup opcode = some n → 10 + payload.length = n) ∧
      view.bytes = memoBytes opcode wallet fee payload ∧
      Instruction.read (readHeader wallet fee) opcode payload = some ins ∧
      decodeMemo view = .ok ins.decoded := by
  obtain ⟨opcode, wallet, fee, payload, hb, hfee⟩ := exists_memoBytes h.header
  have hhead : opcode ∈ view.bytes.head? := by rw [hb]; rfl
  have hop := h.opcode opcode hhead
  have hlen : ∀ n, MEMO_LENGTH.lookup opcode = some n → 10 + payload.length = n := by
    intro n hn
    rw [← length_memoBytes opcode wallet fee, ← hb]
    exact h.length opcode hhead n hn
  by_cases hinline : opcode = OPCODE.EXECUTE_INLINE
  · subst hinline
    refine ⟨_, wallet, fee, payload, _, hfee, hop, hlen, hb, rfl, ?_⟩
    rw [decodeMemo_inline hfee hb]
    simp [Instruction.decoded, Instruction.header, readHeader, toLowerCase_toHex]
  · obtain ⟨ins, hread, hheader, rfl, hpayload⟩ :=
      read_payload (readHeader wallet fee) hop hlen fun hi => absurd hi hinline
    refine ⟨_, wallet, fee, payload, ins, hfee, hop, hlen, hb, hread,
      decodeMemo_memoBytes ins payload view (hheader ▸ readHeader_valid wallet hfee) hpayload ?_⟩
    rw [hheader, readHeader_wallet, readHeader_fee]
    exact hb

/-- What is read from a payload is valid, where the encoder accepts it. -/
theorem read_valid {viem : Viem} (haddress : ∀ s, IsLowerHex 20 s → viem.isAddress s = true)
    {opcode wallet : UInt8} {fee : Nat} {payload : List UInt8} {ins : Instruction}
    (hfee : fee < 2 ^ 64) (hlen : ∀ n, MEMO_LENGTH.lookup opcode = some n → 10 + payload.length = n)
    (hread : Instruction.read (readHeader wallet fee) opcode payload = some ins)
    (haccepted : ins.decoded.Accepted (memoBytes opcode wallet fee payload)) :
    ins.Valid viem := by
  have hheader := readHeader_valid wallet hfee
  unfold Instruction.read at hread
  split_ifs at hread with hinline hcommitted hignore hnonce hnewFee hset hremove
  · cases hread
    refine ⟨hheader, payload.length, ?_, isHex_toHex rfl⟩
    simp only [Instruction.decoded, DecodedMemo.Accepted, length_memoBytes,
      XRPL_MEMO_MAX_BYTES] at haccepted
    omega
  · cases hread
    have h32 : payload.length = 32 := by have := hlen 42 (hcommitted ▸ rfl); omega
    exact ⟨hheader, isHex_toHex h32⟩
  · cases hread
    have h32 : payload.length = 32 := by have := hlen 42 (hignore ▸ rfl); omega
    exact ⟨hheader, isHex_toHex h32⟩
  · cases hread
    have h32 : payload.length = 32 := by have := hlen 42 (hnonce ▸ rfl); omega
    have hlt := Bytes.beNat_lt payload
    rw [h32] at hlt
    exact ⟨hheader, Int.natCast_nonneg _, by exact_mod_cast hlt⟩
  · cases hread
    have h40 : payload.length = 40 := by have := hlen 50 (hnewFee ▸ rfl); omega
    have h32 : (payload.take 32).length = 32 := by rw [List.length_take]; omega
    have hlt := Bytes.beNat_lt (payload.drop 32)
    rw [List.length_drop, h40] at hlt
    exact ⟨hheader, isHex_toHex h32, Int.natCast_nonneg _, by exact_mod_cast hlt⟩
  · cases hread
    have h20 : payload.length = 20 := by have := hlen 30 (hset ▸ rfl); omega
    simp only [Instruction.decoded, DecodedMemo.Accepted, toLowerCase_toHex] at haccepted
    exact ⟨hheader, haddress _ ⟨payload, h20, toHex_eq payload⟩, haccepted⟩
  · cases hread
    exact ⟨hheader, trivial⟩

/-! ## 4. The canonical form -/

/-- **Memo encoding is canonical**: exactly the well-formed memos are decoded, through any view,
and the encoder of what was decoded writes the memo again, if its own checks pass.  So no two
memos that pass them say the same. -/
theorem memo_canonical {viem : Viem} (hv : viem.Lawful)
    (haddress : ∀ s, IsLowerHex 20 s → viem.isAddress s = true) (view : Uint8Array) :
    ((∃ d, decodeMemo view = .ok d) ↔ WellFormed view.bytes) ∧
      ∀ d, decodeMemo view = .ok d → d.Accepted view.bytes →
        d.instruction.encode viem = .ok view.bytes ∧
        ∀ view' : Uint8Array, decodeMemo view' = .ok d → d.Accepted view'.bytes →
          view'.bytes = view.bytes := by
  have hback : ∀ (view : Uint8Array) d, decodeMemo view = .ok d → d.Accepted view.bytes →
      d.instruction.encode viem = .ok view.bytes := by
    intro view d hd haccepted
    obtain ⟨opcode, wallet, fee, payload, ins, hfee, hop, hlen, hb, hread, hdecode⟩ :=
      decodeMemo_of_wellFormed (wellFormed_of_decodeMemo hd)
    obtain rfl := Except.ok.inj (hdecode.symm.trans hd)
    rw [hb] at haccepted
    have hvalid := read_valid haddress hfee hlen hread haccepted
    obtain ⟨payload', hpayload', hencode⟩ := encode_eq hv ins hvalid
    have hsmall : opcode = OPCODE.EXECUTE_INLINE → payload.length ≤ 1014 := by
      rintro rfl
      cases hread
      simp only [Instruction.decoded, DecodedMemo.Accepted, length_memoBytes,
        XRPL_MEMO_MAX_BYTES] at haccepted
      omega
    obtain ⟨ins', hread', hheader, hopcode, hpayload⟩ :=
      read_payload (readHeader wallet fee) hop hlen hsmall
    obtain rfl := Option.some.inj (hread.symm.trans hread')
    rw [decoded_instruction hread, hencode, hpayload'.unique hpayload, hopcode, hheader,
      readHeader_wallet, readHeader_fee, hb]
  refine ⟨⟨fun h => ?_, fun h => ?_⟩, fun d hd haccepted => ?_⟩
  · obtain ⟨d, hd⟩ := h
    exact wellFormed_of_decodeMemo hd
  · obtain ⟨_, _, _, _, ins, _, _, _, _, _, hdecode⟩ := decodeMemo_of_wellFormed h
    exact ⟨_, hdecode⟩
  · refine ⟨hback view d hd haccepted, fun view' hd' haccepted' => ?_⟩
    exact Except.ok.inj ((hback view' d hd' haccepted').symm.trans (hback view d hd haccepted))

/-- Addresses in lower case need no checksum. -/
theorem isAddress_of_lower (t : ViemTables) {s : Str} (h : IsLowerHex 20 s) :
    t.viem.isAddress s = true := by
  obtain ⟨bs, hlen, rfl⟩ := h
  simp only [ViemTables.viem, Bool.and_eq_true, beq_iff_eq]
  refine ⟨(isHexText_iff _ _).mpr ⟨_, rfl, Bytes.hexEncode_lower bs⟩, ?_⟩
  rw [List.length_append, Bytes.length_hexEncode, hlen]
  rfl

/-- A memo that pins an executor. -/
def sampleSetExecutor : List UInt8 :=
  memoBytes OPCODE.SET_EXECUTOR 7 1000 (List.replicate 20 0xab)

theorem memo_canonical_setExecutor :
    ∃ d, decodeMemo (.ofBytes sampleSetExecutor) = .ok d ∧
      d.instruction.encode (ViemTables.viem {}) = .ok sampleSetExecutor := by
  have hcanonical := memo_canonical ViemTables.empty_consistent.lawful
    (fun _ => isAddress_of_lower {}) (.ofBytes sampleSetExecutor)
  have hbytes : (Uint8Array.ofBytes sampleSetExecutor).bytes = sampleSetExecutor := by decide
  have hdecode : decodeMemo (.ofBytes sampleSetExecutor) =
      .ok (.setExecutor 7 1000 (toHex (List.replicate 20 0xab))) := by decide +kernel
  have hencode := (hcanonical.2 _ hdecode (by decide +kernel : isZeroAddress _ = false)).1
  rw [hbytes] at hencode
  exact ⟨_, hdecode, hencode⟩

end OneSig.Memo
