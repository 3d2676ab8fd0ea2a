/-
# Two readers of a memo

The commitment of a payment travels as hexadecimal text in the `MemoData` of one of its memos, and
the repository has two decoders for such a text.  `fromXrplMemoHex` of the SDK is strict: it takes
an optional `0x` and then a complete text, whole pairs of digits and nothing else, or it throws.
The watcher uses `Buffer.from(data, "hex")` instead, which never throws: it takes the leading pairs
of digits and drops the rest, so of a text behind `0x` it takes nothing.  What either of them gets
is then decoded by the same `decodeMemo`, and only a 42-byte memo that starts with `0xFE` carries a
commitment.

So the two differ on exactly two kinds of text (`Same`): one whose leading pairs are such a memo and
that goes on with something else, which only the watcher reads a commitment in, and one that is
such a memo behind `0x`, which only the SDK does.

The watcher goes over the memos in their order and stops at the first commitment.  What stands
behind that memo does no harm.  A payment is read as the wire grammar says, from the memo that it
says, exactly if no text of the two kinds comes before the first plain one (`Clear`).  If one does,
the result can still be the right one by accident, when the reader that passes it by comes to the
same hash behind it (`Agree`).
-/
import OneSig.Executor.Watcher
import OneSig.Sdk.Canonical

namespace OneSig.Executor

open OneSig

namespace MemoGrammar

/-! ## 1. The readers -/

/-- The commitment of a decoded memo. -/
def hashOf : Except JsError Memo.DecodedMemo → Option Hex
  | .ok (.executeCommitted _ _ userOpHash) => some userOpHash
  | _ => none

/-- What the watcher reads in a text. -/
def watcherReads (data : Str) : Option Hex := hashOf (Memo.decodeMemo (memoBytesOf data))

/-- What the SDK reads in a text. -/
def sdkReads (viem : Viem) (data : Str) : Option Hex :=
  match Memo.fromXrplMemoHex viem data with
  | .ok memo => hashOf (Memo.decodeMemo (.ofBytes memo))
  | .error _ => none

/-- The text of a memo entry. -/
def textOf (wrapper : Json) : Option Str :=
  match memoData wrapper with
  | some (.str data) => some data
  | _ => none

/-- The memo entries of a payment. -/
def entriesOf (tx : XrplTx) : List Json :=
  match tx.memos with
  | some (.arr memos) => memos
  | _ => []

/-- The texts in the memos of a payment. -/
def textsOf (tx : XrplTx) : List Str := (entriesOf tx).filterMap textOf

/-- The text a reader takes the commitment from. -/
def takenFrom (reads : Str → Option Hex) (texts : List Str) : Option Str :=
  texts.find? fun data => (reads data).isSome

/-- The commitment of the first memo that the SDK reads one in. -/
def sdkCommitment (viem : Viem) (memos : List Json) : Option Hex :=
  memos.findSome? fun wrapper => (textOf wrapper).bind (sdkReads viem)

theorem commitmentOf_eq (wrapper : Json) :
    commitmentOf wrapper = (textOf wrapper).bind watcherReads := by
  unfold commitmentOf textOf
  cases memoData wrapper with
  | none => rfl
  | some j =>
    cases j with
    | str data => rfl
    | null => rfl
    | bool b => rfl
    | num value text => rfl
    | infinite negative => rfl
    | arr items => rfl
    | obj fields => rfl

/-- What is read in the entries is read in their texts. -/
theorem findSome?_textOf (reads : Str → Option Hex) (memos : List Json) :
    (memos.findSome? fun wrapper => (textOf wrapper).bind reads) =
      (memos.filterMap textOf).findSome? reads := by
  induction memos with
  | nil => rfl
  | cons wrapper memos ih =>
    rw [List.findSome?_cons, List.filterMap_cons]
    cases textOf wrapper with
    | none => exact ih
    | some data => rw [Option.bind_some, List.findSome?_cons, ih]

theorem commitmentFromMemos_eq (tx : XrplTx) :
    commitmentFromMemos tx = (textsOf tx).findSome? watcherReads := by
  rw [textsOf, ← findSome?_textOf, ← funext commitmentOf_eq]
  unfold commitmentFromMemos entriesOf
  cases tx.memos with
  | none => rfl
  | some j =>
    cases j with
    | arr items => rfl
    | null => rfl
    | bool b => rfl
    | num value text => rfl
    | infinite negative => rfl
    | str data => rfl
    | obj fields => rfl

/-! ## 2. Where they agree -/

/-- A `0xFE` memo. -/
def IsCommitment (memo : List UInt8) : Prop :=
  memo.length = 42 ∧ memo.head? = some Memo.OPCODE.EXECUTE_COMMITTED

instance (memo : List UInt8) : Decidable (IsCommitment memo) := inferInstanceAs (Decidable (_ ∧ _))

/-- The bytes that a `0xFE` memo commits to. -/
def committed (memo : List UInt8) : Option (List UInt8) :=
  if IsCommitment memo then some (memo.drop 10) else none

/-- What the leading pairs of a text commit to. -/
def leading (data : Str) : Option (List UInt8) := committed (Bytes.hexDecodePrefix data)

/-- What a text commits to as a whole, with or without its prefix. -/
def complete (data : Str) : Option (List UInt8) :=
  (Bytes.hexDecode (if hexPrefix.isPrefixOf data = true then data.drop 2 else data)).bind committed

/-- A text both read alike. -/
def Same (data : Str) : Prop :=
  if hexPrefix.isPrefixOf data = true then
    ∀ memo, Bytes.hexDecode (data.drop 2) = some memo → ¬IsCommitment memo
  else (Bytes.hexDecode data).isSome = true ∨ ¬IsCommitment (Bytes.hexDecodePrefix data)

/-- Up to the first text that is a commitment for both, each is read alike. -/
def Clear : List Str → Prop
  | [] => True
  | data :: rest => Same data ∧ ((leading data).isSome = true ∨ Clear rest)

/-- The first text that is a commitment for one of them is one for both, or the other comes to the
same bytes behind it. -/
def Agree : List Str → Prop
  | [] => True
  | data :: rest =>
    match leading data, complete data with
    | none, none => Agree rest
    | some _, some _ => True
    -- it is cut short, and the SDK passes it by
    | some bytes, none => rest.findSome? complete = some bytes
    -- it is behind `0x`, and the watcher passes it by
    | none, some bytes => rest.findSome? leading = some bytes

/-- A decoded memo has the hash it commits to. -/
theorem hashOf_decodeMemo (memo : List UInt8) :
    hashOf (Memo.decodeMemo (.ofBytes memo)) = (committed memo).map Memo.toHex := by
  have hbytes : (Memo.Uint8Array.ofBytes memo).bytes = memo := by
    simp [Memo.Uint8Array.ofBytes, Memo.Uint8Array.bytes]
  by_cases hcommit : IsCommitment memo
  · obtain ⟨hlen, hhead⟩ := id hcommit
    have hwell : Memo.WellFormed (Memo.Uint8Array.ofBytes memo).bytes := by
      rw [hbytes]
      refine ⟨by rw [hlen, Memo.HEADER_BYTES]; omega, fun b hb => ?_, fun b hb n hn => ?_⟩
      · rw [hhead, Option.mem_some_iff] at hb
        rw [← hb]
        decide
      · rw [hhead, Option.mem_some_iff] at hb
        rw [← hb] at hn
        rw [hlen]
        exact Option.some.inj hn
    obtain ⟨opcode, wallet, fee, payload, ins, -, -, -, hb, hread, hdecode⟩ :=
      Memo.decodeMemo_of_wellFormed hwell
    rw [hbytes] at hb
    have hop : opcode = Memo.OPCODE.EXECUTE_COMMITTED := by
      rw [hb] at hhead
      exact Option.some.inj hhead
    subst hop
    cases hread
    have hpayload : memo.drop 10 = payload := by
      rw [hb, Memo.memoBytes]
      exact List.drop_left' (Memo.length_headerBytes ..)
    rw [committed, if_pos hcommit, hpayload, hdecode, Option.map_some]
    exact congrArg some (Memo.toLowerCase_toHex payload)
  · rw [committed, if_neg hcommit, Option.map_none]
    cases hd : Memo.decodeMemo (.ofBytes memo) with
    | error e => rfl
    | ok d =>
      have hwell := Memo.wellFormed_of_decodeMemo hd
      obtain ⟨opcode, wallet, fee, payload, ins, -, -, -, hb, hread, hdecode⟩ :=
        Memo.decodeMemo_of_wellFormed hwell
      rw [hbytes] at hwell hb
      obtain rfl := Except.ok.inj (hdecode.symm.trans hd)
      have hhead : memo.head? = some opcode := by rw [hb]; rfl
      have hop : opcode ≠ Memo.OPCODE.EXECUTE_COMMITTED := by
        rintro rfl
        exact hcommit ⟨hwell.length _ hhead 42 rfl, hhead⟩
      -- with any other opcode it is no commitment
      unfold Memo.Instruction.read at hread
      rw [if_neg hop] at hread
      split_ifs at hread <;> (cases hread; rfl)

theorem watcherReads_eq (data : Str) : watcherReads data = (leading data).map Memo.toHex :=
  hashOf_decodeMemo _

/-- The watcher reads nothing behind a prefix. -/
theorem leading_prefixed {data : Str} (h : hexPrefix.isPrefixOf data = true) :
    leading data = none := by
  obtain ⟨rest, rfl⟩ := List.isPrefixOf_iff_prefix.mp h
  rfl

theorem committed_eq_none {memo : List UInt8} : committed memo = none ↔ ¬IsCommitment memo := by
  unfold committed
  split <;> simp [*]

/-- **The two read a text alike exactly when it is not cut short to a commitment**, and is not one
behind a prefix. -/
theorem same_iff (data : Str) : Same data ↔ leading data = complete data := by
  rw [Same]
  by_cases hprefix : hexPrefix.isPrefixOf data = true
  · rw [if_pos hprefix, leading_prefixed hprefix, complete, if_pos hprefix]
    cases hmemo : Bytes.hexDecode (data.drop 2) with
    | none => simp
    | some memo => simp [eq_comm (a := none), committed_eq_none]
  · rw [if_neg hprefix, leading, complete, if_neg hprefix]
    cases hmemo : Bytes.hexDecode data with
    | some memo =>
      rw [Bytes.hexDecodePrefix_of_hexDecode data memo hmemo]
      simp
    | none => simp [committed_eq_none]

/-- Where both read a commitment, it is the same. -/
theorem same_of_some {data : Str} {bytes bytes' : List UInt8} (h : leading data = some bytes)
    (h' : complete data = some bytes') : bytes = bytes' := by
  by_cases hprefix : hexPrefix.isPrefixOf data = true
  · rw [leading_prefixed hprefix] at h
    cases h
  · rw [complete, if_neg hprefix] at h'
    obtain ⟨memo, hmemo, hbytes⟩ := Option.bind_eq_some_iff.mp h'
    rw [leading, Bytes.hexDecodePrefix_of_hexDecode data memo hmemo, hbytes] at h
    exact (Option.some.inj h).symm

/-- **Both take the commitment from one text** exactly if all up to it are read alike. -/
theorem clear_iff (texts : List Str) : Clear texts ↔
    (texts.find? fun data => (leading data).isSome) =
      texts.find? fun data => (complete data).isSome := by
  induction texts with
  | nil => exact iff_of_true trivial rfl
  | cons data rest ih =>
    rw [Clear, same_iff, List.find?_cons, List.find?_cons]
    -- a text that only one of them reads is not what the other takes
    have hother : ∀ reads : Str → Option (List UInt8), reads data = none →
        (rest.find? fun data => (reads data).isSome) ≠ some data := by
      intro reads hnone hfound
      have hsome := List.find?_some hfound
      rw [hnone] at hsome
      cases hsome
    cases hlead : leading data with
    | none =>
      cases hwhole : complete data with
      | none => simp [ih]
      | some bytes => simpa using (hother leading hlead)
    | some bytes =>
      cases hwhole : complete data with
      | none => simpa using (hother complete hwhole).symm
      | some bytes' => simp [same_of_some hlead hwhole]

/-- **Both take the same commitment** exactly if the first text that one of them takes it from is
taken by both, or the other comes to the same further on. -/
theorem agree_iff (texts : List Str) :
    Agree texts ↔ texts.findSome? leading = texts.findSome? complete := by
  induction texts with
  | nil => exact iff_of_true trivial rfl
  | cons data rest ih =>
    rw [Agree, List.findSome?_cons, List.findSome?_cons]
    cases hlead : leading data with
    | none =>
      cases hwhole : complete data with
      | none => exact ih
      | some bytes => exact Iff.rfl
    | some bytes =>
      cases hwhole : complete data with
      | none => exact eq_comm
      | some bytes' => exact iff_of_true trivial (congrArg some (same_of_some hlead hwhole))

/-- From one text, both take one commitment. -/
theorem Clear.agree {texts : List Str} (h : Clear texts) : Agree texts := by
  induction texts with
  | nil => trivial
  | cons data rest ih =>
    obtain ⟨hsame, hrest⟩ := h
    rw [same_iff] at hsame
    rw [Agree, ← hsame]
    cases hlead : leading data with
    | some bytes => trivial
    | none =>
      rw [hlead] at hrest
      exact ih (hrest.resolve_left nofun)

section Readers

variable {viem : Viem} (hv : viem.Lawful)

include hv

/-- The SDK takes exactly the complete texts, with or without their prefix. -/
theorem fromXrplMemoHex_eq (data : Str) :
    (Memo.fromXrplMemoHex viem data).toOption =
      Bytes.hexDecode (if hexPrefix.isPrefixOf data = true then data.drop 2 else data) := by
  unfold Memo.fromXrplMemoHex
  dsimp only
  generalize (if hexPrefix.isPrefixOf data = true then data.drop 2 else data) = clean
  have hdrop : (hexPrefix ++ clean).drop 2 = clean := rfl
  unfold Memo.hexToBytes
  dsimp only
  rw [hdrop]
  by_cases hdigits : ∀ c ∈ clean, Bytes.isHexDigit c = true
  · have hhex : viem.isHex (hexPrefix ++ clean) = true := (hv.isHex_iff _).mpr ⟨clean, rfl, hdigits⟩
    rw [if_neg (by rw [hhex]; decide)]
    by_cases heven : clean.length % 2 = 0
    · obtain ⟨memo, hmemo⟩ := Bytes.hexDecode_total clean hdigits heven
      rw [if_neg (not_not.mpr heven), Memo.parseBytes_of_hexDecode clean memo hmemo, hmemo]
      rfl
    · rw [if_pos heven]
      cases hmemo : Bytes.hexDecode clean with
      | none => rfl
      | some memo =>
        have hlen := Bytes.length_of_hexDecode hmemo
        omega
  · have hhex : viem.isHex (hexPrefix ++ clean) = false := by
      rw [Bool.eq_false_iff]
      intro h
      obtain ⟨body, hbody, hall⟩ := (hv.isHex_iff _).mp h
      exact hdigits ((List.append_cancel_left hbody) ▸ hall)
    rw [if_pos hhex]
    cases hmemo : Bytes.hexDecode clean with
    | none => rfl
    | some memo => exact absurd (Bytes.isHexDigit_of_hexDecode hmemo) hdigits

theorem sdkReads_eq (data : Str) : sdkReads viem data = (complete data).map Memo.toHex := by
  have hreads : sdkReads viem data = (Memo.fromXrplMemoHex viem data).toOption.bind
      fun memo => hashOf (Memo.decodeMemo (.ofBytes memo)) := by
    rw [sdkReads]
    cases Memo.fromXrplMemoHex viem data <;> rfl
  rw [hreads, fromXrplMemoHex_eq hv, complete, Option.map_bind]
  exact congrArg _ (funext hashOf_decodeMemo)

end Readers

/-! ## 3. Sample payments -/

/-- The commitment to a hash of ones. -/
def sampleMemo : List UInt8 :=
  Memo.memoBytes Memo.OPCODE.EXECUTE_COMMITTED 0 1000 (List.replicate 32 0x11)

def sampleHash : Hex := hexPrefix ++ Bytes.hexEncode (List.replicate 32 0x11)

/-- A memo entry with a text. -/
def wrap (data : Str) : Json :=
  Json.obj [("Memo".toList, Json.obj [("MemoData".toList, .str data)])]

def paymentOf (memos : List Json) : XrplTx where
  transactionType := some "Payment".toList
  memos := some (.arr memos)

end MemoGrammar

open MemoGrammar

/-- **The watcher reads the SDK's wire grammar** in the memos of a payment.  It returns what the
grammar says and takes it from the text that the grammar says (so that no text the SDK rejects
yields a commitment, and none that it accepts is missed) exactly if every text up to the first
plain commitment is read alike by both.  The result alone is right in one more case, in which the
reader that passes the first commitment by comes to the same one further on. -/
theorem memo_grammar_iff {viem : Viem} (hv : viem.Lawful) (tx : XrplTx) :
    (commitmentFromMemos tx = sdkCommitment viem (entriesOf tx) ∧
        takenFrom watcherReads (textsOf tx) = takenFrom (sdkReads viem) (textsOf tx) ↔
      Clear (textsOf tx)) ∧
    (commitmentFromMemos tx = sdkCommitment viem (entriesOf tx) ↔ Agree (textsOf tx)) := by
  have htaken : takenFrom watcherReads (textsOf tx) = takenFrom (sdkReads viem) (textsOf tx) ↔
      Clear (textsOf tx) := by
    rw [clear_iff, takenFrom, takenFrom, funext watcherReads_eq, funext (sdkReads_eq hv)]
    simp only [Option.isSome_map]
  have hhex : ∀ reads : Str → Option (List UInt8),
      (textsOf tx).findSome? (fun data => (reads data).map Memo.toHex) =
        ((textsOf tx).findSome? reads).map Memo.toHex := fun reads => List.map_findSome?.symm
  have hresult : commitmentFromMemos tx = sdkCommitment viem (entriesOf tx) ↔
      Agree (textsOf tx) := by
    rw [agree_iff, commitmentFromMemos_eq, sdkCommitment, findSome?_textOf, ← textsOf,
      funext watcherReads_eq, funext (sdkReads_eq hv), hhex, hhex]
    exact (Option.map_injective fun _ _ => Memo.toHex_inj).eq_iff
  refine ⟨?_, hresult⟩
  rw [hresult, htaken]
  exact and_iff_right_of_imp Clear.agree

/-- Behind a memo of someone else's both find the commitment, and neither sees the one behind that,
which is cut short. -/
theorem memo_grammar_sample :
    commitmentFromMemos (paymentOf [wrap "abc".toList, wrap (Bytes.hexEncode sampleMemo),
        wrap (Bytes.hexEncode sampleMemo ++ "zz".toList)]) =
      sdkCommitment (ViemTables.viem {}) [wrap "abc".toList, wrap (Bytes.hexEncode sampleMemo),
        wrap (Bytes.hexEncode sampleMemo ++ "zz".toList)] := by
  have hclear : Clear (textsOf (paymentOf [wrap "abc".toList, wrap (Bytes.hexEncode sampleMemo),
      wrap (Bytes.hexEncode sampleMemo ++ "zz".toList)])) := by
    refine ⟨Or.inr (by decide), Or.inr ⟨Or.inl ?_, Or.inl (by decide +kernel)⟩⟩
    rw [Bytes.hexDecode_hexEncode]
    rfl
  exact ((memo_grammar_iff ViemTables.empty_consistent.lawful (paymentOf _)).1.mpr hclear).1

/-- The watcher reads a commitment in a text that is no hex, and misses the one behind `0x`. -/
theorem watcher_reads_other_grammar :
    (commitmentFromMemos (paymentOf [wrap (Bytes.hexEncode sampleMemo ++ "zz".toList)]) =
        some sampleHash ∧
      sdkCommitment (ViemTables.viem {}) [wrap (Bytes.hexEncode sampleMemo ++ "zz".toList)] = none) ∧
    commitmentFromMemos (paymentOf [wrap (hexPrefix ++ Bytes.hexEncode sampleMemo)]) = none ∧
      sdkCommitment (ViemTables.viem {}) [wrap (hexPrefix ++ Bytes.hexEncode sampleMemo)] =
        some sampleHash := by
  refine ⟨⟨?_, ?_⟩, ?_, ?_⟩
  · decide +kernel
  · decide +kernel
  · decide +kernel
  · decide +kernel

end OneSig.Executor
