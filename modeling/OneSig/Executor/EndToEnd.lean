/-
# From `prepare` to `poll`

The two ends of a payment are written by two packages.  The SDK builds the operation, hashes it,
puts the hash in a memo and prints the memo in upper case; the executor's watcher reads the memos
of a payment with a decoder of its own, and looks up what it finds in the store, whose keys are
lower-case.  Neither imports the other, and here they are composed (`prepared_payment_observed`):
for whatever `prepare` returns, the executor accepts its registration and then reports its
payment.

The caller of the SDK submits the payment itself, so other memos may stand around the one of the
SDK.  Those behind it do not matter; those in front must not be taken for a commitment, which is a
condition on the payment alone (`Carries`, and `commitmentFromMemos` of each memo by itself).

The registration is what the caller posts: the commitment and the bytes of the prepared request,
and any other fields (`Submits`).  Whatever the disk does, the store then holds the record in
memory, and a poll whose page shows the payment returns it: by itself when the page holds nothing
else, and among others unless an earlier entry has its hash.

The value the executor is to forward is the sum of the values of the calls.  The bytes determine
it (`EncodesBytes.sum_eq`), which is the one place where it is used that viem's encoding can be
read back, and only for byte strings of whole bytes.

* `commitmentFromMemos_carries`: the memo; `alone_register_submits`: the registration;
  `alone_poll_holds`: the poll.
-/
import OneSig.Executor.RealPayments
import OneSig.Executor.MemoGrammar
import OneSig.Sdk.Payment

namespace OneSig.Executor

open OneSig Async

namespace EndToEnd

open RealPayments MemoGrammar OneSigClient
open PendingMap (Exchange Answered admitted keys)

/-! ## 1. The memo -/

/-- The `0xFE` memo of a hash, as it is printed, is read as that hash. -/
theorem watcherReads_committed {viem : Viem} (hv : viem.Lawful) {header : Memo.MemoHeader}
    {hash : Hex} {memo : List UInt8} (hhash : IsLowerHex 32 hash)
    (h : Memo.encodeExecuteCommittedMemo viem header hash = .ok memo) :
    watcherReads (Memo.toXrplMemoHex memo) = some hash := by
  have hvalid : (Memo.Instruction.executeCommitted header hash).Valid viem := by
    obtain ⟨bytes, hheader, -⟩ := bind_ok h
    exact ⟨Memo.valid_of_encodeHeader hheader, hhash.isHex⟩
  obtain ⟨memo', hencode, -, -, hdecode⟩ := Memo.decodeMemo_encode hv _ hvalid
  obtain rfl : memo' = memo := Except.ok.inj (hencode.symm.trans h)
  have hbytes : memoBytesOf (Memo.toXrplMemoHex memo') = .ofBytes memo' := by
    rw [memoBytesOf, Memo.toXrplMemoHex, Memo.flatMap_byteText,
      Bytes.hexDecodePrefix_of_hexDecode _ _ (Memo.hexDecode_toUpperCase memo')]
  have hview : (Memo.Uint8Array.ofBytes memo').bytes = memo' := by
    simp [Memo.Uint8Array.ofBytes, Memo.Uint8Array.bytes]
  rw [watcherReads, hbytes, (hdecode _ hview).1]
  exact congrArg some hhash.toLowerCase_eq

/-- The entry that `prepare` writes. -/
theorem commitmentOf_wrap (data : Str) : commitmentOf (wrap data) = watcherReads data := by
  rw [commitmentOf_eq]
  rfl

/-- A payment with one memo. -/
def alone (wrapper : Json) : XrplTx where
  transactionType := some "Payment".toList
  memos := some (.arr [wrapper])

theorem commitmentFromMemos_alone (wrapper : Json) :
    commitmentFromMemos (alone wrapper) = commitmentOf wrapper := by
  cases h : commitmentOf wrapper <;> simp [commitmentFromMemos, alone, h]

/-- The memos of the payment: the one of the SDK, and others around it. -/
structure Carries (payment : XrplPayment) (before after : List Json) (tx : XrplTx) : Prop where
  transactionType : tx.transactionType = some "Payment".toList
  memos : tx.memos = some (.arr (before ++ wrap payment.memoData :: after))

/-- **The commitment of the SDK is the one that is found**, whatever memos stand behind its own,
as long as none in front is taken for a commitment. -/
theorem commitmentFromMemos_carries {payment : XrplPayment} {before after : List Json} {tx : XrplTx}
    (h : Carries payment before after tx) {hash : Hex}
    (hread : watcherReads payment.memoData = some hash)
    (hbefore : ∀ wrapper ∈ before, commitmentFromMemos (alone wrapper) = none) :
    commitmentFromMemos tx = some hash := by
  have hnone : before.findSome? commitmentOf = none := by
    refine List.findSome?_eq_none_iff.mpr fun wrapper hmem => ?_
    rw [← commitmentFromMemos_alone]
    exact hbefore wrapper hmem
  unfold commitmentFromMemos
  rw [h.memos]
  dsimp only
  rw [List.findSome?_append, hnone, Option.none_or, List.findSome?_cons, commitmentOf_wrap, hread]

/-! ## 2. The registration -/

/-- A registration of what was prepared.  The other fields are the caller's. -/
structure Submits (req : PreparedRequest) (entry : Entry) : Prop where
  userOpData : entry.userOpData = .str req.userOpData
  commitment : entry.commitment = some (.str req.userOpHash)
  label : ∃ text, entry.label = .str text

theorem admitted_of_submits {o : Options} {req : PreparedRequest} {entry : Entry} {now : Int}
    (h : Submits req entry) (hhash : o.viem.keccak256 req.userOpData = .ok req.userOpHash) :
    admitted o entry now = .ok (entry.record req.userOpData req.userOpHash now) := by
  have hdata : keccak256 o.viem entry.userOpData = .ok (req.userOpData, req.userOpHash) := by
    rw [h.userOpData, keccak256, hhash]
    rfl
  have hcheck : checkCommitment entry.commitment req.userOpHash = .ok () := by
    rw [h.commitment]
    simp [checkCommitment]
  simp [admitted, hdata, hcheck, bind, Except.bind, pure, Except.pure]

/-- The store holds a record of this operation, with a label that can be printed. -/
structure Holds (req : PreparedRequest) (s : St) (record : PendingUserOp) : Prop where
  near : (PendingMap.view s).near (keys.key req.userOpHash) = some record
  label : ∃ text, record.label = .str text

/-- Whatever the disk does, the store then holds the record; and if it does what it is asked the
registration is answered with the commitment. -/
theorem alone_register_submits {o : Options} {req : PreparedRequest} {entry : Entry}
    (h : Submits req entry) (hhash : o.viem.keccak256 req.userOpData = .ok req.userOpHash)
    {s : St} : Alone (W := world) clockTo (fun _ => True) (PendingStore.register o entry)
      (fun calls res s' => (∃ record, Holds req s' record) ∧
        ((∀ x ∈ calls, Answered x) → res = .ok req.userOpHash)) s := by
  refine alone_mono (PendingMap.alone_register o entry) ?_
  rintro calls res s' hreg
  unfold PendingMap.Registered at hreg
  rw [admitted_of_submits h hhash] at hreg
  refine ⟨⟨entry.record req.userOpData req.userOpHash s.mem.now, ?_, h.label⟩,
    fun hall => (hreg.done hall).1⟩
  change s'.mem.memory.get? (toLowerCase req.userOpHash) = _
  rw [hreg.memory]
  exact (JsMap.get?_set ..).trans (if_pos rfl)

/-! ## 3. The poll -/

/-- A validated entry with a hash. -/
structure Delivered (x : AccountTxEntry) (tx : XrplTx) (hash : Str) : Prop where
  validated : x.validated = some true
  carried : (x.tx_json.orElse fun _ => x.tx) = some tx
  named : x.paymentHash tx = some hash
  nonempty : hash ≠ []

section Poll

variable {x : AccountTxEntry} {tx : XrplTx} {hash : Str} {req : PreparedRequest} {s : St}
  {record : PendingUserOp}

theorem Delivered.payment (h : Delivered x tx hash)
    (htype : tx.transactionType = some "Payment".toList) : x.payment = some tx := by
  rw [AccountTxEntry.payment, h.validated, if_neg (by decide), h.carried, Option.filter_some,
    if_pos (decide_eq_true htype)]

theorem Holds.registered (h : Holds req s record) : registered s req.userOpHash = true := by
  rw [RealPayments.registered, Cache.lookup_of_near h.near]
  rfl

/-- A lookup of what the memory holds makes no call. -/
theorem alone_get_holds {adm : Exchange → Prop}
    {Q : List Exchange → Except JsError (Option PendingUserOp) → St → Prop} (h : Holds req s record)
    (hQ : Q [] (.ok (some record)) s) :
    Alone (W := world) clockTo adm (PendingStore.get req.userOpHash) Q s := by
  unfold PendingStore.get
  refine alone_then (alone_gets ⟨rfl, _, rfl, ?_⟩)
  have hnear : s.mem.memory.get? (toLowerCase req.userOpHash) = some record := h.near
  rw [hnear]
  exact alone_pure hQ

/-- A new payment for an operation the memory holds is reported. -/
theorem alone_pollEntry_holds {adm : Exchange → Prop} (hx : Delivered x tx hash)
    (htype : tx.transactionType = some "Payment".toList)
    (hc : commitmentFromMemos tx = some req.userOpHash) (h : Holds req s record)
    (hfresh : hash ∉ s.mem.seen) :
    Alone (W := world) clockTo adm (Watcher.pollEntry x)
      (fun _ res _ => res = .ok (some (x.observed tx hash req.userOpHash))) s := by
  have hvalid : ¬ x.validated = some false := by
    rw [hx.validated]
    decide
  have hnamed : (x.hash.orElse fun _ => tx.hash) = some hash := hx.named
  unfold Watcher.pollEntry
  rw [if_neg hvalid, hx.carried]
  dsimp only
  rw [if_neg (not_not.mpr htype), hnamed]
  refine alone_then (alone_modify ⟨rfl, _, rfl, ?_⟩)
  refine alone_then (alone_gets ⟨rfl, _, rfl, ?_⟩)
  have hnew : ¬ Watcher.alreadySeen (some hash) s.mem.seen = true := by
    intro hseen
    obtain ⟨hash', heq, -, hmem⟩ := alreadySeen_iff.mp hseen
    obtain rfl := Option.some.inj heq
    exact hfresh hmem
  change Alone (W := world) clockTo adm (if Watcher.alreadySeen (some hash) s.mem.seen = true then _
    else _) _ _
  rw [if_neg hnew, hc]
  dsimp only
  have hover : Holds req ⟨Watcher.advanceCursor (x.ledger_index.getD 0) s.mem, s.world⟩ record :=
    ⟨h.near, h.label⟩
  refine alone_then (alone_get_holds hover ⟨rfl, _, rfl, ?_⟩)
  obtain ⟨text, htext⟩ := h.label
  cases hash with
  | nil => exact absurd rfl hx.nonempty
  | cons b bs =>
    refine alone_then (alone_modify ⟨rfl, _, rfl, ?_⟩)
    rw [htext]
    exact alone_lift_seq (fun _ _ => alone_pure rfl) nofun

/-- **The payment on its own page** is reported with the commitment of the operation, and nothing
is thrown, when the memory holds a record of it and its hash is new. -/
theorem alone_poll_holds {adm : Exchange → Prop} (o : Options) (limit : Nat)
    (hx : Delivered x tx hash) (htype : tx.transactionType = some "Payment".toList)
    (hc : commitmentFromMemos tx = some req.userOpHash) (h : Holds req s record)
    (hfresh : hash ∉ s.mem.seen) :
    Alone (W := world) clockTo adm (Watcher.poll o limit) (fun calls res _ =>
      pageOf calls = [x] → res = .ok [x.observed tx hash req.userOpHash]) s := by
  unfold Watcher.poll
  refine alone_then (alone_gets ⟨rfl, _, rfl, ?_⟩)
  refine alone_seq (alone_accountTx _ _ _) ?_ ?_
  · rintro calls page s₁ ⟨⟨now, rfl⟩, y, rfl, -, hy⟩
    by_cases hpage : page.getD [] = [x]
    · have hholds : Holds req ⟨clockTo now s.mem, s.world⟩ record := ⟨h.near, h.label⟩
      rw [hpage]
      unfold Watcher.pollLoop
      refine alone_seq (alone_pollEntry_holds hx htype hc hholds hfresh) ?_ ?_
      · rintro calls' payment s₂ hpayment
        obtain rfl := Except.ok.inj hpayment
        exact alone_then (alone_pure ⟨rfl, _, rfl, alone_pure fun _ => rfl⟩)
      · rintro calls' e s₂ ⟨⟩
    · intro answers out _ _ hsingle
      refine absurd ?_ hpage
      rw [← hsingle, pageOf, List.singleton_append, List.head?_cons, Option.map_some,
        (hy page).mp rfl]
      cases page <;> rfl
  · rintro calls e s₁ ⟨-, y, rfl, -, hy⟩ hsingle
    rw [pageOf, List.head?_cons, Option.map_some] at hsingle
    split at hsingle
    case h_1 page hchoice => cases (hy (some page)).mpr (Option.some.inj hchoice)
    case h_2 => cases hsingle

/-- Among others on the page it is reported unless an earlier one has its hash. -/
theorem mem_reports_holds {earlier later : List AccountTxEntry} (hx : Delivered x tx hash)
    (htype : tx.transactionType = some "Payment".toList)
    (hc : commitmentFromMemos tx = some req.userOpHash) (h : Holds req s record)
    (hfresh : hash ∉ s.mem.seen)
    (hearlier : ∀ y ∈ earlier, ∀ tx', y.payment = some tx' → y.paymentHash tx' ≠ some hash) :
    x.observed tx hash req.userOpHash ∈ reports s s.mem.seen (earlier ++ x :: later) := by
  refine mem_reports_iff.mpr ⟨earlier, x, later, rfl, reportOf_eq_some.mpr ?_, ?_⟩
  · exact ⟨⟨tx, hx.payment htype, hx.named, hc, rfl⟩, hx.nonempty, hfresh, h.registered⟩
  · intro y hy q hq heq
    obtain ⟨⟨tx', hpay, hname, -, -⟩, -⟩ := reportOf_eq_some.mp hq
    exact hearlier y hy tx' hpay (hname.trans (congrArg some heq))

end Poll

/-! ## 4. The value -/

/-- The calls encoded in the bytes of an operation. -/
def Encodes (viem : Viem) (userOpData : Hex) (calls : List Call) : Prop :=
  ∃ op, viem.encodeAbiParameters op = .ok userOpData ∧
    viem.encodeFunctionData calls = .ok op.callData

theorem totalCallValue_eq_sum (calls : List Call) :
    totalCallValue calls = (calls.map Call.value).sum := by
  rw [totalCallValue, List.sum_eq_foldl, List.foldl_map]

/-- The same of an operation and calls whose byte strings are strings of whole bytes. -/
structure EncodesBytes (viem : Viem) (userOpData : Hex) (calls : List Call) : Prop where
  bytes : ∀ c ∈ calls, c.Bytes
  op : ∃ op : PackedUserOperation, op.Bytes ∧ viem.encodeAbiParameters op = .ok userOpData ∧
    viem.encodeFunctionData calls = .ok op.callData

/-- The bytes determine the sum: the ABI can be read back, and the values are part of it. -/
theorem EncodesBytes.sum_eq {viem : Viem} (hv : viem.Encoding) {userOpData : Hex}
    {calls calls' : List Call}
    (h : EncodesBytes viem userOpData calls) (h' : EncodesBytes viem userOpData calls') :
    (calls.map Call.value).sum = (calls'.map Call.value).sum := by
  obtain ⟨op, hbytes, hop, hcalls⟩ := h.op
  obtain ⟨op', hbytes', hop', hcalls'⟩ := h'.op
  have hsame := hv.encodeAbiParameters_inj _ _ _ _ hbytes hbytes' hop hop' rfl
  have hbatch := hv.encodeFunctionData_inj _ _ _ _ h.bytes h'.bytes hcalls hcalls'
    (congrArg PackedUserOperation.callData hsame)
  rw [← totalCallValue_eq_sum, ← totalCallValue_canonical, hbatch, totalCallValue_canonical,
    totalCallValue_eq_sum]

/-! ## 5. The two ends -/

/-- The payment is reported with its commitment: by itself if its page holds nothing else, and
among others if none before it has its hash. -/
structure Reported (o : Options) (req : PreparedRequest) (tx : XrplTx) (t : St) : Prop where
  single : ∀ x hash limit answers out, Delivered x tx hash →
    exec (W := world) clockTo (Watcher.poll o limit) answers t = some out →
    pageOf out.calls = [x] → out.res = .ok [x.observed tx hash req.userOpHash]
  among : ∀ x hash limit answers out earlier later found, Delivered x tx hash →
    exec (W := world) clockTo (Watcher.poll o limit) answers t = some out →
    (∀ y ∈ out.calls, Answered y) → pageOf out.calls = earlier ++ x :: later →
    (∀ y ∈ earlier, ∀ tx', y.payment = some tx' → y.paymentHash tx' ≠ some hash) →
    out.res = .ok found → x.observed tx hash req.userOpHash ∈ found

theorem Holds.reported {req : PreparedRequest} {t : St} {record : PendingUserOp}
    (h : Holds req t record) (o : Options) {tx : XrplTx}
    (htype : tx.transactionType = some "Payment".toList)
    (hc : commitmentFromMemos tx = some req.userOpHash) (hfresh : t.mem.seen = []) :
    Reported o req tx t := by
  have hnew : ∀ hash, hash ∉ t.mem.seen := by
    intro hash
    rw [hfresh]
    exact List.not_mem_nil
  constructor
  · intro x hash limit answers out hx hexec hpage
    have hpoll : Alone (W := world) clockTo (fun _ => True) (Watcher.poll o limit) _ t :=
      alone_poll_holds o limit hx htype hc h (hnew hash)
    exact hpoll answers out hexec (fun _ _ => trivial) hpage
  · intro x hash limit answers out earlier later found hx hexec hadm hpage hearlier hres
    rw [poll_found o limit hexec hadm hres, hpage]
    exact mem_reports_holds hx htype hc h (hnew hash) hearlier

/-- What the SDK, the store and the watcher are to agree on. -/
structure Agrees (o : Options) (params : PrepareParams) (req : PreparedRequest) (tx : XrplTx) :
    Prop where
  hashed : o.viem.keccak256 req.userOpData = .ok req.userOpHash
  found : commitmentFromMemos tx = some req.userOpHash
  accepted : ∀ entry s answers out, Submits req entry →
    exec (W := world) clockTo (PendingStore.register o entry) answers s = some out →
    (∀ x ∈ out.calls, Answered x) → out.res = .ok req.userOpHash
  reported : ∀ entry s answers out, Submits req entry →
    exec (W := world) clockTo (PendingStore.register o entry) answers s = some out →
    ∀ t, PendingMap.view t = PendingMap.view out.st → t.mem.seen = [] → Reported o req tx t
  encoded : Encodes o.viem req.userOpData params.calls
  value : req.totalCallValue = (params.calls.map Call.value).sum
  -- and of whatever calls these bytes encode
  readBack : (∀ c ∈ params.calls, c.Bytes) → ∀ calls, EncodesBytes o.viem req.userOpData calls →
    req.totalCallValue = (calls.map Call.value).sum

end EndToEnd

open EndToEnd

namespace SampleEnd

def options : Options := { SamplePending.options with viem := SampleOp.tables.viem }

def params : PrepareParams where
  xrplAddress := "rUser".toList
  calls := SampleOp.calls
  label := "pay".toList
  netMintUBA := 1000000

def reads : PrepareReads where
  personalAccount := SampleOp.sender
  destination := "rVault".toList
  fees := ⟨100, 25, 1000⟩
  nonce := 7
  executor := ZERO_ADDRESS

/-- Memos that the watcher has to get past: no object, no text, no hexadecimal, another opcode. -/
def before : List Json :=
  [.null, Json.obj [("Memo".toList, .null)], MemoGrammar.wrap "zz".toList,
    MemoGrammar.wrap "E000".toList]

/-- The payment among other memos, one of them a commitment behind it. -/
def paid (payment : XrplPayment) : XrplTx where
  transactionType := some "Payment".toList
  memos := some (.arr (before ++ MemoGrammar.wrap payment.memoData ::
    [MemoGrammar.wrap ("FE000000000000000000".toList ++ List.replicate 64 'A')]))

theorem before_silent :
    ∀ wrapper ∈ before, commitmentFromMemos (EndToEnd.alone wrapper) = none := by
  intro wrapper hmem
  have hall : before.all (fun wrapper =>
      (commitmentFromMemos (EndToEnd.alone wrapper)).isNone) = true := by decide +kernel
  exact Option.isNone_iff_eq_none.mp (List.all_eq_true.mp hall wrapper hmem)

end SampleEnd

/-- **The SDK and the watcher agree end to end**: the payment that `prepare` assembles, with any
other memos behind its own and any that are no commitment in front, is found with the hash of its
operation; the operation can be registered, and a fresh watcher then reports the payment. -/
theorem prepared_payment_observed {o : Options} (hv : o.viem.Lawful)
    (hencoding : o.viem.Encoding) {params : PrepareParams} {reads : PrepareReads} {req : PreparedRequest}
    (hprepare : OneSigClient.prepare o.viem params reads = .ok req) {before after : List Json}
    {tx : XrplTx} (hcarries : EndToEnd.Carries req.xrplPayment before after tx)
    (hbefore : ∀ wrapper ∈ before, commitmentFromMemos (alone wrapper) = none) :
    Agrees o params req tx := by
  obtain ⟨op, memo, hreq⟩ := OneSigClient.prepare_ok hprepare
  obtain ⟨hcalls, hdata, hhash, -, -⟩ := prepareUserOp_ok hreq.built
  have hlow := hv.keccak256_shape _ _ hhash
  have hread := watcherReads_committed hv hlow hreq.encoded
  rw [← hreq.memoData, ← hreq.userOpHash] at hread
  rw [← hreq.userOpData, ← hreq.userOpHash] at hhash
  have hfound := commitmentFromMemos_carries hcarries hread hbefore
  have hencodes : Encodes o.viem req.userOpData params.calls :=
    ⟨op.userOp, hreq.userOpData ▸ hdata, hcalls⟩
  have hvalue : req.totalCallValue = (params.calls.map Call.value).sum := by
    rw [hreq.callValue, totalCallValue_eq_sum]
  refine ⟨hhash, hfound, ?_, ?_, hencodes, hvalue, ?_⟩
  · intro entry s answers out hsubmits hexec
    exact (alone_register_submits hsubmits hhash _ _ hexec fun _ _ => trivial).2
  · intro entry s answers out hsubmits hexec t hview hfresh
    obtain ⟨⟨record, hholds⟩, -⟩ :=
      alone_register_submits hsubmits hhash _ _ hexec fun _ _ => trivial
    have hthere : Holds req t record := ⟨hview ▸ hholds.near, hholds.label⟩
    exact hthere.reported o hcarries.transactionType hfound hfresh
  · intro hbytes calls hcalls'
    have hop := bytes_of_prepareUserOp hencoding hreq.built hbytes
    rw [hvalue]
    exact EncodesBytes.sum_eq hencoding
      ⟨hbytes, op.userOp, hop, hreq.userOpData ▸ hdata, hcalls⟩ hcalls'

open SampleEnd in
/-- A prepared payment between memos of other kinds. -/
theorem prepared_payment_observed_sample :
    ∃ req, OneSigClient.prepare SampleEnd.options.viem SampleEnd.params reads = .ok req ∧
      Agrees SampleEnd.options SampleEnd.params req (paid req.xrplPayment) := by
  have hok : (OneSigClient.prepare SampleEnd.options.viem SampleEnd.params reads).toOption.isSome =
      true := by
    decide +kernel
  cases hprepare : OneSigClient.prepare SampleEnd.options.viem SampleEnd.params reads with
  | error e =>
    rw [hprepare] at hok
    cases hok
  | ok req =>
    exact ⟨req, rfl, prepared_payment_observed SampleOp.tables_consistent.lawful
      SampleOp.tables_faithful.encoding hprepare ⟨rfl, rfl⟩ before_silent⟩

end OneSig.Executor
