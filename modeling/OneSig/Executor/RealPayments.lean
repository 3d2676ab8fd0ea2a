/-
# What the watcher takes for a payment to the vault

`account_tx` lists every transaction that touches the account: what is paid to it, what it pays
itself, and what failed but claimed a fee.  A poll looks at the type of a transaction, at its
memos and at whether the entry is marked unvalidated, never at the destination or the result,
although it is documented to return the payments to the vault.  A payment that the vault itself
makes, with a memo that commits to a registered operation, is therefore reported as one that it
gets (`outgoing_payment_reported`).

So what a poll reports is a payment to the vault exactly when the entries that get through its
checks all are (`polled_payments_real_iff`).  `GetsThrough` names these entries in terms of the
response, the store and the payments seen before: the first entry under its hash that is a
payment, is not marked unvalidated and commits to an operation that is registered.  The response
has here what the watcher does not read, the destination and the result, and `ResponseEntry.read`
forgets them.

A poll is taken on its own, over any store, any set of payments seen before and any page.  It
looks commitments up in the store, which fills the store's memory from the disk, and finds the
same under every commitment afterwards (`SameStore`).

* `reportOf`, `reports`: what is reported of an entry and of a page, computed from the state
  before the poll.
* `mem_reports_iff`: an entry is reported unless an earlier one got through with its hash.
* `alone_poll`: a poll on its own reports this, or stops at a label that cannot be printed.
-/
import OneSig.Executor.PendingMap
import OneSig.Executor.PollSpec

namespace OneSig.Executor

open OneSig Async

namespace RealPayments

open PendingMap (Exchange Answered keys)

/-! ## 1. The response -/

/-- A transaction as the server sends it: what the watcher reads of it, and whom it pays. -/
structure Transaction where
  read : XrplTx
  destination : Option Str

/-- An entry of the response, with `meta.TransactionResult`. -/
structure ResponseEntry where
  hash : Option Str := none
  ledger_index : Option Int := none
  validated : Option Bool := none
  tx_json : Option Transaction := none
  tx : Option Transaction := none
  transactionResult : Option Str := none

/-- What the watcher reads of an entry. -/
def ResponseEntry.read (x : ResponseEntry) : AccountTxEntry where
  hash := x.hash
  ledger_index := x.ledger_index
  validated := x.validated
  tx_json := x.tx_json.map Transaction.read
  tx := x.tx.map Transaction.read

/-- The transaction of an entry, in either shape of the response. -/
def ResponseEntry.transaction (x : ResponseEntry) : Option Transaction :=
  x.tx_json.orElse fun _ => x.tx

/-- A validated payment to the vault that succeeded. -/
structure Genuine (o : Options) (x : ResponseEntry) : Prop where
  validated : x.validated = some true
  succeeded : x.transactionResult = some "tesSUCCESS".toList
  paid : ∃ t, x.transaction = some t ∧ t.read.transactionType = some "Payment".toList ∧
    t.destination = some o.coreVaultAddress

/-- A reported payment is that of an entry. -/
def IsReport (p : ObservedPayment) (x : AccountTxEntry) : Prop :=
  ∃ tx, x.payment = some tx ∧ x.paymentHash tx = some p.xrplTxId ∧
    commitmentFromMemos tx = some p.commitment ∧ p = x.observed tx p.xrplTxId p.commitment

/-! ## 2. What a poll reports -/

/-- The store finds a record for the commitment. -/
def registered (s : St) (c : Hex) : Bool := (Cache.lookup keys (PendingMap.view s) c).isSome

/-- What is reported of an entry: a payment with a hash that is new and a registered commitment. -/
def reportOf (s : St) (seen : List Str) (x : AccountTxEntry) : Option ObservedPayment :=
  x.payment.bind fun tx => (x.paymentHash tx).bind fun hash =>
    if hash = [] ∨ hash ∈ seen then none
    else ((commitmentFromMemos tx).filter (registered s)).map (x.observed tx hash)

/-- What is reported of a page. -/
def reports (s : St) : List Str → List AccountTxEntry → List ObservedPayment
  | _, [] => []
  | seen, x :: rest =>
    match reportOf s seen x with
    | some p => p :: reports s (p.xrplTxId :: seen) rest
    | none => reports s seen rest

section Reports

variable {s : St} {seen : List Str} {x : AccountTxEntry} {p : ObservedPayment}

theorem reportOf_eq_some : reportOf s seen x = some p ↔
    IsReport p x ∧ p.xrplTxId ≠ [] ∧ p.xrplTxId ∉ seen ∧ registered s p.commitment = true := by
  unfold reportOf IsReport
  constructor
  · intro h
    obtain ⟨tx, htx, h⟩ := Option.bind_eq_some_iff.mp h
    obtain ⟨hash, hhash, h⟩ := Option.bind_eq_some_iff.mp h
    split at h
    · cases h
    case isFalse hfresh =>
      obtain ⟨c, hc, rfl⟩ := Option.map_eq_some_iff.mp h
      obtain ⟨hcommit, hreg⟩ := Option.filter_eq_some_iff.mp hc
      rw [not_or] at hfresh
      exact ⟨⟨tx, htx, hhash, hcommit, rfl⟩, hfresh.1, hfresh.2, hreg⟩
  · rintro ⟨⟨tx, htx, hhash, hcommit, heq⟩, hne, hfresh, hreg⟩
    rw [htx, Option.bind_some, hhash, Option.bind_some, if_neg (not_or.mpr ⟨hne, hfresh⟩), hcommit,
      Option.filter_some, if_pos hreg, Option.map_some, ← heq]

/-- One more payment that was seen. -/
theorem reportOf_cons {hash : Str} : reportOf s (hash :: seen) x = some p ↔
    reportOf s seen x = some p ∧ p.xrplTxId ≠ hash := by
  simp only [reportOf_eq_some, List.mem_cons, not_or]
  tauto

/-- **What a page reports**: of each entry that gets through, what is reported of it, unless an
earlier entry of the page got through with its hash. -/
theorem mem_reports_iff {page : List AccountTxEntry} : p ∈ reports s seen page ↔
    ∃ before x after, page = before ++ x :: after ∧ reportOf s seen x = some p ∧
      ∀ y ∈ before, ∀ q, reportOf s seen y = some q → q.xrplTxId ≠ p.xrplTxId := by
  induction page generalizing seen with
  | nil => simp [reports]
  | cons x rest ih =>
    cases hx : reportOf s seen x with
    | none =>
      simp only [reports, hx, ih]
      constructor
      · rintro ⟨before, y, after, rfl, hy, hfirst⟩
        refine ⟨x :: before, y, after, rfl, hy, ?_⟩
        simpa [hx] using hfirst
      · rintro ⟨before, y, after, heq, hy, hfirst⟩
        rcases List.cons_eq_append_iff.mp heq with ⟨rfl, hcons⟩ | ⟨before', rfl, hrest⟩
        · obtain ⟨rfl, -⟩ := List.cons.inj hcons
          rw [hx] at hy
          cases hy
        · exact ⟨before', y, after, hrest, hy, fun z hz => hfirst z (List.mem_cons_of_mem _ hz)⟩
    | some r =>
      simp only [reports, hx, List.mem_cons, ih]
      constructor
      · rintro (rfl | ⟨before, y, after, rfl, hy, hfirst⟩)
        · exact ⟨[], x, rest, rfl, hx, by simp⟩
        · obtain ⟨hy, hne⟩ := reportOf_cons.mp hy
          refine ⟨x :: before, y, after, rfl, hy, ?_⟩
          intro z hz q hq
          rcases List.mem_cons.mp hz with rfl | hz
          · rw [hx] at hq
            obtain rfl := Option.some.inj hq
            exact hne.symm
          · by_cases hqr : q.xrplTxId = r.xrplTxId
            · rw [hqr]
              exact hne.symm
            · exact hfirst z hz q (reportOf_cons.mpr ⟨hq, hqr⟩)
      · rintro ⟨before, y, after, heq, hy, hfirst⟩
        rcases List.cons_eq_append_iff.mp heq with ⟨rfl, hcons⟩ | ⟨before', rfl, hrest⟩
        · obtain ⟨rfl, -⟩ := List.cons.inj hcons
          rw [hx] at hy
          exact Or.inl (Option.some.inj hy).symm
        · have hne := hfirst x List.mem_cons_self r hx
          refine Or.inr ⟨before', y, after, hrest, reportOf_cons.mpr ⟨hy, hne.symm⟩, ?_⟩
          intro z hz q hq
          exact hfirst z (List.mem_cons_of_mem _ hz) q (reportOf_cons.mp hq).1

end Reports

/-! ## 3. The poll -/

/-- The store finds the same under every commitment, and nothing that is not the store's or the
watcher's has changed. -/
structure SameStore (s s' : St) : Prop where
  lookup : ∀ c, IsLowerHex 32 c →
    Cache.lookup keys (PendingMap.view s') c = Cache.lookup keys (PendingMap.view s) c
  live : s'.mem.live = s.mem.live
  heap : s'.mem.heap = s.mem.heap
  world : s'.world = s.world

theorem SameStore.refl (s : St) : SameStore s s := ⟨fun _ _ => rfl, rfl, rfl, rfl⟩

theorem SameStore.trans {s s' s'' : St} (h : SameStore s s') (h' : SameStore s' s'') :
    SameStore s s'' where
  lookup := fun c hc => (h'.lookup c hc).trans (h.lookup c hc)
  live := h'.live.trans h.live
  heap := h'.heap.trans h.heap
  world := h'.world.trans h.world

theorem SameStore.reportOf {s s' : St} (h : SameStore s s') (seen : List Str)
    (x : AccountTxEntry) : reportOf s' seen x = reportOf s seen x := by
  have hfilter : ∀ tx, (commitmentFromMemos tx).filter (registered s') =
      (commitmentFromMemos tx).filter (registered s) := by
    intro tx
    cases hc : commitmentFromMemos tx with
    | none => rfl
    | some c =>
      have hreg : registered s' c = registered s c :=
        congrArg Option.isSome (h.lookup c (commitmentFromMemos_shape hc))
      rw [Option.filter_some, Option.filter_some, hreg]
  simp only [RealPayments.reportOf, hfilter]

theorem SameStore.reports {s s' : St} (h : SameStore s s') (seen : List Str)
    (page : List AccountTxEntry) : reports s' seen page = reports s seen page := by
  induction page generalizing seen with
  | nil => rfl
  | cons x rest ih => simp only [RealPayments.reports, h.reportOf, ih]

/-- The clock is no part of it. -/
theorem sameStore_clockTo (now : Int) (s : St) : SameStore s ⟨clockTo now s.mem, s.world⟩ :=
  ⟨fun _ _ => rfl, rfl, rfl, rfl⟩

/-- A lookup leaves the store as it is, for commitments. -/
theorem sameStore_fill {s s' : St} {c : Hex} (hc : IsLowerHex 32 c)
    (h : PendingMap.view s' = Cache.fill keys c (PendingMap.view s)) (hworld : s'.world = s.world)
    (hmem : PendingMap.MapOnly s.mem s'.mem) : SameStore s s' := by
  obtain ⟨memory, now, hmem⟩ := hmem
  refine ⟨fun c' hc' => ?_, by rw [hmem], by rw [hmem], hworld⟩
  have hname : keys.key c' = keys.key c → keys.name c' = keys.name c := by
    intro hkey
    have hkey : toLowerCase c' = toLowerCase c := hkey
    rw [hc'.toLowerCase_eq, hc.toLowerCase_eq] at hkey
    rw [hkey]
  rw [h, Cache.lookup_fill hname]

/-- The label of the record of a commitment can be printed. -/
def printable (s : St) (c : Hex) : Bool :=
  (Cache.lookup keys (PendingMap.view s) c).all fun record => record.label.text.isOk

theorem SameStore.printable {s s' : St} (h : SameStore s s') {c : Hex} (hc : IsLowerHex 32 c) :
    printable s' c = printable s c := by
  rw [RealPayments.printable, RealPayments.printable, h.lookup c hc]

/-- What a poll makes of an entry: what is to be reported of it, and its hash marked.  It throws
when the label of the record cannot be printed. -/
structure Polled (s : St) (x : AccountTxEntry) (res : Except JsError (Option ObservedPayment))
    (s' : St) : Prop where
  store : SameStore s s'
  found : ∀ found, res = .ok found → found = reportOf s s.mem.seen x ∧
    s'.mem.seen = (found.map ObservedPayment.xrplTxId).toList ++ s.mem.seen ∧
    ∀ p ∈ found, printable s p.commitment = true
  thrown : ∀ e, res = .error e →
    ∃ p, reportOf s s.mem.seen x = some p ∧ printable s p.commitment = false

theorem Polled.pass {s s' : St} {x : AccountTxEntry} (hstore : SameStore s s')
    (hseen : s'.mem.seen = s.mem.seen) (hnone : reportOf s s.mem.seen x = none) :
    Polled s x (.ok none) s' := by
  refine ⟨hstore, ?_, by rintro e ⟨⟩⟩
  rintro found ⟨⟩
  exact ⟨hnone.symm, hseen, by rintro p ⟨⟩⟩

/-- A payment whose hash is missing, empty or seen is not reported. -/
theorem reportOf_of_hash {s : St} {seen : List Str} {x : AccountTxEntry} {tx : XrplTx}
    (htx : x.payment = some tx)
    (h : ∀ hash, x.paymentHash tx = some hash → hash = [] ∨ hash ∈ seen) :
    reportOf s seen x = none := by
  rw [reportOf, htx, Option.bind_some]
  cases hhash : x.paymentHash tx with
  | none => rfl
  | some hash => rw [Option.bind_some, if_pos (h hash hhash)]

/-- A payment without a registered commitment is not reported. -/
theorem reportOf_of_commitment {s : St} {seen : List Str} {x : AccountTxEntry} {tx : XrplTx}
    (htx : x.payment = some tx)
    (h : ∀ c, commitmentFromMemos tx = some c → registered s c = false) :
    reportOf s seen x = none := by
  have hnone : (commitmentFromMemos tx).filter (registered s) = none := by
    rw [Option.filter_eq_none_iff]
    intro c hc
    simp [h c hc]
  rw [reportOf, htx, Option.bind_some]
  cases x.paymentHash tx with
  | none => rfl
  | some hash => rw [Option.bind_some, hnone, Option.map_none, ite_self]

/-- The loop's own test of the seen-set. -/
theorem alreadySeen_iff {hash : Option Str} {seen : List Str} :
    Watcher.alreadySeen hash seen = true ↔ ∃ h, hash = some h ∧ h ≠ [] ∧ h ∈ seen := by
  cases hash with
  | none => simp [Watcher.alreadySeen]
  | some h => simp [Watcher.alreadySeen]

/-- The report of a payment: its hash is marked, and the label of its record printed. -/
theorem alone_report {x : AccountTxEntry} {p : ObservedPayment} {s s₁ : St}
    (hstore : SameStore s s₁) (hseen : s₁.mem.seen = s.mem.seen)
    (hreport : reportOf s s.mem.seen x = some p) {text : Except JsError Str}
    (hprint : printable s p.commitment = text.isOk) :
    Alone (W := world) clockTo Answered (do
      Prog.modify (S := sig) (Watcher.markSeen p.xrplTxId)
      let _ ← Prog.lift (S := sig) text
      return some p) (fun _ res s' => Polled s x res s') s₁ := by
  refine alone_then (alone_modify ⟨rfl, _, rfl, ?_⟩)
  have hmarked : SameStore s ⟨Watcher.markSeen p.xrplTxId s₁.mem, s₁.world⟩ :=
    ⟨hstore.lookup, hstore.live, hstore.heap, hstore.world⟩
  refine alone_lift_seq (fun text htext => alone_pure ⟨hmarked, ?_, by rintro e ⟨⟩⟩) fun e htext =>
    ⟨hmarked, by rintro found ⟨⟩, fun _ _ => ⟨p, hreport, ?_⟩⟩
  · rintro found ⟨⟩
    refine ⟨hreport.symm, congrArg (p.xrplTxId :: ·) hseen, ?_⟩
    rintro p ⟨⟩
    rw [hprint, htext]
    rfl
  · rw [hprint, htext]
    rfl

theorem alone_pollEntry (x : AccountTxEntry) {s : St} :
    Alone (W := world) clockTo Answered (Watcher.pollEntry x) (fun _ res s' => Polled s x res s')
      s := by
  unfold Watcher.pollEntry
  split
  case isTrue hval =>
    refine alone_pure (.pass (.refl s) rfl ?_)
    rw [reportOf, AccountTxEntry.payment, if_pos hval]
    rfl
  case isFalse hval =>
  have hfilter : x.payment = (x.tx_json.orElse fun _ => x.tx).filter fun tx =>
      decide (tx.transactionType = some "Payment".toList) := by
    rw [AccountTxEntry.payment, if_neg hval]
  split
  case h_1 htx =>
    refine alone_pure (.pass (.refl s) rfl ?_)
    rw [reportOf, hfilter, htx]
    rfl
  case h_2 tx htx =>
  rw [htx, Option.filter_some] at hfilter
  split
  case isTrue htype =>
    refine alone_pure (.pass (.refl s) rfl ?_)
    rw [reportOf, hfilter, if_neg fun h => htype (of_decide_eq_true h)]
    rfl
  case isFalse htype =>
  have hpay : x.payment = some tx := by
    rw [hfilter, if_pos (decide_eq_true (not_not.mp htype))]
  refine alone_then (alone_modify ⟨rfl, _, rfl, ?_⟩)
  refine alone_then (alone_gets ⟨rfl, _, rfl, ?_⟩)
  split
  case isTrue halready =>
    obtain ⟨h, hhash, -, hmem⟩ := alreadySeen_iff.mp halready
    refine alone_pure (.pass ⟨fun _ _ => rfl, rfl, rfl, rfl⟩ rfl
      (reportOf_of_hash hpay fun hash heq => ?_))
    obtain rfl := Option.some.inj (heq.symm.trans hhash)
    exact Or.inr hmem
  case isFalse halready =>
  split
  case h_1 hnone =>
    refine alone_pure (.pass ⟨fun _ _ => rfl, rfl, rfl, rfl⟩ rfl
      (reportOf_of_commitment hpay fun c hc => ?_))
    rw [hnone] at hc
    cases hc
  case h_2 c hc =>
  have hlow := commitmentFromMemos_shape hc
  refine alone_seq (PendingMap.alone_get c) ?_ ?_
  case refine_2 =>
    rintro calls e s₁ ⟨hres, -⟩
    cases hres
  rintro calls found s₁ ⟨hres, hview, hworld, hmem⟩
  have hfill := sameStore_fill hlow hview hworld hmem
  have hstore : SameStore s s₁ := ⟨hfill.lookup, hfill.live, hfill.heap, hfill.world⟩
  have hseen : s₁.mem.seen = s.mem.seen := by
    obtain ⟨memory, now, hmem⟩ := hmem
    rw [hmem]
    rfl
  have hfound : found = Cache.lookup keys (PendingMap.view s) c := Except.ok.inj hres
  cases hlook : Cache.lookup keys (PendingMap.view s) c with
  | none =>
    obtain rfl := hfound.trans hlook
    refine alone_pure (.pass hstore hseen (reportOf_of_commitment hpay fun c' hc' => ?_))
    obtain rfl := Option.some.inj (hc'.symm.trans hc)
    rw [registered, hlook]
    rfl
  | some pending =>
    obtain rfl := hfound.trans hlook
    dsimp only
    split
    case h_2 hname =>
      refine alone_pure (.pass hstore hseen (reportOf_of_hash hpay fun hash heq => ?_))
      cases hash with
      | nil => exact Or.inl rfl
      | cons b bs => exact absurd heq (hname b bs)
    case h_1 b bs hname =>
      have hreport : reportOf s s.mem.seen x = some (x.observed tx (b :: bs) c) := by
        refine reportOf_eq_some.mpr ⟨⟨tx, hpay, hname, hc, rfl⟩, by simp [AccountTxEntry.observed],
          fun hmem => halready ?_, ?_⟩
        · exact alreadySeen_iff.mpr ⟨_, hname, by simp, hmem⟩
        · rw [show (x.observed tx (b :: bs) c).commitment = c from rfl, registered, hlook]
          rfl
      have hprint : printable s c = pending.label.text.isOk := by
        rw [printable, hlook, Option.all_some]
      exact alone_report hstore hseen hreport hprint

/-- A commitment that is reported was found in a payment. -/
theorem reportOf_shape {s : St} {seen : List Str} {x : AccountTxEntry} {p : ObservedPayment}
    (h : reportOf s seen x = some p) : IsLowerHex 32 p.commitment := by
  obtain ⟨⟨tx, -, -, hcommit, -⟩, -⟩ := reportOf_eq_some.mp h
  exact commitmentFromMemos_shape hcommit

theorem reports_shape {s : St} {seen : List Str} {page : List AccountTxEntry} {p : ObservedPayment}
    (h : p ∈ reports s seen page) : IsLowerHex 32 p.commitment := by
  obtain ⟨before, x, after, -, hx, -⟩ := mem_reports_iff.mp h
  exact reportOf_shape hx

/-- How a poll over a page ends: with what the page reports, all of it printable, or by throwing
at a label that is not. -/
def PolledPage (s : St) (page : List AccountTxEntry) :
    Except JsError (List ObservedPayment) → Prop
  | .ok found => found = reports s s.mem.seen page ∧ ∀ p ∈ found, printable s p.commitment = true
  | .error _ => ∃ p ∈ reports s s.mem.seen page, printable s p.commitment = false

theorem SameStore.polledPage {s s' : St} (h : SameStore s s') (hseen : s'.mem.seen = s.mem.seen)
    {page : List AccountTxEntry} {res : Except JsError (List ObservedPayment)}
    (hpage : PolledPage s' page res) : PolledPage s page res := by
  have hsame : RealPayments.reports s' s'.mem.seen page =
      RealPayments.reports s s.mem.seen page := by
    rw [h.reports, hseen]
  cases res with
  | ok found =>
    refine ⟨hpage.1.trans hsame, fun p hp => ?_⟩
    rw [← h.printable (reports_shape (hpage.1 ▸ hp))]
    exact hpage.2 p hp
  | error e =>
    obtain ⟨p, hp, hprint⟩ := hpage
    exact ⟨p, hsame ▸ hp, h.printable (reports_shape hp) ▸ hprint⟩

theorem alone_pollLoop (page : List AccountTxEntry) {s : St} :
    Alone (W := world) clockTo Answered (Watcher.pollLoop page) (fun _ res s' => SameStore s s' ∧
      PolledPage s page res) s := by
  induction page generalizing s with
  | nil => exact alone_pure ⟨.refl s, rfl, by simp⟩
  | cons x rest ih =>
    unfold Watcher.pollLoop
    refine alone_seq (alone_pollEntry x) ?_ ?_
    · rintro calls found s₁ hfirst
      obtain ⟨rfl, hseen, hprint⟩ := hfirst.found found rfl
      have hrest : reports s s.mem.seen (x :: rest) =
          (reportOf s s.mem.seen x).toList ++ reports s s₁.mem.seen rest := by
        rw [hseen, reports]
        cases reportOf s s.mem.seen x with
        | none => rfl
        | some p => rfl
      refine alone_seq ih ?_ ?_
      · rintro calls' more s₂ ⟨hstore₂, hmore, hprint₂⟩
        refine alone_pure ⟨hfirst.store.trans hstore₂, ?_, fun p hp => ?_⟩
        · rw [hrest, hmore, hfirst.store.reports]
        · rcases List.mem_append.mp hp with hp | hp
          · exact hprint p (Option.mem_toList.mp hp)
          · rw [← hfirst.store.printable (reports_shape (hmore ▸ hp))]
            exact hprint₂ p hp
      · rintro calls' e s₂ ⟨hstore₂, p, hp, hprint₂⟩
        refine ⟨hfirst.store.trans hstore₂, p, ?_, ?_⟩
        · rw [hrest, ← hfirst.store.reports]
          exact List.mem_append_right _ hp
        · rw [← hfirst.store.printable (reports_shape hp)]
          exact hprint₂
    · rintro calls e s₁ hfirst
      obtain ⟨p, hp, hprint⟩ := hfirst.thrown e rfl
      refine ⟨hfirst.store, p, ?_, hprint⟩
      rw [reports, hp]
      exact List.mem_cons_self

/-- The page a poll was given. -/
def pageOf (calls : List Exchange) : List AccountTxEntry :=
  match calls.head?.map Exchange.choice with
  | some (.transactions (.result (some page))) => page
  | _ => []

/-- A server's reply is its answer. -/
theorem alone_accountTxCall {adm : Exchange → Prop} (account : Str) (limit : Nat)
    (ledger_index_min : Int) {s : St} :
    Alone (W := world) clockTo adm
      (Prog.call (S := sig) (.accountTx account limit ledger_index_min))
      (fun calls res s' => (∃ now, s' = ⟨clockTo now s.mem, s.world⟩) ∧
        ∃ x, calls = [x] ∧ x.op = .accountTx account limit ledger_index_min ∧
          ∀ body, res = .ok body ↔ x.choice = .transactions body) s := by
  refine alone_call ?_
  intro c now r w _ hper
  have hworld : w = s.world := perform_readOnly rfl hper
  subst hworld
  refine ⟨⟨now, rfl⟩, _, rfl, rfl, fun body => ⟨?_, ?_⟩⟩
  · rintro rfl
    have hreply := (perform_ok hper).1
    cases c <;> cases hreply
    rfl
  · rintro rfl
    cases hper
    rfl

theorem alone_accountTx {adm : Exchange → Prop} (account : Str) (limit : Nat)
    (ledger_index_min : Int) {s : St} :
    Alone (W := world) clockTo adm (XrplHttpClient.accountTx account limit ledger_index_min)
      (fun calls res s' => (∃ now, s' = ⟨clockTo now s.mem, s.world⟩) ∧
        ∃ x, calls = [x] ∧ x.op = .accountTx account limit ledger_index_min ∧
          ∀ page, res = .ok page ↔ x.choice = .transactions (.result page)) s := by
  unfold XrplHttpClient.accountTx
  refine alone_seq (alone_accountTxCall _ _ _) ?_ ?_
  · rintro calls body s₁ ⟨hclock, x, rfl, hop, hx⟩
    refine alone_lift ⟨hclock, x, rfl, hop, fun page => ?_⟩
    rw [(hx body).mp rfl]
    cases body <;> simp [XrplHttpClient.readResult, raise]
  · rintro calls e s₁ ⟨hclock, x, rfl, hop, hx⟩
    refine ⟨hclock, x, rfl, hop, fun page => iff_of_false (by simp) fun hpage => ?_⟩
    cases (hx (.result page)).mpr hpage

/-- The server has answered with a page. -/
def Paged (calls : List Exchange) : Prop :=
  ∃ page, calls.head?.map Exchange.choice = some (.transactions (.result page))

/-- **A poll on its own** reports what its page reports over the store it began with, unless it
gets no page or comes upon a label that cannot be printed. -/
theorem alone_poll (o : Options) (limit : Nat) {s : St} :
    Alone (W := world) clockTo Answered (Watcher.poll o limit) (fun calls res s' =>
      SameStore s s' ∧ (Paged calls → PolledPage s (pageOf calls) res) ∧
        (¬ Paged calls → ∃ e, res = .error e)) s := by
  unfold Watcher.poll
  refine alone_then (alone_gets ⟨rfl, _, rfl, ?_⟩)
  refine alone_seq (alone_accountTx _ _ _) ?_ ?_
  · rintro calls page s₁ ⟨⟨now, rfl⟩, x, rfl, -, hx⟩
    refine alone_mono (alone_pollLoop _) ?_
    rintro calls' res s₂ ⟨hstore, hpolled⟩
    have hchoice : x.choice = .transactions (.result page) := (hx page).mp rfl
    have hpage : pageOf ([x] ++ calls') = page.getD [] := by
      rw [pageOf, List.singleton_append, List.head?_cons, Option.map_some, hchoice]
      cases page <;> rfl
    refine ⟨(sameStore_clockTo now s).trans hstore, fun _ => ?_, fun hnone => ?_⟩
    · rw [hpage]
      exact (sameStore_clockTo now s).polledPage rfl hpolled
    · exact absurd ⟨page, congrArg some hchoice⟩ hnone
  · rintro calls e s₁ ⟨⟨now, rfl⟩, x, rfl, -, hx⟩
    refine ⟨sameStore_clockTo now s, ?_, fun _ => ⟨e, rfl⟩⟩
    rintro ⟨page, hchoice⟩
    cases (hx page).mpr (Option.some.inj hchoice)

/-- What a poll that resolves has reported. -/
theorem poll_found (o : Options) (limit : Nat) {s : St} {answers : List (Choice × Int)}
    {out : Async.Outcome sig world Int (List ObservedPayment)} {found : List ObservedPayment}
    (hexec : exec clockTo (Watcher.poll o limit) answers s = some out)
    (hadm : ∀ x ∈ out.calls, Answered x) (hres : out.res = .ok found) :
    found = reports s s.mem.seen (pageOf out.calls) := by
  obtain ⟨-, hpaged, hnone⟩ := alone_poll o limit answers out hexec hadm
  rw [hres] at hpaged hnone
  by_cases h : Paged out.calls
  · exact (hpaged h).1
  · obtain ⟨e, he⟩ := hnone h
    cases he

/-- The first entry of the response that gets through with its hash, and what is reported of it. -/
structure GetsThrough (s : St) (response : List ResponseEntry) (x : ResponseEntry)
    (p : ObservedPayment) : Prop where
  report : reportOf s s.mem.seen x.read = some p
  first : ∃ before after, response = before ++ x :: after ∧
    ∀ y ∈ before, ∀ q, reportOf s s.mem.seen y.read = some q → q.xrplTxId ≠ p.xrplTxId

theorem mem_reports_response {s : St} {response : List ResponseEntry} {p : ObservedPayment} :
    p ∈ reports s s.mem.seen (response.map ResponseEntry.read) ↔
      ∃ x, GetsThrough s response x p := by
  rw [mem_reports_iff]
  constructor
  · rintro ⟨before, x, after, heq, hx, hfirst⟩
    obtain ⟨before', rest, rfl, rfl, hrest⟩ := List.map_eq_append_iff.mp heq
    obtain ⟨x', after', rfl, rfl, -⟩ := List.map_eq_cons_iff.mp hrest
    exact ⟨x', hx, before', after', rfl, fun y hy => hfirst _ (List.mem_map_of_mem hy)⟩
  · rintro ⟨x, hx, before, after, rfl, hfirst⟩
    refine ⟨before.map ResponseEntry.read, x.read, after.map ResponseEntry.read, by simp, hx, ?_⟩
    intro y hy
    obtain ⟨y', hy', rfl⟩ := List.mem_map.mp hy
    exact hfirst y' hy'

theorem registered_iff {s : St} {c : Hex} :
    registered s c = true ↔ ∃ record, PendingMap.Returns c s (some record) := by
  rw [registered, Option.isSome_iff_exists]
  exact exists_congr fun record => PendingMap.returns_iff.symm

end RealPayments

open RealPayments

namespace SampleReal

/-- The operation is registered. -/
def held : St :=
  ⟨(Memory.boot 0).remember SamplePending.commitment SamplePending.record,
    ⟨fun _ => none, fun _ => none, [], []⟩⟩

/-- A payment that commits to it. -/
def transaction (account destination : Str) : Transaction where
  read := {
    transactionType := some "Payment".toList
    memos := some (.arr [Json.obj [("Memo".toList, Json.obj [("MemoData".toList,
      .str ("FE000000000000000000".toList ++ List.replicate 64 'A'))])]])
    amount := some (.drops "1000000".toList)
    account := some account }
  destination := some destination

def entry (account destination : Str) : ResponseEntry where
  hash := some "ABC".toList
  ledger_index := some 7
  validated := some true
  tx_json := some (transaction account destination)
  transactionResult := some "tesSUCCESS".toList

def incoming : ResponseEntry := entry "rUser".toList "rVault".toList

/-- The vault pays somebody, with the same memo. -/
def outgoing : ResponseEntry := entry "rVault".toList "rUser".toList

def observed (sender : Str) : ObservedPayment :=
  ⟨"ABC".toList, SamplePending.commitment, "1000000".toList, sender, 7⟩

def call (x : ResponseEntry) : PendingMap.Exchange :=
  ⟨.accountTx SamplePending.options.coreVaultAddress 30 (-1), held,
    .transactions (.result (some [x.read])), 0⟩

/-- The outcome of a poll that reports the payment of an entry. -/
def polled (x : ResponseEntry) (sender : Str) :
    Async.Outcome sig world Int (List ObservedPayment) where
  res := .ok [observed sender]
  st := ⟨Watcher.markSeen "ABC".toList (Watcher.advanceCursor 7 held.mem), held.world⟩
  calls := [call x]
  rest := []

theorem answered_call (x : ResponseEntry) : ∀ y ∈ [call x], PendingMap.Answered y := by
  intro y hy e part
  rw [List.mem_singleton.mp hy]
  exact Choice.noConfusion

end SampleReal

/-- **Which polls report real payments only**: those on whose page every entry that gets through
the watcher's checks, the first of its hash, is a validated payment to the vault that succeeded
(or is listed as such by another entry). -/
theorem polled_payments_real_iff (o : Options) {limit : Nat} {s : St}
    {answers : List (Choice × Int)} {out : Async.Outcome sig world Int (List ObservedPayment)}
    {response : List ResponseEntry} {found : List ObservedPayment}
    (hexec : exec clockTo (Watcher.poll o limit) answers s = some out)
    (hadm : ∀ x ∈ out.calls, PendingMap.Answered x)
    (hpage : pageOf out.calls = response.map ResponseEntry.read) (hres : out.res = .ok found) :
    (∀ p ∈ found, ∃ x ∈ response, IsReport p x.read ∧ Genuine o x ∧
        ∃ record, PendingMap.Returns p.commitment s (some record)) ↔
      ∀ x p, GetsThrough s response x p → ∃ y ∈ response, IsReport p y.read ∧ Genuine o y := by
  have hfound := poll_found o limit hexec hadm hres
  rw [hpage] at hfound
  simp only [hfound, mem_reports_response]
  constructor
  · intro h x p hx
    obtain ⟨y, hy, hreport, hreal, -⟩ := h p ⟨x, hx⟩
    exact ⟨y, hy, hreport, hreal⟩
  · rintro h p ⟨x, hx⟩
    obtain ⟨y, hy, hreport, hreal⟩ := h x p hx
    have hreg := (reportOf_eq_some.mp hx.report).2.2.2
    exact ⟨y, hy, hreport, hreal, registered_iff.mp hreg⟩

open SampleReal in
/-- A poll that is shown a payment to the vault reports it, and it is one. -/
theorem polled_payments_real_incoming : ∃ x ∈ [incoming],
    IsReport (observed "rUser".toList) x.read ∧ Genuine SamplePending.options x ∧
      ∃ record, PendingMap.Returns SamplePending.commitment held (some record) := by
  have hexec : exec (W := world) clockTo (Watcher.poll SamplePending.options)
      [(.transactions (.result (some [incoming.read])), 0)] held =
        some (polled incoming "rUser".toList) := rfl
  have hpage : pageOf [call incoming] = [incoming].map ResponseEntry.read := rfl
  refine (polled_payments_real_iff SamplePending.options hexec (answered_call incoming) hpage
    rfl).mpr ?_ _ List.mem_cons_self
  intro x p hx
  obtain ⟨before, after, heq, -⟩ := hx.first
  have hmem : x ∈ [incoming] := heq ▸ List.mem_append_right _ List.mem_cons_self
  obtain rfl := List.mem_singleton.mp hmem
  exact ⟨incoming, hmem, (reportOf_eq_some.mp hx.report).1, rfl, rfl, _, rfl, rfl, rfl⟩

open SampleReal in
/-- **A payment that the vault makes**, validated and with a registered commitment in its memo, is
reported as one that it gets. -/
theorem outgoing_payment_reported : ∃ out,
    exec (W := world) clockTo (Watcher.poll SamplePending.options)
      [(.transactions (.result (some [outgoing.read])), 0)] held = some out ∧
    out.res = .ok [observed "rVault".toList] ∧ ¬ Genuine SamplePending.options outgoing := by
  refine ⟨polled outgoing "rVault".toList, rfl, rfl, fun h => ?_⟩
  obtain ⟨t, ht, -, hdest⟩ := h.paid
  obtain rfl := Option.some.inj ht
  exact absurd hdest (by decide)

end OneSig.Executor
