/-
# What one poll does

A poll asks for a page, walks over it, moves the cursor, and reports the payments whose commitment
the store holds.  Requests that register operations may run while it waits for a file, so the
store can change under it; what is its own (`View`: the cursor, the seen-set, the jobs) cannot.
`Polled` says how each entry of the page was treated and why, and it is the common ground of the
results about payments that get lost, about restarts and about ticks that come one at a time.

A specification `sp` says what is kept and what others may do.  Nothing is fixed about it but that
a poll has its own to itself (`Polling`), so the modules that import this one instantiate it with
their invariant and get what they know of the store back through `Held`: a record that is found
stood in memory or in a file under that invariant.

The cases follow the source.  An entry is passed over because it is no validated payment, because
its payment was marked before, commits to nothing, is not registered or has no hash (`Passes`);
otherwise it is marked, and reported unless the label of its record cannot be printed, which
throws (`Marks`).  A poll that gets no page changes nothing.

* `Polling.wp_read`: the rule for a call that changes nothing outside.
* `Got`: what a lookup returns.  A record that was in memory is returned without a call.
* `Polling.wp_poll`: the whole poll, over the entries one by one.
* `Reported`, `Polled.unprintable`: what a page does to the books, and the one way in which it
  stops half-way.
-/
import OneSig.Executor.StepSpec

namespace OneSig.Executor

open OneSig Async

/-! ## 1. What belongs to the ticks -/

/-- `#seen.add(hash)`. -/
def View.mark (v : View) (hash : Str) : View := { v with seen := hash :: v.seen }

/-- The keys of the store's memory are still there. -/
def Grows (s s' : St) : Prop :=
  ∀ key, s.mem.memory.has key = true → s'.mem.memory.has key = true

theorem Grows.refl (s : St) : Grows s s := fun _ h => h

theorem Grows.trans {s s' s'' : St} (h : Grows s s') (h' : Grows s' s'') : Grows s s'' :=
  fun key hk => h' key (h key hk)

/-- A specification under which a poll has the cursor and the seen-set to itself. -/
structure Polling (sp : Spec sig world) : Prop where
  rely_refl : ∀ s, sp.rely s s
  rely_view : ∀ s s', sp.rely s s' → view s' = view s
  rely_grows : ∀ s s', sp.rely s s' → Grows s s'
  readOnly : ∀ s, sp.inv s → sp.guar s s
  cursor : ∀ s n, sp.inv s → sp.inv ⟨Watcher.advanceCursor n s.mem, s.world⟩ ∧
    sp.guar s ⟨Watcher.advanceCursor n s.mem, s.world⟩
  mark : ∀ s hash, sp.inv s → sp.inv ⟨Watcher.markSeen hash s.mem, s.world⟩ ∧
    sp.guar s ⟨Watcher.markSeen hash s.mem, s.world⟩
  remember : ∀ s s₁ c record, sp.inv s₁ →
    s₁.world.pending (PendingStore.fileName c) = some (.whole record) → sp.inv s →
    sp.inv ⟨Memory.remember (toLowerCase c) record.stored s.mem, s.world⟩ ∧
      sp.guar s ⟨Memory.remember (toLowerCase c) record.stored s.mem, s.world⟩

section Rules

variable {sp : Spec sig world} {s : St} {t : View}

theorem Polling.waits_view (hx : Polling sp) {op : Op} (hop : op.readOnly = true) {s s' : St}
    (h : Waits sp op s s') : view s' = view s ∧ Grows s s' := by
  induction h with
  | refl => exact ⟨rfl, .refl _⟩
  | rely _ hr _ ih => exact ⟨(hx.rely_view _ _ hr).trans ih.1, ih.2.trans (hx.rely_grows _ _ hr)⟩
  | disturb _ hd _ => exact absurd hd (disturb_readOnly hop)

/-- The rule for a call that changes nothing outside. -/
theorem Polling.wp_read (hx : Polling sp) {op : Op} (hop : op.readOnly = true)
    {Q : Except JsError (Res op) → St → Prop}
    (hQ : ∀ res s' c s₁ w, Waits sp op s s₁ → sp.inv s₁ → sp.adm op c s₁ →
      perform op c s₁.world = some (res, w) → sp.inv s' → view s' = view s → Grows s s' →
      Q res s') : wp sp (Prog.call (S := sig) op) Q s := by
  refine wp_call ?_ ?_
  · intro s₁ w _ _ hw
    exact absurd hw (disturb_readOnly hop)
  · intro s₁ c res w hwait hi₁ hadm hper
    obtain ⟨hv₁, hg₁⟩ := hx.waits_view hop hwait
    have hw : w = s₁.world := perform_readOnly hop hper
    subst hw
    refine ⟨hi₁, hx.readOnly s₁ hi₁, fun s₂ hr₂ hi₂ => ?_⟩
    exact hQ res s₂ c s₁ _ hwait hi₁ hadm hper hi₂ ((hx.rely_view _ _ hr₂).trans hv₁)
      (hg₁.trans (hx.rely_grows _ _ hr₂))

/-! ## 2. The store -/

/-- The store holds a record for a commitment: in memory, or in a file that gives it back. -/
def Held (sp : Spec sig world) (c : Hex) (record : PendingUserOp) : Prop :=
  ∃ s, sp.inv s ∧ (s.mem.memory.get? (toLowerCase c) = some record ∨
    ∃ written, s.world.pending (PendingStore.fileName c) = some (.whole written) ∧
      record = written.stored)

/-- The store has nothing in memory, and its file cannot be read. -/
def Miss (sp : Spec sig world) (c : Hex) : Prop :=
  ∃ s s₁ choice, sp.inv s ∧ s.mem.memory.get? (toLowerCase c) = none ∧
    Waits sp (.readPending (PendingStore.fileName c)) s s₁ ∧ sp.inv s₁ ∧
    sp.adm (.readPending (PendingStore.fileName c)) choice s₁ ∧
    ((∃ e part, choice = .fail e part) ∨
      ∀ record, s₁.world.pending (PendingStore.fileName c) ≠ some (.whole record))

/-- What a lookup returns; a record that is returned is in memory from then on, and one that was
in memory is returned. -/
inductive Got (sp : Spec sig world) (c : Hex) (s s' : St) :
    Except JsError (Option PendingUserOp) → Prop
  | held (record : PendingUserOp) : Held sp c record →
      s'.mem.memory.has (toLowerCase c) = true → Got sp c s s' (.ok (some record))
  | miss : Miss sp c → s.mem.memory.has (toLowerCase c) = false → Got sp c s s' (.ok none)

theorem perform_readPending_error {name : Str} {c : Choice} {w w' : Outside} {e : JsError}
    (h : perform (.readPending name) c w = some (.error e, w')) :
    (∃ e part, c = .fail e part) ∨ w.pending name = none := by
  unfold perform at h
  split at h
  case h_1 e' part => exact Or.inl ⟨e', part, rfl⟩
  case h_2 =>
    obtain ⟨r, hr, heq⟩ := Option.map_eq_some_iff.mp h
    simp only [Prod.mk.injEq] at heq
    obtain ⟨rfl, -⟩ := heq
    cases c <;> first | cases hr | skip
    right
    cases hf : w.pending name with
    | none => rfl
    | some text =>
      have hok : readFile (w.pending name) = .error e := Option.some.inj hr
      rw [hf] at hok
      cases hok

theorem Polling.wp_get (hx : Polling sp) (c : Hex) (hi : sp.inv s) :
    wp sp (PendingStore.get c)
      (fun res s' => sp.inv s' ∧ view s' = view s ∧ Grows s s' ∧ Got sp c s s' res) s := by
  unfold PendingStore.get
  refine wp_bind (wp_gets ?_)
  simp only [bindPost]
  split
  case h_1 record hget =>
    have hhas : s.mem.memory.has (toLowerCase c) = true := JsMap.has_of_get? hget
    exact wp_pure ⟨hi, rfl, .refl s, .held record ⟨s, hi, Or.inl hget⟩ hhas⟩
  case h_2 hget =>
    unfold PendingStore.readRecord
    refine wp_tryCatch (wp_bind (hx.wp_read rfl ?_))
    intro res s₂ choice s₁ w hwait hi₁ hadm hper hi₂ hv₂ hgrow
    have hmiss : ((∃ e part, choice = .fail e part) ∨ ∀ record,
        s₁.world.pending (PendingStore.fileName c) ≠ some (.whole record)) →
        sp.inv s₂ ∧ view s₂ = view s ∧ Grows s s₂ ∧ Got sp c s s₂ (.ok none) := fun h =>
      ⟨hi₂, hv₂, hgrow, .miss ⟨s, s₁, choice, hi, hget, hwait, hi₁, hadm, h⟩
        (JsMap.has_of_get?_none hget)⟩
    cases res with
    | error e =>
      rcases perform_readPending_error hper with hfail | hnone
      · exact hmiss (Or.inl hfail)
      · exact hmiss (Or.inr (by simp [hnone]))
    | ok raw =>
      have hfile := perform_readPending hper
      refine wp_bind (wp_lift ?_)
      cases raw with
      | torn =>
        refine hmiss (Or.inr fun record hrec => ?_)
        rw [hfile] at hrec
        cases hrec
      | whole record =>
        obtain ⟨hi₃, hg₃⟩ := hx.remember s₂ s₁ c record hi₁ hfile hi₂
        have hkeys : ∀ key, s₂.mem.memory.has key = true ∨ key = toLowerCase c →
            (Memory.remember (toLowerCase c) record.stored s₂.mem).memory.has key = true := by
          intro key hkey
          simp only [Memory.remember, JsMap.has_set]
          rcases hkey with hold | rfl
          · simp [hold]
          · simp
        refine wp_bind (wp_modify hi₃ hg₃ ?_)
        exact ⟨hi₃, hv₂, hgrow.trans fun key hk => hkeys key (Or.inl hk),
          .held record.stored ⟨s₁, hi₁, Or.inr ⟨record, hfile, rfl⟩⟩ (hkeys _ (Or.inr rfl))⟩

/-! ## 3. One entry of a page -/

/-- The payment of an entry, unless it is skipped. -/
def AccountTxEntry.payment (entry : AccountTxEntry) : Option XrplTx :=
  if entry.validated = some false then none
  else (entry.tx_json.orElse fun _ => entry.tx).filter fun tx =>
    decide (tx.transactionType = some "Payment".toList)

/-- The hash of a payment. -/
def AccountTxEntry.paymentHash (entry : AccountTxEntry) (tx : XrplTx) : Option Str :=
  entry.hash.orElse fun _ => tx.hash

/-- What is reported of a payment. -/
def AccountTxEntry.observed (entry : AccountTxEntry) (tx : XrplTx) (hash : Str) (c : Hex) :
    ObservedPayment where
  xrplTxId := hash
  commitment := c
  amount := (tx.amount.map XrplAmount.text).getD "0".toList
  sender := tx.account.getD []
  ledgerIndex := entry.ledger_index.getD 0

/-- The cursor has moved over an entry. -/
def View.over (t : View) (entry : AccountTxEntry) : View :=
  { t with lastLedger := max t.lastLedger (entry.ledger_index.getD 0) }

/-- Why a payment is not reported: it was reported before, it commits to nothing, the store does
not hold what it commits to, or it has no hash. -/
inductive Passes (sp : Spec sig world) (entry : AccountTxEntry) (tx : XrplTx) (seen : List Str) :
    Prop
  | seen : Watcher.alreadySeen (entry.paymentHash tx) seen = true → Passes sp entry tx seen
  | uncommitted : commitmentFromMemos tx = none → Passes sp entry tx seen
  | unheld (c : Hex) : commitmentFromMemos tx = some c → Miss sp c → Passes sp entry tx seen
  | nameless : (entry.paymentHash tx).getD [] = [] → Passes sp entry tx seen

/-- A payment that is marked as seen. -/
structure Marks (sp : Spec sig world) (entry : AccountTxEntry) (tx : XrplTx) (seen : List Str)
    (hash : Str) (c : Hex) (record : PendingUserOp) : Prop where
  payment : entry.payment = some tx
  named : entry.paymentHash tx = some hash
  nonempty : hash ≠ []
  fresh : hash ∉ seen
  committed : commitmentFromMemos tx = some c
  held : Held sp c record

/-- What a poll does with one entry. -/
inductive PolledEntry (sp : Spec sig world) (entry : AccountTxEntry) (t : View) :
    Except JsError (Option ObservedPayment) → View → Prop
  | skipped : entry.payment = none → PolledEntry sp entry t (.ok none) t
  | passed (tx : XrplTx) : entry.payment = some tx → Passes sp entry tx t.seen →
      PolledEntry sp entry t (.ok none) (t.over entry)
  | reported (tx : XrplTx) (hash : Str) (c : Hex) (record : PendingUserOp) :
      Marks sp entry tx t.seen hash c record → (∃ text, record.label.text = .ok text) →
      PolledEntry sp entry t (.ok (some (entry.observed tx hash c))) ((t.over entry).mark hash)
  | unprintable (tx : XrplTx) (hash : Str) (c : Hex) (record : PendingUserOp) (e : JsError) :
      Marks sp entry tx t.seen hash c record → record.label.text = .error e →
      PolledEntry sp entry t (.error e) ((t.over entry).mark hash)

/-- The record of a reported payment is in memory. -/
def Recalls (s : St) (p : ObservedPayment) : Prop :=
  s.mem.memory.has (toLowerCase p.commitment) = true

theorem Polling.wp_pollEntry (hx : Polling sp) (entry : AccountTxEntry) (hi : sp.inv s)
    (hv : view s = t) :
    wp sp (Watcher.pollEntry entry)
      (fun res s' => sp.inv s' ∧ PolledEntry sp entry t res (view s') ∧ Grows s s' ∧
        ∀ p, res = .ok (some p) → Recalls s' p) s := by
  subst hv
  have hskip : entry.payment = none → sp.inv s ∧ PolledEntry sp entry (view s) (.ok none) (view s) ∧
      Grows s s ∧ ∀ p, (.ok none : Except JsError (Option ObservedPayment)) = .ok (some p) →
        Recalls s p := fun h => ⟨hi, .skipped h, .refl s, by simp⟩
  unfold Watcher.pollEntry
  split
  case isTrue hval => exact wp_pure (hskip (by rw [AccountTxEntry.payment, if_pos hval]))
  case isFalse hval =>
  have hfilter : entry.payment = (entry.tx_json.orElse fun _ => entry.tx).filter fun tx =>
      decide (tx.transactionType = some "Payment".toList) := by
    rw [AccountTxEntry.payment, if_neg hval]
  split
  case h_1 htx => exact wp_pure (hskip (by rw [hfilter, htx]; rfl))
  case h_2 tx htx =>
  rw [htx] at hfilter
  split
  case isTrue htype =>
    refine wp_pure (hskip ?_)
    rw [hfilter, Option.filter_some, if_neg fun h => htype (of_decide_eq_true h)]
  case isFalse htype =>
  have hpay : entry.payment = some tx := by
    rw [hfilter, Option.filter_some, if_pos (decide_eq_true (not_not.mp htype))]
  have hpass : ∀ s', sp.inv s' → view s' = (view s).over entry → Grows s s' →
      Passes sp entry tx s.mem.seen →
      sp.inv s' ∧ PolledEntry sp entry (view s) (.ok none) (view s') ∧ Grows s s' ∧
        ∀ p, (.ok none : Except JsError (Option ObservedPayment)) = .ok (some p) →
          Recalls s' p := fun s' hi' hv' hgrow hp =>
    ⟨hi', hv' ▸ .passed tx hpay hp, hgrow, by simp⟩
  obtain ⟨hi₁, hg₁⟩ := hx.cursor s (entry.ledger_index.getD 0) hi
  refine wp_bind (wp_modify hi₁ hg₁ (wp_bind (wp_gets ?_)))
  simp only [bindPost]
  split
  case isTrue halready => exact hpass _ hi₁ rfl (.refl s) (.seen halready)
  case isFalse halready =>
  split
  case h_1 hnone => exact hpass _ hi₁ rfl (.refl s) (.uncommitted hnone)
  case h_2 c hc =>
  refine wp_seq (hx.wp_get c hi₁) ?_ ?_
  case refine_2 =>
    rintro e s₂ ⟨-, -, -, hgot⟩
    cases hgot
  rintro found s₂ ⟨hi₂, hv₂, hgrow, hgot⟩
  cases hgot with
  | miss hmiss _ => exact hpass s₂ hi₂ hv₂ hgrow (.unheld c hc hmiss)
  | held record hheld hhas =>
    dsimp only
    split
    case h_2 hname =>
      refine hpass s₂ hi₂ hv₂ hgrow (.nameless ?_)
      unfold AccountTxEntry.paymentHash
      rcases hh : entry.hash.orElse fun _ => tx.hash with _ | _ | ⟨c, cs⟩
      · rfl
      · rfl
      · exact absurd hh (hname c cs)
    case h_1 x xs hname =>
      have hmarks : Marks sp entry tx s.mem.seen (x :: xs) c record := by
        refine ⟨hpay, hname, by simp, ?_, hc, hheld⟩
        intro hmem
        refine halready ?_
        rw [hname]
        simp [Watcher.alreadySeen, Watcher.advanceCursor, hmem]
      obtain ⟨hi₃, hg₃⟩ := hx.mark s₂ (x :: xs) hi₂
      have hv₃ : view ⟨Watcher.markSeen (x :: xs) s₂.mem, s₂.world⟩ =
          ((view s).over entry).mark (x :: xs) := congrArg (View.mark · (x :: xs)) hv₂
      refine wp_bind (wp_modify hi₃ hg₃ (wp_bind (wp_lift ?_)))
      cases htext : record.label.text with
      | ok text =>
        refine ⟨hi₃, hv₃ ▸ .reported tx _ c record hmarks ⟨text, htext⟩, hgrow, ?_⟩
        rintro p ⟨⟩
        exact hhas
      | error e => exact ⟨hi₃, hv₃ ▸ .unprintable tx _ c record e hmarks htext, hgrow, by simp⟩

/-! ## 4. The loop and the poll -/

/-- What a poll does with a page. -/
inductive Polled (sp : Spec sig world) : List AccountTxEntry → View →
    Except JsError (List ObservedPayment) → View → Prop
  | nil (t : View) : Polled sp [] t (.ok []) t
  | cons {entry : AccountTxEntry} {rest : List AccountTxEntry} {t t₁ t₂ : View}
      {payment : Option ObservedPayment} {found : List ObservedPayment} :
      PolledEntry sp entry t (.ok payment) t₁ → Polled sp rest t₁ (.ok found) t₂ →
      Polled sp (entry :: rest) t (.ok (payment.toList ++ found)) t₂
  | later {entry : AccountTxEntry} {rest : List AccountTxEntry} {t t₁ t₂ : View}
      {payment : Option ObservedPayment} {e : JsError} :
      PolledEntry sp entry t (.ok payment) t₁ → Polled sp rest t₁ (.error e) t₂ →
      Polled sp (entry :: rest) t (.error e) t₂
  | stop {entry : AccountTxEntry} {rest : List AccountTxEntry} {t t₁ : View} {e : JsError} :
      PolledEntry sp entry t (.error e) t₁ → Polled sp (entry :: rest) t (.error e) t₁

theorem Polling.wp_pollLoop (hx : Polling sp) :
    ∀ (entries : List AccountTxEntry) {s : St} {t : View}, sp.inv s → view s = t →
      wp sp (Watcher.pollLoop entries)
        (fun res s' => sp.inv s' ∧ Polled sp entries t res (view s') ∧ Grows s s' ∧
          ∀ found, res = .ok found → ∀ p ∈ found, Recalls s' p) s
  | [], s, t, hi, hv => by
    subst hv
    refine wp_pure ⟨hi, .nil _, .refl s, ?_⟩
    rintro found ⟨⟩
    simp
  | entry :: rest, s, t, hi, hv => by
    unfold Watcher.pollLoop
    refine wp_seq (hx.wp_pollEntry entry hi hv) ?_ ?_
    · rintro payment s₁ ⟨hi₁, hentry, hgrow₁, hrec₁⟩
      refine wp_seq (hx.wp_pollLoop rest hi₁ rfl) ?_ ?_
      · rintro found s₂ ⟨hi₂, hrest, hgrow₂, hrec₂⟩
        refine wp_pure ⟨hi₂, .cons hentry hrest, hgrow₁.trans hgrow₂, ?_⟩
        rintro _ ⟨⟩ p hp
        rcases List.mem_append.mp hp with hfirst | hlater
        · rw [Option.mem_toList] at hfirst
          exact hgrow₂ _ (hrec₁ p (congrArg Except.ok hfirst))
        · exact hrec₂ found rfl p hlater
      · rintro e s₂ ⟨hi₂, hrest, hgrow₂, -⟩
        exact ⟨hi₂, .later hentry hrest, hgrow₁.trans hgrow₂, by simp⟩
    · rintro e s₁ ⟨hi₁, hentry, hgrow₁, -⟩
      exact ⟨hi₁, .stop hentry, hgrow₁, by simp⟩

/-- How a poll can end: without a page, or as its page has it. -/
inductive PollEnd (sp : Spec sig world) (o : Options) (limit : Nat) (t : View) :
    Except JsError (List ObservedPayment) → View → Prop
  | noPage (e : JsError) : PollEnd sp o limit t (.error e) t
  | page (transactions : Option (List AccountTxEntry)) (s : St)
      (res : Except JsError (List ObservedPayment)) (t' : View) : sp.inv s → view s = t →
      sp.adm (.accountTx o.coreVaultAddress limit (Watcher.ledgerIndexMin t.lastLedger))
        (.transactions (.result transactions)) s →
      Polled sp (transactions.getD []) t res t' → PollEnd sp o limit t res t'

/-- **One poll**: it ends without a page or as its page has it, the store's memory only grows, and
the record of every payment reported is in it. -/
theorem Polling.wp_poll (hx : Polling sp) (o : Options) (limit : Nat) :
    wp sp (Watcher.poll o limit)
      (fun res s' => sp.inv s' ∧ PollEnd sp o limit (view s) res (view s') ∧ Grows s s' ∧
        ∀ found, res = .ok found → ∀ p ∈ found, Recalls s' p) s := by
  unfold Watcher.poll XrplHttpClient.accountTx
  refine wp_bind (wp_gets (wp_bind (wp_bind (hx.wp_read rfl ?_))))
  intro res s₂ c s₁ w hwait hi₁ hadm hper hi₂ hv₂ hgrow
  obtain ⟨hv₁, -⟩ := hx.waits_view rfl hwait
  have hnoPage : ∀ e, sp.inv s₂ ∧ PollEnd sp o limit (view s) (.error e) (view s₂) ∧ Grows s s₂ ∧
      ∀ found, (.error e : Except JsError (List ObservedPayment)) = .ok found →
        ∀ p ∈ found, Recalls s₂ p := fun e => ⟨hi₂, hv₂ ▸ .noPage e, hgrow, by simp⟩
  cases res with
  | error e => exact hnoPage e
  | ok reply =>
    refine wp_lift ?_
    have hr := (perform_ok hper).1
    cases c <;> cases hr
    cases reply with
    | result transactions =>
      refine wp_mono (hx.wp_pollLoop (transactions.getD []) hi₂ hv₂) ?_
      rintro res s₃ ⟨hi₃, hpolled, hgrow₃, hrec⟩
      exact ⟨hi₃, .page transactions s₁ res _ hi₁ hv₁ hadm hpolled, hgrow.trans hgrow₃, hrec⟩
    | _ => exact hnoPage _

/-! ## 5. What a page does to the books -/

/-- Everything but the cursor and the seen-set stays. -/
theorem PolledEntry.frame {entry : AccountTxEntry} {t t' : View}
    {res : Except JsError (Option ObservedPayment)} (h : PolledEntry sp entry t res t') :
    t' = { t with lastLedger := t'.lastLedger, seen := t'.seen } ∧
      ∀ hash ∈ t.seen, hash ∈ t'.seen := by
  cases h with
  | skipped => exact ⟨rfl, fun _ h => h⟩
  | passed => exact ⟨rfl, fun _ h => h⟩
  | reported => exact ⟨rfl, fun _ h => List.mem_cons_of_mem _ h⟩
  | unprintable => exact ⟨rfl, fun _ h => List.mem_cons_of_mem _ h⟩

theorem Polled.frame {entries : List AccountTxEntry} {t t' : View}
    {res : Except JsError (List ObservedPayment)} (h : Polled sp entries t res t') :
    t' = { t with lastLedger := t'.lastLedger, seen := t'.seen } ∧
      ∀ hash ∈ t.seen, hash ∈ t'.seen := by
  induction h with
  | nil => exact ⟨rfl, fun _ h => h⟩
  | cons hentry _ ih =>
    obtain ⟨h1, h2⟩ := hentry.frame
    obtain ⟨h1', h2'⟩ := ih
    rw [h1] at h1'
    exact ⟨h1', fun hash hm => h2' hash (h2 hash hm)⟩
  | later hentry _ ih =>
    obtain ⟨h1, h2⟩ := hentry.frame
    obtain ⟨h1', h2'⟩ := ih
    rw [h1] at h1'
    exact ⟨h1', fun hash hm => h2' hash (h2 hash hm)⟩
  | stop hentry => exact hentry.frame

/-- What is reported is new, in the page, and marked. -/
structure Reported (sp : Spec sig world) (entries : List AccountTxEntry) (t t' : View)
    (p : ObservedPayment) : Prop where
  fresh : p.xrplTxId ∉ t.seen
  marked : p.xrplTxId ∈ t'.seen
  entry : ∃ entry ∈ entries, ∃ tx record, entry.payment = some tx ∧
    entry.paymentHash tx = some p.xrplTxId ∧ commitmentFromMemos tx = some p.commitment ∧
    Held sp p.commitment record ∧ ∃ text, record.label.text = .ok text

theorem Polled.reported {entries : List AccountTxEntry} {t t' : View}
    {res : Except JsError (List ObservedPayment)} (h : Polled sp entries t res t') :
    ∀ found, res = .ok found → (found.map (·.xrplTxId)).Nodup ∧
      (∀ p ∈ found, Reported sp entries t t' p) ∧
      ∀ hash ∈ t'.seen, hash ∈ t.seen ∨ hash ∈ found.map (·.xrplTxId) := by
  induction h with
  | nil =>
    rintro found ⟨⟩
    exact ⟨List.nodup_nil, by simp, fun hash hm => Or.inl hm⟩
  | @cons entry rest t t₁ t₂ payment found hentry hrest ih =>
    rintro _ ⟨⟩
    obtain ⟨hnodup, hrep, hseen⟩ := ih found rfl
    obtain ⟨-, hkeep⟩ := hentry.frame
    have hlater : ∀ p ∈ found, Reported sp (entry :: rest) t t₂ p := by
      intro p hp
      obtain ⟨hf, hm, entry', he', hrest'⟩ := hrep p hp
      exact ⟨fun hmem => hf (hkeep _ hmem), hm, entry', List.mem_cons_of_mem _ he', hrest'⟩
    cases hentry with
    | skipped => exact ⟨hnodup, hlater, hseen⟩
    | passed => exact ⟨hnodup, hlater, hseen⟩
    | reported tx hash c record hmarks htext =>
      have hmark : hash ∈ t₂.seen := hrest.frame.2 hash (List.mem_cons_self ..)
      refine ⟨?_, ?_, ?_⟩
      · refine List.nodup_cons.mpr ⟨fun hmem => ?_, hnodup⟩
        obtain ⟨p, hp, hpe⟩ := List.mem_map.mp hmem
        refine (hrep p hp).fresh ?_
        rw [hpe]
        exact List.mem_cons_self ..
      · intro p hp
        rcases List.mem_cons.mp hp with rfl | hp
        · exact ⟨hmarks.fresh, hmark, entry, List.mem_cons_self .., tx, record, hmarks.payment,
            hmarks.named, hmarks.committed, hmarks.held, htext⟩
        · exact hlater p hp
      · intro hash' hm
        rcases hseen hash' hm with hold | hnew
        · rcases List.mem_cons.mp hold with rfl | hold
          · exact Or.inr (List.mem_cons_self ..)
          · exact Or.inl hold
        · exact Or.inr (List.mem_cons_of_mem _ hnew)
  | later => simp
  | stop => simp

/-- A page stops at a label that cannot be printed, and only there. -/
theorem Polled.unprintable {entries : List AccountTxEntry} {t t' : View}
    {res : Except JsError (List ObservedPayment)} (h : Polled sp entries t res t') :
    ∀ e, res = .error e → ∃ entry ∈ entries, ∃ tx seen hash c record,
      Marks sp entry tx seen hash c record ∧ record.label.text = .error e := by
  induction h with
  | nil => simp
  | cons => simp
  | later _ _ ih =>
    intro e he
    obtain ⟨entry, hmem, hrest⟩ := ih e he
    exact ⟨entry, List.mem_cons_of_mem _ hmem, hrest⟩
  | @stop entry rest t t₁ e hentry =>
    rintro _ ⟨⟩
    cases hentry with
    | unprintable tx hash c record _ hmarks htext =>
      exact ⟨entry, List.mem_cons_self .., tx, _, hash, c, record, hmarks, htext⟩

end Rules

end OneSig.Executor
