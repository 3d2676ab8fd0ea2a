/-
# What the cursor passes over

A poll asks for the newest transactions from the cursor on, at most so many of them, and moves the
cursor to the highest ledger it is shown.  The lower bound is inclusive and a ledger closes at
once, so nothing is lost as long as the page holds everything from the cursor on.  When more
foreign payments than fit on a page come between two polls, the page is cut off at its old end,
nobody asks for the rest, and the cursor moves over it all the same (`cursor_passes_payment`).

The cursor moves before the entries are walked over, so a payment is lost in two other ways too: a
label that cannot be printed throws out of the walk, and a record that is only on disk, as every
record is after a restart, counts as not registered when its read is rejected.  `Uncut` excludes
exactly these three.  An operation is registered if the store holds it in memory or on disk
(`holds`); a write of its file that is under way can make the read fail as well, and such a read
is among the rejected ones (`ReadsRecord`).

`Watch` is the watcher with its ledger; what is told of the past (the last page, the payments that
have been returned, those that were registered in time) is only recorded.  Polls do not overlap,
and between and during them the rest of the process may do as it likes with what is not the
watcher's (`Spared`).

* `polls_poll`: what one poll does among other tasks, over `polls_get` and `polls_pollEntry`.
* `Inv`: the ledger in two parts, what was there when the last page was taken and what has closed
  since.
* `Inv.step`, `inv_runs`: one step and a whole run; `cursor_skips_nothing` is what follows.
-/
import Mathlib.Logic.Relation
import OneSig.Executor.Binding
import OneSig.Executor.LostRace
import OneSig.Executor.PollSpec

namespace OneSig.Executor

open OneSig Async

namespace Cursor

/-! ## 1. The ledger -/

/-- The ledger an entry is in. -/
def ledgerOf (entry : AccountTxEntry) : Int := entry.ledger_index.getD 0

/-- The newest entries from a ledger on, the newest first. -/
def newest (limit : Nat) (ledger_index_min : Int) (history : List AccountTxEntry) :
    List AccountTxEntry :=
  (history.filter fun entry => decide (ledger_index_min ≤ ledgerOf entry)).reverse.take limit

/-- A payment has a hash, which is no other entry's, and a ledger. -/
structure WellFormed (history : List AccountTxEntry) : Prop where
  named : ∀ entry ∈ history, ∀ tx, entry.payment = some tx →
    ∃ hash, entry.paymentHash tx = some hash ∧ hash ≠ []
  unique : ∀ entry ∈ history, ∀ entry' ∈ history, ∀ tx tx', entry.payment = some tx →
    entry'.payment = some tx' → entry.paymentHash tx = entry'.paymentHash tx' → entry = entry'
  positive : ∀ entry ∈ history, 0 ≤ ledgerOf entry

/-- The commitment a payment carries. -/
def commitment (entry : AccountTxEntry) : Option Hex := entry.payment.bind commitmentFromMemos

/-- The file of a commitment holds a record. -/
def onDisk (w : Outside) (c : Hex) : Bool :=
  match w.pending (PendingStore.fileName c) with
  | some (.whole _) => true
  | _ => false

/-- The store holds the operation of a commitment: in memory, or only on disk, as after a restart. -/
def holds (s : St) (c : Hex) : Bool := s.mem.memory.has (toLowerCase c) || onDisk s.world c

/-- The payment commits to an operation that is registered. -/
def isRegistered (s : St) (entry : AccountTxEntry) : Bool := (commitment entry).any (holds s)

/-- An observed payment is that of an entry. -/
def Reports (p : ObservedPayment) (entry : AccountTxEntry) : Prop :=
  ∃ tx, entry.payment = some tx ∧ entry.paymentHash tx = some p.xrplTxId ∧
    commitmentFromMemos tx = some p.commitment

/-! ## 2. One poll -/

abbrev Exchange := LostRace.Exchange

/-- The rest of the process leaves the cursor and the seen-set alone, and forgets no registration. -/
structure Spared (s s' : St) : Prop where
  lastLedger : s'.mem.lastLedger = s.mem.lastLedger
  seen : s'.mem.seen = s.mem.seen
  keeps : ∀ c, holds s c = true → holds s' c = true

/-- `account_tx` answers with the newest entries it is asked for, unless it fails. -/
structure Answered (x : Exchange) : Prop where
  page : ∀ account limit ledger_index_min page, x.op = .accountTx account limit ledger_index_min →
    x.choice = .transactions (.result page) →
      page = some (newest limit ledger_index_min x.before.world.history)
  spared : Spared x.before ⟨x.drift, x.before.world⟩

/-- The label of every operation the store holds can be printed. -/
def Printable (m : Memory) (w : Outside) : Prop :=
  (∀ key record, m.memory.get? key = some record → ∃ text, record.label.text = .ok text) ∧
    ∀ name record, w.pending name = some (.whole record) → ∃ text, record.label.text = .ok text

/-- No read of a record is rejected.  A read that finds the file half written, because the same
operation is being registered again, ends the way a rejected one does. -/
def ReadsRecord (x : Exchange) : Prop :=
  ∀ name record, x.op = .readPending name → x.before.world.pending name = some (.whole record) →
    ∀ e part, x.choice ≠ .fail e part

/-- A call during which nothing that cannot be printed is registered, and which is no rejected
read. -/
structure Plain (x : Exchange) : Prop where
  answered : Answered x
  printable : Printable x.drift x.before.world
  reads : ReadsRecord x

/-- What walking over some entries does: every payment that is registered and new is found. -/
structure Walked (entries : List AccountTxEntry) (s s' : St) (found : List ObservedPayment) :
    Prop where
  world : s'.world = s.world
  printable : Printable s'.mem s'.world
  keeps : ∀ c, holds s c = true → holds s' c = true
  lower : s.mem.lastLedger ≤ s'.mem.lastLedger
  upper : s'.mem.lastLedger = s.mem.lastLedger ∨
    ∃ entry ∈ entries, s'.mem.lastLedger = ledgerOf entry
  reports : ∀ p ∈ found, ∃ entry ∈ entries, Reports p entry
  seen : ∀ hash ∈ s'.mem.seen, hash ∈ s.mem.seen ∨ ∃ p ∈ found, p.xrplTxId = hash
  marked : (∀ hash ∈ s.mem.seen, hash ∈ s'.mem.seen) ∧ ∀ p ∈ found, p.xrplTxId ∈ s'.mem.seen
  finds : ∀ entry ∈ entries, isRegistered s entry = true → ∀ tx hash,
    entry.payment = some tx → entry.paymentHash tx = some hash → hash ≠ [] → hash ∈ s'.mem.seen

/-- The triples of a poll among other tasks. -/
abbrev Polls {α : Type} (p : Prog α) (Q : List Exchange → Except JsError α → St → Prop) (s : St) :
    Prop := Alone (W := world) LostRace.woken Plain p Q s

section Poll

variable {s : St}

theorem Walked.nil (h : Printable s.mem s.world) : Walked [] s s [] where
  world := rfl
  printable := h
  keeps := fun _ h => h
  lower := Int.le_refl _
  upper := .inl rfl
  reports := fun _ h => absurd h List.not_mem_nil
  seen := fun _ h => .inl h
  marked := ⟨fun _ h => h, fun _ h => absurd h List.not_mem_nil⟩
  finds := fun _ h => absurd h List.not_mem_nil

/-- One more record in memory. -/
theorem holds_remember {key : Hex} {record : PendingUserOp} {c : Hex} (h : holds s c = true) :
    holds ⟨Memory.remember key record s.mem, s.world⟩ c = true := by
  rw [holds, Bool.or_eq_true] at h ⊢
  exact h.imp_left fun hkey => JsMap.has_set.mpr (.inr hkey)

theorem isRegistered_iff {s : St} {entry : AccountTxEntry} : isRegistered s entry = true ↔
    ∃ tx c, entry.payment = some tx ∧ commitmentFromMemos tx = some c ∧ holds s c = true := by
  rw [isRegistered, commitment, Option.any_eq_true]
  constructor
  · rintro ⟨c, hc, hheld⟩
    obtain ⟨tx, htx, hc⟩ := Option.bind_eq_some_iff.mp hc
    exact ⟨tx, c, htx, hc, hheld⟩
  · rintro ⟨tx, c, htx, hc, hheld⟩
    exact ⟨c, Option.bind_eq_some_iff.mpr ⟨tx, htx, hc⟩, hheld⟩

theorem isRegistered_mono {s s' : St} (h : ∀ c, holds s c = true → holds s' c = true)
    {entry : AccountTxEntry} (hreg : isRegistered s entry = true) :
    isRegistered s' entry = true := by
  obtain ⟨tx, c, htx, hc, hheld⟩ := isRegistered_iff.mp hreg
  exact isRegistered_iff.mpr ⟨tx, c, htx, hc, h c hheld⟩

/-- One walk after another. -/
theorem Walked.append {entries entries' : List AccountTxEntry} {s₁ s₂ : St}
    {found found' : List ObservedPayment} (h : Walked entries s s₁ found)
    (h' : Walked entries' s₁ s₂ found') :
    Walked (entries ++ entries') s s₂ (found ++ found') where
  world := h'.world.trans h.world
  printable := h'.printable
  keeps := fun c hc => h'.keeps c (h.keeps c hc)
  lower := Int.le_trans h.lower h'.lower
  upper := by
    rcases h'.upper with heq | ⟨entry, hentry, heq⟩
    · rw [heq]
      rcases h.upper with heq | ⟨entry, hentry, heq⟩
      · exact .inl heq
      · exact .inr ⟨entry, List.mem_append_left _ hentry, heq⟩
    · exact .inr ⟨entry, List.mem_append_right _ hentry, heq⟩
  reports := by
    intro p hp
    rcases List.mem_append.mp hp with hp | hp
    · obtain ⟨entry, hentry, hreports⟩ := h.reports p hp
      exact ⟨entry, List.mem_append_left _ hentry, hreports⟩
    · obtain ⟨entry, hentry, hreports⟩ := h'.reports p hp
      exact ⟨entry, List.mem_append_right _ hentry, hreports⟩
  seen := by
    intro hash hhash
    rcases h'.seen hash hhash with hhash | ⟨p, hp, heq⟩
    · rcases h.seen hash hhash with hhash | ⟨p, hp, heq⟩
      · exact .inl hhash
      · exact .inr ⟨p, List.mem_append_left _ hp, heq⟩
    · exact .inr ⟨p, List.mem_append_right _ hp, heq⟩
  marked := by
    refine ⟨fun hash hhash => h'.marked.1 hash (h.marked.1 hash hhash), fun p hp => ?_⟩
    rcases List.mem_append.mp hp with hp | hp
    · exact h'.marked.1 _ (h.marked.2 p hp)
    · exact h'.marked.2 p hp
  finds := by
    intro entry hentry hreg tx hash htx hhash hne
    rcases List.mem_append.mp hentry with hentry | hentry
    · exact h'.marked.1 _ (h.finds entry hentry hreg tx hash htx hhash hne)
    · exact h'.finds entry hentry (isRegistered_mono h.keeps hreg) tx hash htx hhash hne

/-- What a lookup finds. -/
structure Got (c : Hex) (s s' : St) (found : Option PendingUserOp) : Prop where
  world : s'.world = s.world
  printable : Printable s'.mem s'.world
  spared : Spared s s'
  prints : ∀ record, found = some record → ∃ text, record.label.text = .ok text
  held : holds s c = true → found ≠ none

/-- The label of a record can be printed if and only if that of what its file gives back can. -/
theorem text_stored {record : PendingUserOp} (h : ∃ text, record.label.text = .ok text) :
    ∃ text, record.stored.label.text = .ok text := by
  obtain ⟨text, htext⟩ := h
  have hok := Json.text_stored_isOk record.label
  rw [htext] at hok
  cases hstored : record.stored.label.text with
  | ok text' => exact ⟨text', rfl⟩
  | error e =>
    have herr : record.label.stored.text = .error e := hstored
    rw [herr] at hok
    cases hok

theorem polls_readRecord (c : Hex) (hs : Printable s.mem s.world)
    (hmiss : s.mem.memory.has (toLowerCase c) = false) :
    Polls (PendingStore.readRecord c) (fun _ res s' =>
      (∃ e, res = .error e ∧ Got c s s' none) ∨ ∃ record, res = .ok (some record) ∧
        Got c s s' (some record)) s := by
  unfold PendingStore.readRecord
  have hfile : holds s c = true → ∃ record,
      s.world.pending (PendingStore.fileName c) = some (.whole record) := by
    intro hholds
    rw [holds, hmiss, Bool.false_or, onDisk] at hholds
    split at hholds
    case h_1 record hrecord => exact ⟨record, hrecord⟩
    case h_2 => cases hholds
  refine alone_seq (R := fun _ res s' => s'.world = s.world ∧ Spared s s' ∧
    Printable s'.mem s'.world ∧
      (∀ text, res = .ok text → s.world.pending (PendingStore.fileName c) = some text) ∧
      ∀ e, res = .error e → holds s c = false) ?_ ?_ ?_
  · refine alone_call fun choice d res w hplain hper => ?_
    have hw : w = s.world := perform_readOnly rfl hper
    subst hw
    refine ⟨rfl, hplain.answered.spared, hplain.printable, ?_, ?_⟩
    · rintro text rfl
      exact perform_readPending hper
    · rintro e rfl
      by_contra hholds
      obtain ⟨record, hrecord⟩ := hfile (eq_true_of_ne_false hholds)
      have hchoice := hplain.reads _ record rfl hrecord
      rcases perform_readPending_error hper with ⟨e', part, rfl⟩ | hnone
      · exact hchoice e' part rfl
      · rw [hnone] at hrecord
        cases hrecord
  · rintro calls raw s₁ ⟨hw, hspared, hprintable, hread, -⟩
    have hraw := hread raw rfl
    refine alone_lift_seq ?_ ?_
    · intro record hrecord
      obtain ⟨written, rfl, rfl⟩ := Text.parse_ok hrecord
      have hprints := text_stored (hs.2 _ _ hraw)
      refine alone_then (alone_modify ⟨rfl, _, rfl, alone_pure (.inr ⟨_, rfl, ?_⟩)⟩)
      refine ⟨hw, ⟨?_, hprintable.2⟩, ⟨hspared.lastLedger, hspared.seen, ?_⟩, ?_, fun _ => nofun⟩
      · intro key record' hget
        simp only [Memory.remember, JsMap.get?_set] at hget
        split at hget
        · cases hget
          exact hprints
        · exact hprintable.1 key record' hget
      · exact fun c' hc' => holds_remember (hspared.keeps c' hc')
      · rintro record' ⟨⟩
        exact hprints
    · intro e he
      refine .inl ⟨e, rfl, hw, hprintable, hspared, fun _ h => (by cases h), fun hholds => ?_⟩
      obtain ⟨record, hrecord⟩ := hfile hholds
      obtain rfl : raw = .whole record := Option.some.inj (hraw.symm.trans hrecord)
      cases he
  · rintro calls e s₁ ⟨hw, hspared, hprintable, -, hmissing⟩
    refine .inl ⟨e, rfl, hw, hprintable, hspared, fun _ h => (by cases h), fun hholds => ?_⟩
    rw [hmissing e rfl] at hholds
    cases hholds

theorem polls_get (c : Hex) (hs : Printable s.mem s.world) :
    Polls (PendingStore.get c) (fun _ res s' => ∃ found, res = .ok found ∧ Got c s s' found) s := by
  unfold PendingStore.get
  refine alone_then (alone_gets ⟨rfl, _, rfl, ?_⟩)
  have hspared : Spared s s := ⟨rfl, rfl, fun _ h => h⟩
  cases hget : s.mem.memory.get? (toLowerCase c) with
  | some record =>
    refine alone_pure ⟨some record, rfl, rfl, hs, hspared, ?_, fun _ => nofun⟩
    rintro record' ⟨⟩
    exact hs.1 _ _ hget
  | none =>
    refine alone_tryCatch (polls_readRecord c hs (JsMap.has_of_get?_none hget)) ?_ ?_
    · rintro calls found s₁ (⟨e, he, -⟩ | ⟨record, hres, hgot⟩)
      · cases he
      · cases hres
        exact ⟨_, rfl, hgot⟩
    · rintro calls e s₁ (⟨e', -, hgot⟩ | ⟨record, hres, -⟩)
      · exact alone_pure ⟨none, rfl, hgot⟩
      · cases hres

/-- An entry that is walked over without a find. -/
theorem Walked.pass {entry : AccountTxEntry} {s' : St} (hw : s'.world = s.world)
    (hprintable : Printable s'.mem s'.world)
    (hholds : ∀ c, holds s c = true → holds s' c = true)
    (hlast : s'.mem.lastLedger = s.mem.lastLedger ∨
      s'.mem.lastLedger = max s.mem.lastLedger (ledgerOf entry))
    (hseen : s'.mem.seen = s.mem.seen)
    (hfinds : isRegistered s entry = true → ∀ tx hash, entry.payment = some tx →
      entry.paymentHash tx = some hash → hash ≠ [] → hash ∈ s.mem.seen) :
    Walked [entry] s s' [] where
  world := hw
  printable := hprintable
  keeps := hholds
  lower := by
    rcases hlast with h | h
    · omega
    · omega
  upper := by
    rcases hlast with h | h
    · exact .inl h
    · by_cases hle : s.mem.lastLedger ≤ ledgerOf entry
      · exact .inr ⟨entry, List.mem_singleton_self _, by omega⟩
      · exact .inl (by omega)
  reports := fun _ h => absurd h List.not_mem_nil
  seen := fun hash hhash => .inl (hseen ▸ hhash)
  marked := ⟨fun hash hhash => hseen ▸ hhash, fun _ h => absurd h List.not_mem_nil⟩
  finds := by
    intro entry' hentry hreg tx hash htx hhash hne
    rw [List.mem_singleton.mp hentry] at hreg htx hhash
    rw [hseen]
    exact hfinds hreg tx hash htx hhash hne

/-- An entry that is found. -/
theorem Walked.find {entry : AccountTxEntry} {tx : XrplTx} {hash : Str} {c : Hex} {s' : St}
    (hw : s'.world = s.world) (hprintable : Printable s'.mem s'.world)
    (hholds : ∀ c, holds s c = true → holds s' c = true)
    (hlast : s'.mem.lastLedger = max s.mem.lastLedger (ledgerOf entry))
    (hseen : s'.mem.seen = hash :: s.mem.seen) (htx : entry.payment = some tx)
    (hhash : entry.paymentHash tx = some hash) (hc : commitmentFromMemos tx = some c) :
    Walked [entry] s s' [entry.observed tx hash c] where
  world := hw
  printable := hprintable
  keeps := hholds
  lower := by omega
  upper := by
    by_cases hle : s.mem.lastLedger ≤ ledgerOf entry
    · exact .inr ⟨entry, List.mem_singleton_self _, by omega⟩
    · exact .inl (by omega)
  reports := by
    intro p hp
    rw [List.mem_singleton.mp hp]
    exact ⟨entry, List.mem_singleton_self _, tx, htx, hhash, hc⟩
  seen := by
    intro hash' hhash'
    rw [hseen] at hhash'
    rcases List.mem_cons.mp hhash' with rfl | hold
    · exact .inr ⟨_, List.mem_singleton_self _, rfl⟩
    · exact .inl hold
  marked := by
    rw [hseen]
    refine ⟨fun hash' hold => List.mem_cons_of_mem _ hold, fun p hp => ?_⟩
    rw [List.mem_singleton.mp hp]
    exact List.mem_cons_self ..
  finds := by
    intro entry' hentry hreg tx' hash' htx' hhash' hne
    rw [List.mem_singleton.mp hentry] at htx' hhash'
    rw [htx] at htx'
    cases htx'
    rw [hhash] at hhash'
    cases hhash'
    rw [hseen]
    exact List.mem_cons_self ..

/-- One entry: it is walked over, and nothing stops the poll. -/
theorem polls_pollEntry (entry : AccountTxEntry) (hs : Printable s.mem s.world) :
    Polls (Watcher.pollEntry entry) (fun _ res s' => ∃ found : Option ObservedPayment,
      res = .ok found ∧ Walked [entry] s s' found.toList) s := by
  have hskip : entry.payment = none → Walked [entry] s s [] := fun hnone =>
    .pass rfl hs (fun _ h => h) (.inl rfl) rfl fun hreg => by
      obtain ⟨tx, -, hpay, -, -⟩ := isRegistered_iff.mp hreg
      rw [hnone] at hpay
      cases hpay
  unfold Watcher.pollEntry
  split
  case isTrue hval =>
    exact alone_pure ⟨none, rfl, hskip (by rw [AccountTxEntry.payment, if_pos hval])⟩
  case isFalse hval =>
  have hfilter : entry.payment = (entry.tx_json.orElse fun _ => entry.tx).filter fun tx =>
      decide (tx.transactionType = some "Payment".toList) := by
    rw [AccountTxEntry.payment, if_neg hval]
  split
  case h_1 htx => exact alone_pure ⟨none, rfl, hskip (by rw [hfilter, htx]; rfl)⟩
  case h_2 tx htx =>
  rw [htx] at hfilter
  split
  case isTrue htype =>
    refine alone_pure ⟨none, rfl, hskip ?_⟩
    rw [hfilter, Option.filter_some, if_neg fun h => htype (of_decide_eq_true h)]
  case isFalse htype =>
  have hpay : entry.payment = some tx := by
    rw [hfilter, Option.filter_some, if_pos (decide_eq_true (not_not.mp htype))]
  refine alone_then (alone_modify ⟨rfl, _, rfl, alone_then (alone_gets ⟨rfl, _, rfl, ?_⟩)⟩)
  -- the cursor has moved, and from here on nothing is the cursor's
  have hpass : ∀ s' : St, s'.world = s.world → Printable s'.mem s'.world →
      Spared ⟨Watcher.advanceCursor (entry.ledger_index.getD 0) s.mem, s.world⟩ s' →
      (isRegistered s entry = true → ∀ hash, entry.paymentHash tx = some hash → hash ≠ [] →
        hash ∈ s.mem.seen) → Walked [entry] s s' [] := by
    intro s' hw hprintable hspared hfinds
    refine .pass hw hprintable hspared.keeps (.inr hspared.lastLedger) hspared.seen ?_
    intro hreg tx' hash htx' hhash hne
    rw [hpay] at htx'
    cases htx'
    exact hfinds hreg hash hhash hne
  have hsame : Spared ⟨Watcher.advanceCursor (entry.ledger_index.getD 0) s.mem, s.world⟩
      ⟨Watcher.advanceCursor (entry.ledger_index.getD 0) s.mem, s.world⟩ :=
    ⟨rfl, rfl, fun _ h => h⟩
  split
  case isTrue halready =>
    refine alone_pure ⟨none, rfl, hpass _ rfl hs hsame fun _ hash hhash hne => ?_⟩
    have hname : (entry.hash.orElse fun _ => tx.hash) = some hash := hhash
    rw [hname] at halready
    exact (of_decide_eq_true halready).2
  case isFalse halready =>
  split
  case h_1 hnone =>
    refine alone_pure ⟨none, rfl, hpass _ rfl hs hsame fun hreg => ?_⟩
    obtain ⟨tx', c, htx', hc, -⟩ := isRegistered_iff.mp hreg
    obtain rfl : tx = tx' := Option.some.inj (hpay.symm.trans htx')
    rw [hnone] at hc
    cases hc
  case h_2 c hc =>
  refine alone_seq (polls_get c hs) ?_ ?_
  case refine_2 =>
    rintro calls e s₂ ⟨found, hres, -⟩
    cases hres
  rintro calls found s₂ ⟨_, ⟨⟩, hgot⟩
  cases found with
  | none =>
    refine alone_pure ⟨none, rfl, hpass s₂ hgot.world hgot.printable hgot.spared fun hreg => ?_⟩
    obtain ⟨tx', c', htx', hc', hheld⟩ := isRegistered_iff.mp hreg
    obtain rfl : tx = tx' := Option.some.inj (hpay.symm.trans htx')
    obtain rfl : c = c' := Option.some.inj (hc.symm.trans hc')
    exact absurd rfl (hgot.held hheld)
  | some record =>
    dsimp only
    split
    case h_2 hname =>
      refine alone_pure ⟨none, rfl, hpass s₂ hgot.world hgot.printable hgot.spared ?_⟩
      intro _ hash hhash hne
      cases hash with
      | nil => exact absurd rfl hne
      | cons x xs => exact absurd hhash (hname x xs)
    case h_1 x xs hname =>
      obtain ⟨text, htext⟩ := hgot.prints record rfl
      refine alone_then (alone_modify ⟨rfl, _, rfl, ?_⟩)
      refine alone_lift_seq (fun _ _ => alone_pure ⟨_, rfl, ?_⟩) fun e he => ?_
      · exact .find hgot.world hgot.printable hgot.spared.keeps hgot.spared.lastLedger
          (congrArg (List.cons (x :: xs)) hgot.spared.seen) hpay hname hc
      · rw [htext] at he
        cases he

theorem polls_pollLoop (entries : List AccountTxEntry) (hs : Printable s.mem s.world) :
    Polls (Watcher.pollLoop entries) (fun _ res s' => ∃ found, res = .ok found ∧
      Walked entries s s' found) s := by
  induction entries generalizing s with
  | nil => exact alone_pure ⟨[], rfl, .nil hs⟩
  | cons entry rest ih =>
    unfold Watcher.pollLoop
    refine alone_seq (polls_pollEntry entry hs) ?_ ?_
    · rintro calls _ s₁ ⟨payment, ⟨⟩, hfirst⟩
      refine alone_seq (ih hfirst.printable) ?_ ?_
      · rintro calls' _ s₂ ⟨found, ⟨⟩, hrest⟩
        exact alone_pure ⟨_, rfl, hfirst.append hrest⟩
      · rintro calls' e s₂ ⟨found, hres, -⟩
        cases hres
    · rintro calls e s₁ ⟨found, hres, -⟩
      cases hres

/-- The page a poll was given. -/
def pageOf (calls : List Exchange) : Option (List AccountTxEntry) :=
  calls.findSome? fun x => match x.choice with
    | .transactions (.result page) => page
    | _ => none

/-- A poll gets no page and changes nothing, or walks over the newest entries from the cursor on. -/
inductive Polled (limit : Nat) (s : St) :
    Option (List AccountTxEntry) → Except JsError (List ObservedPayment) → St → Prop
  | noPage {s' : St} (e : JsError) : s'.world = s.world → Spared s s' →
      Polled limit s none (.error e) s'
  | page {s₁ s' : St} {found : List ObservedPayment} : s₁.world = s.world →
      Spared s s₁ → Walked (newest limit (Watcher.ledgerIndexMin s.mem.lastLedger)
        s.world.history) s₁ s' found →
      Polled limit s (some (newest limit (Watcher.ledgerIndexMin s.mem.lastLedger)
        s.world.history)) (.ok found) s'

theorem Plain.spared {op : Op} {c : Choice} {m : Memory} (h : Plain ⟨op, s, c, m⟩) {s₁ : St}
    (hmem : s₁.mem = m) (hw : s₁.world = s.world) : Spared s s₁ := by
  obtain ⟨m₁, w₁⟩ := s₁
  cases hmem
  cases hw
  exact h.answered.spared

theorem polls_call {op : Op} : Polls (Prog.call (S := sig) op) (fun calls res s' =>
    ∃ c d, calls = [⟨op, s, c, d⟩] ∧ Plain ⟨op, s, c, d⟩ ∧ s'.mem = d ∧
      perform op c s.world = some (res, s'.world)) s :=
  alone_call fun c d _ _ hplain hper => ⟨c, d, rfl, hplain, rfl, hper⟩

/-- **One poll**, among other tasks: it gets no page and changes nothing, or walks over the newest
entries from the cursor on and moves the cursor to their last ledger. -/
theorem polls_poll (o : Options) (limit : Nat) :
    Polls (Watcher.poll o limit) (fun calls res s' => Polled limit s (pageOf calls) res s') s := by
  unfold Watcher.poll XrplHttpClient.accountTx
  refine alone_then (alone_gets ⟨rfl, _, rfl, ?_⟩)
  refine alone_seq (R := fun calls res s₁ => s₁.world = s.world ∧ Spared s s₁ ∧
    Printable s₁.mem s₁.world ∧ ((∃ e, res = .error e ∧ pageOf calls = none) ∨
      ∃ x, calls = [x] ∧ x.choice = .transactions (.result (some (newest limit
        (Watcher.ledgerIndexMin s.mem.lastLedger) s.world.history))) ∧
      res = .ok (some (newest limit (Watcher.ledgerIndexMin s.mem.lastLedger)
        s.world.history)))) ?_ ?_ ?_
  · refine alone_seq polls_call ?_ ?_
    · rintro calls body s₁ ⟨c, d, rfl, hplain, hs₁, hper⟩
      have hw : s₁.world = s.world := perform_readOnly rfl hper
      have hmem : s₁.mem = d := hs₁
      have hreply := (perform_ok hper).1
      cases c <;> cases hreply
      have hprintable : Printable s₁.mem s₁.world := by
        rw [hmem, hw]
        exact hplain.printable
      have hspared := hplain.spared hmem hw
      cases body with
      | result page =>
        have hpage : page = some (newest limit (Watcher.ledgerIndexMin s.mem.lastLedger)
          s.world.history) := hplain.answered.page _ _ _ page rfl rfl
        subst hpage
        exact alone_lift ⟨hw, hspared, hprintable, .inr ⟨_, rfl, rfl, rfl⟩⟩
      | _ => exact alone_lift ⟨hw, hspared, hprintable, .inl ⟨_, rfl, rfl⟩⟩
    · rintro calls e s₁ ⟨c, d, rfl, hplain, hs₁, hper⟩
      have hw : s₁.world = s.world := perform_readOnly rfl hper
      have hmem : s₁.mem = d := hs₁
      obtain ⟨part, rfl⟩ := perform_error rfl hper
      have hspared := hplain.spared hmem hw
      refine ⟨hw, hspared, ?_, .inl ⟨e, rfl, rfl⟩⟩
      rw [hmem, hw]
      exact hplain.printable
  · rintro calls page s₁ ⟨hw, hspared, hprintable, ⟨e, he, -⟩ | ⟨x, rfl, hx, hres⟩⟩
    · cases he
    · cases hres
      refine alone_mono (polls_pollLoop _ hprintable) ?_
      rintro calls' _ s₂ ⟨found, rfl, hwalked⟩
      have hpage : pageOf ([x] ++ calls') = some (newest limit
          (Watcher.ledgerIndexMin s.mem.lastLedger) s.world.history) := by
        simp only [pageOf, List.singleton_append, List.findSome?_cons, hx]
      rw [hpage]
      exact .page hw hspared hwalked
  · rintro calls e s₁ ⟨hw, hspared, hprintable, ⟨e', -, hpage⟩ | ⟨x, -, -, hres⟩⟩
    · rw [hpage]
      exact .noPage e hw hspared
    · cases hres

end Poll

/-! ## 3. Runs -/

/-- The watcher and its ledger, with what is to be told of the past. -/
structure Watch where
  st : St
  /-- The last page a poll got. -/
  page : List AccountTxEntry
  /-- What the polls have returned. -/
  returned : List ObservedPayment
  /-- The payments to what was registered before them. -/
  registered : List AccountTxEntry

/-- The watcher right after `setStartLedger(s)`. -/
def Watch.started (s : Int) (st : St) : Watch where
  st := ⟨Watcher.setStartLedger s st.mem, st.world⟩
  page := []
  returned := []
  registered := st.world.history.filter (isRegistered st)

/-- A ledger that closes, with its entries. -/
def Watch.close (w : Watch) (entries : List AccountTxEntry) : Watch :=
  { w with
    st := ⟨w.st.mem, { w.st.world with history := w.st.world.history ++ entries }⟩
    registered := w.registered ++ entries.filter (isRegistered w.st) }

/-- A poll that has ended. -/
def Watch.poll (w : Watch) (out : Async.Outcome sig world Memory (List ObservedPayment)) : Watch :=
  { w with
    st := out.st
    page := (pageOf out.calls).getD w.page
    returned := w.returned ++ out.res.toOption.getD [] }

/-- What happens next: the rest of the process does something, a ledger closes, or a poll is made
of which `ok` holds. -/
inductive Step (o : Options) (limit : Nat) (ok : Watch → List Exchange → Prop) :
    Watch → Watch → Prop
  | others {w : Watch} {st : St} : Spared w.st st →
      st.world.history = w.st.world.history → Step o limit ok w { w with st := st }
  | closed {w : Watch} {entries : List AccountTxEntry} {ledger : Int} :
      (∀ entry ∈ entries, ledgerOf entry = ledger) →
      (∀ entry ∈ w.st.world.history, ledgerOf entry < ledger) →
      WellFormed (w.st.world.history ++ entries) → Step o limit ok w (w.close entries)
  | polled {w : Watch} {answers : List (Choice × Memory)}
      {out : Async.Outcome sig world Memory (List ObservedPayment)} :
      exec (W := world) LostRace.woken (Watcher.poll o limit) answers w.st = some out →
      (∀ x ∈ out.calls, Answered x) → ok w out.calls → Step o limit ok w (w.poll out)

/-- A run from `setStartLedger(s)` on, with a watcher that has reported nothing. -/
def Runs (o : Options) (limit : Nat) (ok : Watch → List Exchange → Prop) (s : Int) (w : Watch) :
    Prop :=
  ∃ st : St, st.mem.seen = [] ∧ WellFormed st.world.history ∧
    Relation.ReflTransGen (Step o limit ok) (Watch.started s st) w

/-- A payment has been returned by some poll. -/
def Returned (w : Watch) (entry : AccountTxEntry) : Prop := ∃ p ∈ w.returned, Reports p entry

/-- What is to hold: the payments up to the highest ledger of the last page have been returned, and
so have those the cursor has passed. -/
structure Claimed (s : Int) (w : Watch) : Prop where
  returned : ∀ entry ∈ w.registered, ∀ entry' ∈ w.page, s ≤ ledgerOf entry →
    ledgerOf entry ≤ ledgerOf entry' → Returned w entry
  passed : ∀ entry ∈ w.registered, s ≤ ledgerOf entry → ledgerOf entry < w.st.mem.lastLedger →
    Returned w entry

/-- A poll whose page holds every entry from the cursor on, while every label can be printed and
no record that is on disk is refused. -/
structure Uncut (limit : Nat) (w : Watch) (calls : List Exchange) : Prop where
  fits : (w.st.world.history.filter fun entry =>
    decide (Watcher.ledgerIndexMin w.st.mem.lastLedger ≤ ledgerOf entry)).length ≤ limit
  printable : ∀ x ∈ calls, Printable x.drift x.before.world
  reads : ∀ x ∈ calls, ReadsRecord x

/-! ## 4. The invariant -/

/-- The ledger is in two parts: what was there when the last page was taken, and the ledgers that
have closed since.  The cursor is in the first, and of the first everything has been returned. -/
structure Inv (s : Int) (w : Watch) (before after : List AccountTxEntry) : Prop where
  history : w.st.world.history = before ++ after
  wellFormed : WellFormed w.st.world.history
  later : ∀ entry ∈ before, ∀ entry' ∈ after, ledgerOf entry < ledgerOf entry'
  page : ∀ entry ∈ w.page, entry ∈ before
  registered : ∀ entry ∈ w.registered, entry ∈ w.st.world.history ∧
    isRegistered w.st entry = true
  lower : s ≤ w.st.mem.lastLedger
  upper : w.st.mem.lastLedger = s ∨ ∃ entry ∈ before, w.st.mem.lastLedger = ledgerOf entry
  seen : ∀ hash ∈ w.st.mem.seen, ∃ p ∈ w.returned, p.xrplTxId = hash
  reports : ∀ p ∈ w.returned, ∃ entry ∈ w.st.world.history, Reports p entry
  covered : ∀ entry ∈ w.registered, entry ∈ before → s ≤ ledgerOf entry → Returned w entry

section Invariant

variable {o : Options} {limit : Nat} {s : Int} {w : Watch} {before after : List AccountTxEntry}

theorem Inv.old (h : Inv s w before after) {entry : AccountTxEntry}
    (hentry : entry ∈ w.registered) (hafter : entry ∉ after) : entry ∈ before := by
  have hmem := (h.registered entry hentry).1
  rw [h.history] at hmem
  exact (List.mem_append.mp hmem).resolve_right hafter

theorem Inv.passed (h : Inv s w before after) {entry : AccountTxEntry}
    (hentry : entry ∈ w.registered) (hs : s ≤ ledgerOf entry)
    (hlt : ledgerOf entry < w.st.mem.lastLedger) : Returned w entry := by
  refine h.covered entry hentry (h.old hentry fun hafter => ?_) hs
  rcases h.upper with heq | ⟨entry', hentry', heq⟩
  · omega
  · have hlater := h.later entry' hentry' entry hafter
    omega

theorem Inv.claimed (h : Inv s w before after) : Claimed s w where
  returned := by
    intro entry hentry entry' hentry' hs hle
    refine h.covered entry hentry (h.old hentry fun hafter => ?_) hs
    have hlater := h.later entry' (h.page entry' hentry') entry hafter
    omega
  passed := fun _ hentry hs hlt => h.passed hentry hs hlt

theorem inv_started {st : St} (hseen : st.mem.seen = []) (hwf : WellFormed st.world.history) :
    Inv s (Watch.started s st) [] st.world.history where
  history := rfl
  wellFormed := hwf
  later := fun _ h => absurd h List.not_mem_nil
  page := fun _ h => absurd h List.not_mem_nil
  registered := fun _ hentry => List.mem_filter.mp hentry
  lower := Int.le_refl s
  upper := .inl rfl
  seen := by
    intro hash hhash
    have hnil : hash ∈ st.mem.seen := hhash
    rw [hseen] at hnil
    exact absurd hnil List.not_mem_nil
  reports := fun _ h => absurd h List.not_mem_nil
  covered := fun _ _ h => absurd h List.not_mem_nil

/-- What the rest of the process does changes nothing of this. -/
theorem Inv.others (h : Inv s w before after) {st : St} (hspared : Spared w.st st)
    (hhistory : st.world.history = w.st.world.history) :
    Inv s { w with st := st } before after where
  history := hhistory.trans h.history
  wellFormed := hhistory ▸ h.wellFormed
  later := h.later
  page := h.page
  registered := by
    intro entry hentry
    obtain ⟨hmem, hreg⟩ := h.registered entry hentry
    exact ⟨hhistory ▸ hmem, isRegistered_mono hspared.keeps hreg⟩
  lower := hspared.lastLedger ▸ h.lower
  upper := hspared.lastLedger ▸ h.upper
  seen := fun hash hhash => h.seen hash (hspared.seen ▸ hhash)
  reports := by
    intro p hp
    obtain ⟨entry, hentry, hreports⟩ := h.reports p hp
    exact ⟨entry, hhistory ▸ hentry, hreports⟩
  covered := h.covered

/-- A ledger that closes is a later one. -/
theorem Inv.close (h : Inv s w before after) {entries : List AccountTxEntry} {ledger : Int}
    (hin : ∀ entry ∈ entries, ledgerOf entry = ledger)
    (hnew : ∀ entry ∈ w.st.world.history, ledgerOf entry < ledger)
    (hwf : WellFormed (w.st.world.history ++ entries)) :
    Inv s (w.close entries) before (after ++ entries) where
  history := by
    rw [← List.append_assoc, ← h.history]
    rfl
  wellFormed := hwf
  later := by
    intro entry hentry entry' hentry'
    rcases List.mem_append.mp hentry' with hold | hnewer
    · exact h.later entry hentry entry' hold
    · rw [hin entry' hnewer]
      refine hnew entry ?_
      rw [h.history]
      exact List.mem_append_left _ hentry
  page := h.page
  registered := by
    intro entry hentry
    rcases List.mem_append.mp hentry with hold | hnewer
    · obtain ⟨hmem, hreg⟩ := h.registered entry hold
      exact ⟨List.mem_append_left _ hmem, hreg⟩
    · obtain ⟨hmem, hreg⟩ := List.mem_filter.mp hnewer
      exact ⟨List.mem_append_right _ hmem, hreg⟩
  lower := h.lower
  upper := h.upper
  seen := h.seen
  reports := by
    intro p hp
    obtain ⟨entry, hentry, hreports⟩ := h.reports p hp
    exact ⟨entry, List.mem_append_left _ hentry, hreports⟩
  covered := by
    intro entry hentry hbefore hs
    rcases List.mem_append.mp hentry with hold | hnewer
    · exact h.covered entry hold hbefore hs
    · have hlt := hnew entry (by rw [h.history]; exact List.mem_append_left _ hbefore)
      have heq := hin entry (List.mem_filter.mp hnewer).1
      omega

/-- A poll that gets no page. -/
theorem Inv.noPage (h : Inv s w before after) {st : St} (hw : st.world = w.st.world)
    (hspared : Spared w.st st) :
    Inv s { w with st := st, returned := w.returned ++ [] } before after := by
  rw [List.append_nil]
  exact h.others hspared (congrArg Outside.history hw)

theorem mem_newest {min : Int} {history : List AccountTxEntry} {entry : AccountTxEntry}
    (h : entry ∈ newest limit min history) : entry ∈ history := by
  have hmem := List.mem_of_mem_take h
  rw [List.mem_reverse] at hmem
  exact (List.mem_filter.mp hmem).1

/-- A page that fits holds everything from the cursor on. -/
theorem mem_newest_of_fits {min : Int} {history : List AccountTxEntry} {entry : AccountTxEntry}
    (hfits : (history.filter fun entry => decide (min ≤ ledgerOf entry)).length ≤ limit)
    (hentry : entry ∈ history) (hle : min ≤ ledgerOf entry) : entry ∈ newest limit min history := by
  unfold newest
  rw [List.take_of_length_le (by rw [List.length_reverse]; exact hfits), List.mem_reverse,
    List.mem_filter]
  exact ⟨hentry, decide_eq_true hle⟩

/-- What is reported under the hash of an entry is the entry. -/
theorem Reports.same {history : List AccountTxEntry} (hwf : WellFormed history)
    {entry entry' : AccountTxEntry} (hentry : entry ∈ history) (hentry' : entry' ∈ history)
    {p : ObservedPayment} (hp : Reports p entry') {tx : XrplTx} (htx : entry.payment = some tx)
    (hhash : entry.paymentHash tx = some p.xrplTxId) : Reports p entry := by
  obtain ⟨tx', htx', hhash', hc⟩ := hp
  obtain rfl := hwf.unique entry hentry entry' hentry' tx tx' htx htx' (hhash.trans hhash'.symm)
  exact ⟨tx', htx', hhash', hc⟩

/-- A poll with a page that fits: everything that was there has been returned. -/
theorem Inv.polledPage (h : Inv s w before after) {s₁ s' : St} {found : List ObservedPayment}
    (hw : s₁.world = w.st.world) (hspared : Spared w.st s₁)
    (hfits : (w.st.world.history.filter fun entry =>
      decide (Watcher.ledgerIndexMin w.st.mem.lastLedger ≤ ledgerOf entry)).length ≤ limit)
    (hwalked : Walked (newest limit (Watcher.ledgerIndexMin w.st.mem.lastLedger)
      w.st.world.history) s₁ s' found) :
    Inv s { w with
      st := s'
      page := newest limit (Watcher.ledgerIndexMin w.st.mem.lastLedger) w.st.world.history
      returned := w.returned ++ found } w.st.world.history [] := by
  have hhistory : s'.world.history = w.st.world.history := by rw [hwalked.world, hw]
  have hseen : ∀ hash ∈ s'.mem.seen, ∃ p ∈ w.returned ++ found, p.xrplTxId = hash := by
    intro hash hhash
    rcases hwalked.seen hash hhash with hold | ⟨p, hp, heq⟩
    · obtain ⟨p, hp, heq⟩ := h.seen hash (hspared.seen ▸ hold)
      exact ⟨p, List.mem_append_left _ hp, heq⟩
    · exact ⟨p, List.mem_append_right _ hp, heq⟩
  have hreports : ∀ p ∈ w.returned ++ found, ∃ entry ∈ w.st.world.history, Reports p entry := by
    intro p hp
    rcases List.mem_append.mp hp with hold | hnew
    · exact h.reports p hold
    · obtain ⟨entry, hentry, hreports⟩ := hwalked.reports p hnew
      exact ⟨entry, mem_newest hentry, hreports⟩
  have hlast := hspared.lastLedger
  refine ⟨?_, hhistory ▸ h.wellFormed, fun _ _ _ h => absurd h List.not_mem_nil,
    fun entry hentry => mem_newest hentry, ?_, ?_, ?_, hseen, ?_, ?_⟩
  · rw [List.append_nil]
    exact hhistory
  · intro entry hentry
    obtain ⟨hmem, hreg⟩ := h.registered entry hentry
    exact ⟨hhistory ▸ hmem,
      isRegistered_mono (fun c hc => hwalked.keeps c (hspared.keeps c hc)) hreg⟩
  · have hle := hwalked.lower
    have hlower := h.lower
    dsimp only
    omega
  · rcases hwalked.upper with heq | ⟨entry, hentry, heq⟩
    · rcases h.upper with hstart | ⟨entry, hentry, hcursor⟩
      · exact .inl (by rw [heq, hlast, hstart])
      · refine .inr ⟨entry, ?_, by rw [heq, hlast, hcursor]⟩
        rw [h.history]
        exact List.mem_append_left _ hentry
    · exact .inr ⟨entry, mem_newest hentry, heq⟩
  · intro p hp
    obtain ⟨entry, hentry, hreport⟩ := hreports p hp
    exact ⟨entry, hhistory ▸ hentry, hreport⟩
  · intro entry hentry hmem hs
    obtain ⟨-, hreg⟩ := h.registered entry hentry
    by_cases hle : Watcher.ledgerIndexMin w.st.mem.lastLedger ≤ ledgerOf entry
    · -- it is on the page
      have hpage := mem_newest_of_fits hfits hmem hle
      obtain ⟨tx, -, htx, -, -⟩ := isRegistered_iff.mp hreg
      obtain ⟨hash, hhash, hne⟩ := h.wellFormed.named entry hmem tx htx
      have hfound := hwalked.finds entry hpage (isRegistered_mono hspared.keeps hreg) tx hash htx
        hhash hne
      obtain ⟨p, hp, rfl⟩ := hseen hash hfound
      obtain ⟨entry', hentry', hreport⟩ := hreports p hp
      exact ⟨p, hp, hreport.same h.wellFormed hmem hentry' htx hhash⟩
    · -- the cursor had passed it
      have hpositive := h.wellFormed.positive entry hmem
      unfold Watcher.ledgerIndexMin at hle
      have hlt : ledgerOf entry < w.st.mem.lastLedger := by
        split at hle
        · omega
        · omega
      obtain ⟨p, hp, hreport⟩ := h.passed hentry hs hlt
      exact ⟨p, List.mem_append_left _ hp, hreport⟩

/-- **One step keeps the invariant**, be it the rest of the process, a ledger that closes or a
poll, when the polls are not cut off. -/
theorem Inv.step (h : Inv s w before after) {w' : Watch} (hstep : Step o limit (Uncut limit) w w') :
    ∃ before' after', Inv s w' before' after' := by
  cases hstep with
  | others hspared hhistory => exact ⟨before, after, h.others hspared hhistory⟩
  | closed hin hnew hwf => exact ⟨before, _, h.close hin hnew hwf⟩
  | @polled answers out hexec hanswered huncut =>
    have hpolled : Polled limit w.st (pageOf out.calls) out.res out.st :=
      polls_poll o limit answers out hexec fun x hx =>
        ⟨hanswered x hx, huncut.printable x hx, huncut.reads x hx⟩
    unfold Watch.poll
    generalize pageOf out.calls = page at hpolled
    generalize out.res = res at hpolled
    generalize out.st = st at hpolled
    cases hpolled with
    | noPage e hw hspared => exact ⟨before, after, h.noPage hw hspared⟩
    | page hw hspared hwalked => exact ⟨_, [], h.polledPage hw hspared huncut.fits hwalked⟩

theorem inv_runs (h : Runs o limit (Uncut limit) s w) : ∃ before after, Inv s w before after := by
  obtain ⟨st, hseen, hwf, hsteps⟩ := h
  induction hsteps with
  | refl => exact ⟨[], _, inv_started hseen hwf⟩
  | tail _ hstep ih =>
    obtain ⟨before, after, hinv⟩ := ih
    exact hinv.step hstep

end Invariant

end Cursor

/-- **The cursor skips nothing** as long as every page holds all that is to be seen from the cursor
on, every label can be printed, and no record that is on disk is refused.  An operation counts as
registered also if it is only on disk, as it is for a process that has started since. -/
theorem cursor_skips_nothing (o : Options) (limit : Nat) {s : Int} {w : Cursor.Watch}
    (h : Cursor.Runs o limit (Cursor.Uncut limit) s w) : Cursor.Claimed s w := by
  obtain ⟨before, after, hinv⟩ := Cursor.inv_runs h
  exact hinv.claimed

/-! ### A payment, and a page of foreign payments on top of it -/

namespace SampleCursor

open Cursor

def options : Options := Sample.options Sample.tables

def record : PendingUserOp where
  commitment := Sample.commitment
  userOpData := Sample.userOpData
  personalAccount := .str "0xcd".toList
  nonce := .str "7".toList
  totalCallValue := .str "0".toList
  label := .str "pay".toList
  registeredAt := 0

/-- A process that has started since the registration: the record is only on disk. -/
def st : St where
  mem := .boot 0
  world := {
    pending := Function.update (fun _ => none) (PendingStore.fileName Sample.commitment)
      (some (.whole record))
    jobs := fun _ => none
    chain := []
    history := [] }

/-- Its memory, with the cursor on a ledger. -/
def cursorAt (ledger : Int) : Memory := Watcher.setStartLedger ledger st.mem

/-- The payment for the operation. -/
def ours : AccountTxEntry := Sample.payment Sample.txId 11 Sample.commitment

/-- A payment of somebody else. -/
def foreign (i : Nat) : AccountTxEntry where
  hash := some (List.replicate (i + 1) 'B')
  ledger_index := some 12
  validated := some true
  tx_json := some { transactionType := some "Payment".toList, memos := none }

def busy : List AccountTxEntry := (List.range 30).map foreign

/-- The watcher once the ledger of our payment has closed. -/
def paid : Watch := (Watch.started 11 st).close [ours]

/-- The page the poll gets, what it reads from the disk, and the memory it goes on in. -/
def answers (page : List AccountTxEntry) : List (Choice × Memory) :=
  [(.transactions (.result (some page)), cursorAt 11), (.done, cursorAt 11)]

def polled (w : Watch) (page : List AccountTxEntry) :
    Option (Async.Outcome sig world Memory (List ObservedPayment)) :=
  exec (W := world) LostRace.woken (Watcher.poll options) (answers page) w.st

/-- The call of the poll for a page. -/
def call (w : Watch) (page : List AccountTxEntry) : Exchange :=
  ⟨.accountTx options.coreVaultAddress 30 11, w.st, .transactions (.result (some page)),
    cursorAt 11⟩

/-- Its read of the record. -/
def reading (w : Watch) : Exchange :=
  ⟨.readPending (PendingStore.fileName Sample.commitment), ⟨cursorAt 11, w.st.world⟩, .done,
    cursorAt 11⟩

theorem foreign_injective {i j : Nat} (h : (foreign i).hash = (foreign j).hash) : i = j := by
  have hlen := congrArg List.length (Option.some.inj h)
  simpa using hlen

/-- The hashes in these ledgers are those of different transactions. -/
theorem wellFormed_busy : WellFormed ([ours] ++ busy) := by
  have hcases : ∀ entry ∈ [ours] ++ busy, entry = ours ∨ ∃ i, entry = foreign i := by
    intro entry hentry
    rcases List.mem_append.mp hentry with h | h
    · exact .inl (List.mem_singleton.mp h)
    · obtain ⟨i, -, rfl⟩ := List.mem_map.mp h
      exact .inr ⟨i, rfl⟩
  have hours : ∀ i, ours.hash ≠ (foreign i).hash := by
    intro i heq
    have hchar := congrArg List.head? (Option.some.inj heq)
    rw [Sample.txId, List.head?_replicate, List.head?_replicate] at hchar
    simp at hchar
  have hname : ∀ entry ∈ [ours] ++ busy, ∀ tx, entry.payment = some tx →
      entry.paymentHash tx = entry.hash ∧ ∃ hash, entry.hash = some hash ∧ hash ≠ [] := by
    intro entry hentry tx _
    rcases hcases entry hentry with rfl | ⟨i, rfl⟩
    · exact ⟨rfl, _, rfl, by decide⟩
    · exact ⟨rfl, _, rfl, by simp⟩
  refine ⟨fun entry hentry tx htx => ?_, fun entry hentry entry' hentry' tx tx' htx htx' heq => ?_,
    fun entry hentry => ?_⟩
  · obtain ⟨heq, hash, hhash, hne⟩ := hname entry hentry tx htx
    exact ⟨hash, heq.trans hhash, hne⟩
  · rw [(hname entry hentry tx htx).1, (hname entry' hentry' tx' htx').1] at heq
    rcases hcases entry hentry with rfl | ⟨i, rfl⟩ <;> rcases hcases entry' hentry' with rfl | ⟨j, rfl⟩
    · rfl
    · exact absurd heq (hours j)
    · exact absurd heq.symm (hours i)
    · rw [foreign_injective heq]
  · rcases hcases entry hentry with rfl | ⟨i, rfl⟩
    · decide
    · exact Int.le_of_lt (by decide : (0 : Int) < 12)

theorem wellFormed_ours : WellFormed [ours] where
  named := fun entry hentry => wellFormed_busy.named entry (List.mem_append_left _ hentry)
  unique := fun entry hentry entry' hentry' =>
    wellFormed_busy.unique entry (List.mem_append_left _ hentry) entry'
      (List.mem_append_left _ hentry')
  positive := fun entry hentry => wellFormed_busy.positive entry (List.mem_append_left _ hentry)

theorem wellFormed_nil : WellFormed [] :=
  ⟨fun _ h => absurd h List.not_mem_nil, fun _ h => absurd h List.not_mem_nil,
    fun _ h => absurd h List.not_mem_nil⟩

theorem closes_ours (ok : Watch → List Exchange → Prop) :
    Step options 30 ok (Watch.started 11 st) paid := by
  have hin : ∀ entry ∈ [ours], ledgerOf entry = 11 := by
    intro entry hentry
    rw [List.mem_singleton.mp hentry]
    rfl
  exact .closed hin (fun _ h => absurd h List.not_mem_nil) wellFormed_ours

theorem closes_busy (ok : Watch → List Exchange → Prop) :
    Step options 30 ok paid (paid.close busy) := by
  have hin : ∀ entry ∈ busy, ledgerOf entry = 12 := by
    intro entry hentry
    obtain ⟨i, -, rfl⟩ := List.mem_map.mp hentry
    rfl
  refine .closed hin ?_ wellFormed_busy
  intro entry hentry
  rw [List.mem_singleton.mp hentry]
  decide

theorem answered_call {w : Watch} {page : List AccountTxEntry}
    (h : newest 30 11 w.st.world.history = page) (hmem : w.st.mem = cursorAt 11) :
    Answered (call w page) where
  page := by
    intro account limit min page' hop hchoice
    cases hop
    cases hchoice
    exact congrArg some h.symm
  spared := by
    obtain ⟨⟨m, world⟩, page, returned, registered⟩ := w
    cases hmem
    exact ⟨rfl, rfl, fun _ h => h⟩

theorem answered_reading (w : Watch) : Answered (reading w) where
  page := fun _ _ _ _ hop => (by cases hop)
  spared := ⟨rfl, rfl, fun _ h => h⟩

theorem printable_paid : Printable (cursorAt 11) paid.st.world where
  left := by
    intro key record hget
    cases hget
  right := by
    intro name record' hfile
    have hrecord : Function.update (fun _ => none) (PendingStore.fileName Sample.commitment)
        (some (Text.whole record)) name = some (.whole record') := hfile
    by_cases hname : name = PendingStore.fileName Sample.commitment
    · subst hname
      rw [Function.update_self] at hrecord
      cases hrecord
      exact ⟨_, rfl⟩
    · rw [Function.update_of_ne hname] at hrecord
      cases hrecord

theorem newest_ours : newest 30 11 paid.st.world.history = [ours] := rfl

theorem newest_busy : newest 30 11 (paid.close busy).st.world.history = busy.reverse := by
  have hall : (paid.close busy).st.world.history.filter
      (fun entry => decide (11 ≤ ledgerOf entry)) = ours :: busy := by
    refine List.filter_eq_self.mpr fun entry hentry => ?_
    rcases List.mem_cons.mp hentry with rfl | h
    · decide
    · obtain ⟨i, -, rfl⟩ := List.mem_map.mp h
      rfl
  rw [newest, hall, List.reverse_cons]
  exact List.take_left' (by simp [busy])

end SampleCursor

open SampleCursor Cursor in
set_option maxRecDepth 10000 in
/-- **Thirty foreign payments in the ledger after ours** fill the page, and the cursor is past ours
though no poll has returned it. -/
theorem cursor_passes_payment : ∃ w : Watch,
    Runs options 30 (fun _ _ => True) 11 w ∧ ours ∈ w.registered ∧ ¬Claimed 11 w := by
  have hpoll : polled (paid.close busy) busy.reverse = some
      ⟨.ok [], ⟨cursorAt 12, (paid.close busy).st.world⟩,
        [call (paid.close busy) busy.reverse], [(.done, cursorAt 11)]⟩ := rfl
  have hanswered : ∀ x ∈ [call (paid.close busy) busy.reverse], Answered x := by
    intro x hx
    rw [List.mem_singleton.mp hx]
    exact answered_call newest_busy rfl
  have hregistered : ours ∈ ((paid.close busy).poll ⟨.ok [], ⟨cursorAt 12,
      (paid.close busy).st.world⟩, [call (paid.close busy) busy.reverse],
        [(.done, cursorAt 11)]⟩).registered := by
    refine List.mem_append_left _ (List.mem_append_right _ (List.mem_filter.mpr ⟨?_, ?_⟩))
    · exact List.mem_singleton_self _
    · decide +kernel
  refine ⟨_, ⟨st, rfl, wellFormed_nil, .tail (.tail (.single (closes_ours _)) (closes_busy _))
    (.polled hpoll hanswered trivial)⟩, hregistered, fun h => ?_⟩
  obtain ⟨p, hp, -⟩ := h.passed ours hregistered (Int.le_refl 11) (by decide)
  exact absurd hp List.not_mem_nil

open SampleCursor Cursor in
/-- A quiet ledger, and the payment for an operation that was registered before the process started
is returned. -/
theorem cursor_skips_nothing_quiet : ∃ w : Watch, Claimed 11 w ∧ ours ∈ w.registered ∧
    w.returned.map (·.xrplTxId) = [Sample.txId] := by
  have hpoll : polled paid [ours] = some
      ⟨.ok [ours.observed (Sample.ledger []) Sample.txId Sample.commitment], ⟨_, paid.st.world⟩,
        [call paid [ours], reading paid], []⟩ := rfl
  have hcalls : ∀ x ∈ [call paid [ours], reading paid], x = call paid [ours] ∨ x = reading paid := by
    simp
  have hanswered : ∀ x ∈ [call paid [ours], reading paid], Answered x := by
    intro x hx
    rcases hcalls x hx with rfl | rfl
    · exact answered_call newest_ours rfl
    · exact answered_reading paid
  have huncut : Uncut 30 paid [call paid [ours], reading paid] := by
    refine ⟨by decide, fun x hx => ?_, fun x hx name record hop hfile e part => ?_⟩
    · rcases hcalls x hx with rfl | rfl
      · exact printable_paid
      · exact printable_paid
    · rcases hcalls x hx with rfl | rfl
      · cases hop
      · nofun
  have hruns : Runs options 30 (Uncut 30) 11 (paid.poll _) :=
    ⟨st, rfl, wellFormed_nil, .tail (.single (closes_ours _)) (.polled hpoll hanswered huncut)⟩
  refine ⟨_, cursor_skips_nothing options 30 hruns, ?_, rfl⟩
  refine List.mem_append_right _ (List.mem_filter.mpr ⟨List.mem_singleton_self _, ?_⟩)
  decide +kernel

end OneSig.Executor
