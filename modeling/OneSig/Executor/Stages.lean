/-
# A tick in stages

`machine` runs the first half of a tick as one program, so that a state does not show what a poll
has found so far.  For a result about ticks that overlap one wants to say where each of them
stands: which entries of its page are still ahead, what it has marked as seen and not yet
reported, for which payments it has still to create a job.

Here a tick jumps from stage to stage: it takes up the entries of its page one by one, looks up
what they commit to, and creates the jobs of what it has found one by one.  The jumps stand where
one iteration of a loop of the source ends, or where it calls the store; a stage carries what the
loop has at that point.  `staged` is the process with ticks like this.

It is the same process.  `Stage.rest` is what is left of a tick from a stage on, as `machine` runs
it, and `Stage.rest_eq` says that this is the code of the stage followed by what is left from the
stage it jumps to; so the stages put together, one after the other, are the tick.  The equation
that moves a jump out of a `try` block is the one on leaving it in the middle
(`Prog.tryCatch_seq`).

The sections of each stage are given by `stages`: what is done to the set of seen hashes and to
the live map, and which stage comes next (`After`).  Everything else that a stage does leaves
these two alone (`Still`), and is shown to with the rules for programs that spare a part of the
memory.
-/
import OneSig.Lib.Async.Sections
import OneSig.Executor.PollSpec

namespace OneSig.Executor

open OneSig Async ExecutorPipeline

/-! ## 1. One entry, in two parts -/

namespace Watcher

/-- Up to the lookup: the payment and the commitment to look up. -/
def takeUp (entry : AccountTxEntry) : Prog (Option (XrplTx × Hex)) :=
  match entry.payment with
  | none => return none
  | some tx => do
    Prog.modify (S := sig) (advanceCursor (entry.ledger_index.getD 0))
    let seen ← Prog.gets (S := sig) Memory.seen
    if alreadySeen (entry.paymentHash tx) seen = true then
      return none
    else return (commitmentFromMemos tx).map fun commitment => (tx, commitment)

/-- The lookup, and what follows it. -/
def lookUp (entry : AccountTxEntry) (tx : XrplTx) (commitment : Hex) :
    Prog (Option ObservedPayment) := do
  match ← PendingStore.get commitment with
  | none => return none
  | some pending =>
    match entry.paymentHash tx with
    | some (c :: cs) =>
      Prog.modify (S := sig) (markSeen (c :: cs))
      let _ ← Prog.lift (S := sig) pending.label.text
      return some (entry.observed tx (c :: cs) commitment)
    | _ => return none

theorem pollEntry_eq (entry : AccountTxEntry) :
    pollEntry entry = (do
      match ← takeUp entry with
      | none => return none
      | some (tx, commitment) => lookUp entry tx commitment) := by
  unfold pollEntry takeUp AccountTxEntry.payment
  by_cases hval : entry.validated = some false
  · rw [if_pos hval, if_pos hval]
    rfl
  rw [if_neg hval, if_neg hval]
  cases htx : entry.tx_json.orElse fun _ => entry.tx with
  | none => rfl
  | some tx =>
    by_cases htype : tx.transactionType = some "Payment".toList
    case neg =>
      simp only [ne_eq, htype, not_false_eq_true, if_true, Option.filter_some, decide_false,
        Bool.false_eq_true, if_false]
      rfl
    simp only [ne_eq, htype, not_true_eq_false, if_false, Option.filter_some, decide_true, if_true]
    refine congrArg (Prog.get (S := sig)) (funext fun m => ?_)
    refine congrArg (Prog.set (S := sig) _) ?_
    refine congrArg (Prog.get (S := sig)) (funext fun m' => ?_)
    have hname : (entry.hash.orElse fun _ => tx.hash) = entry.paymentHash tx := rfl
    simp only [Prog.bind, hname]
    by_cases halready : alreadySeen (entry.paymentHash tx) m'.seen = true
    · rw [if_pos halready, if_pos halready]
      rfl
    · rw [if_neg halready, if_neg halready]
      cases commitmentFromMemos tx <;> rfl

end Watcher

/-! ## 2. The stages -/

open ExecutorService

inductive Stage
  | register (body : Json)
  | prepare (body : Json)
  | start
  /-- The poll asks for a page. -/
  | tick
  /-- The poll takes up the next entry of its page; this is what it has found so far. -/
  | polling (entries : List AccountTxEntry) (found : List ObservedPayment)
  /-- The poll looks up what a payment commits to. -/
  | looking (entry : AccountTxEntry) (tx : XrplTx) (commitment : Hex)
      (entries : List AccountTxEntry) (found : List ObservedPayment)
  /-- The poll has returned, and these payments are left to create jobs for. -/
  | creating (payments : List ObservedPayment)
  | advance (place : Nat)
  | stepping (place : Nat) (id : Str) (job : Ref)

namespace Stage

/-- The label a walk goes on with. -/
def ofLabel : Label → Option Stage
  | .advance place => some (.advance place)
  | .stepping place id job => some (.stepping place id job)
  | _ => none

/-- A part of the `try` block of a tick: when it throws, the walk begins. -/
def attempt {α : Type} (p : Prog α) (next : α → Stage) : Prog (Option Stage) :=
  (do
    let a ← p
    return some (next a)).tryCatch fun _ => return some (.advance 0)

def code (o : Options) : Stage → Prog (Option Stage)
  | .register body => do
    let _ ← handleRegister o body
    return none
  | .prepare body => do
    let _ ← handlePrepare o body
    return none
  | .start => do
    ExecutorService.start
    return none
  | .tick => attempt
    (do
      let lastLedger ← Prog.gets (S := sig) Memory.lastLedger
      XrplHttpClient.accountTx o.coreVaultAddress 30 (Watcher.ledgerIndexMin lastLedger))
    fun transactions => .polling (transactions.getD []) []
  | .polling [] found => return some (.creating found)
  | .polling (entry :: entries) found => attempt (Watcher.takeUp entry) fun taken =>
    match taken with
    | none => .polling entries found
    | some (tx, commitment) => .looking entry tx commitment entries found
  | .looking entry tx commitment entries found =>
    attempt (Watcher.lookUp entry tx commitment) fun payment =>
      .polling entries (found ++ payment.toList)
  | .creating [] => return some (.advance 0)
  | .creating (observed :: rest) => attempt (createOne observed) fun _ => .creating rest
  | .advance place => do
    let live ← Prog.gets (S := sig) Memory.live
    return (walk place live).bind ofLabel
  | .stepping place id job => do
    advanceOne o id job
    return some (.advance (place + 1))

end Stage

/-- The process, with its ticks in stages. -/
def staged (o : Options) : Async.Machine sig world where
  Label := Stage
  code := Stage.code o
  boot := fun m => Memory.boot m.now
  Ext := Ext
  outside := outside

/-! ## 3. The stages of a tick are the tick -/

namespace Stage

/-- The rest of a poll that has found something, and the creation of the jobs. -/
def finish (entries : List AccountTxEntry) (found : List ObservedPayment) : Prog Unit := do
  let payments ← Watcher.pollLoop entries
  createLoop (found ++ payments)

/-- The part of `finish` after an entry has been taken up. -/
def taken (entry : AccountTxEntry) (entries : List AccountTxEntry) (found : List ObservedPayment) :
    Option (XrplTx × Hex) → Prog Unit
  | none => finish entries found
  | some (tx, commitment) => do
    let payment ← Watcher.lookUp entry tx commitment
    finish entries (found ++ payment.toList)

theorem finish_nil (found : List ObservedPayment) : finish [] found = createLoop found :=
  congrArg createLoop (List.append_nil found)

theorem finish_cons (entry : AccountTxEntry) (entries : List AccountTxEntry)
    (found : List ObservedPayment) : finish (entry :: entries) found =
      Watcher.takeUp entry >>= taken entry entries found := by
  have hrest : ∀ payment : Option ObservedPayment,
      (Watcher.pollLoop entries >>= fun payments => pure (payment.toList ++ payments)) >>=
          (fun payments => createLoop (found ++ payments)) =
        finish entries (found ++ payment.toList) := by
    intro payment
    rw [Prog.bind_assoc, finish]
    refine congrArg (Watcher.pollLoop entries >>= ·) (funext fun payments => ?_)
    exact congrArg createLoop (List.append_assoc ..).symm
  rw [finish, Watcher.pollLoop, Watcher.pollEntry_eq, Prog.bind_assoc, Prog.bind_assoc]
  refine congrArg (Watcher.takeUp entry >>= ·) (funext fun found' => ?_)
  cases found' with
  | none =>
    refine (hrest none).trans ?_
    rw [Option.toList_none, List.append_nil]
    rfl
  | some found' => exact congrArg (Watcher.lookUp entry found'.1 found'.2 >>= ·) (funext hrest)

/-- A `try` block of the service, and the walk after it. -/
def guarded (p : Prog Unit) : Prog (Option Label) := do
  p.tryCatch fun _ => return ()
  return some (.advance 0)

/-- What is left of a tick from a stage on, as `machine` runs it. -/
def rest (o : Options) : Stage → Prog (Option Label)
  | .polling entries found => guarded (finish entries found)
  | .looking entry tx commitment entries found =>
    guarded (taken entry entries found (some (tx, commitment)))
  | .creating payments => guarded (createLoop payments)
  | .register body => ExecutorService.code o (.register body)
  | .prepare body => ExecutorService.code o (.prepare body)
  | .start => ExecutorService.code o .start
  | .tick => ExecutorService.code o .tick
  | .advance place => ExecutorService.code o (.advance place)
  | .stepping place id job => ExecutorService.code o (.stepping place id job)

/-- What a stage comes to in `machine` when it is jumped to: the walk is a jump there too. -/
def follow (o : Options) : Option Stage → Prog (Option Label)
  | none => return none
  | some (.advance place) => return some (.advance place)
  | some (.stepping place id job) => return some (.stepping place id job)
  | some stage => stage.rest o

theorem guarded_attempt {α : Type} {o : Options} {p : Prog α} {f : α → Prog Unit} {next : α → Stage}
    (hnext : ∀ a, follow o (some (next a)) = guarded (f a)) :
    guarded (p >>= f) = attempt p next >>= follow o :=
  Prog.tryCatch_seq p f _ _ (fun a => some (next a)) (some (.advance 0)) (follow o) hnext fun _ => rfl

/-- **The stages of a tick, one after the other, are the tick**: what is left of it from any stage
on is that stage's code and then what is left from the next. -/
theorem rest_eq (o : Options) (stage : Stage) : stage.rest o = stage.code o >>= follow o := by
  have hnone : ∀ {α : Type} (p : Prog α), (do
      let _ ← p
      return (none : Option Label)) = (do
      let _ ← p
      return (none : Option Stage)) >>= follow o :=
    fun p => (Prog.bind_assoc p (fun _ => pure none) (follow o)).symm
  cases stage with
  | register body => exact hnone _
  | prepare body => exact hnone _
  | start => exact hnone _
  | tick =>
    have htick : rest o .tick = guarded (do
        let lastLedger ← Prog.gets (S := sig) Memory.lastLedger
        let transactions ←
          XrplHttpClient.accountTx o.coreVaultAddress 30 (Watcher.ledgerIndexMin lastLedger)
        finish (transactions.getD []) []) := by
      simp only [rest, guarded, ExecutorService.code, createJobs, Watcher.poll, Prog.bind_assoc,
        finish, List.nil_append]
    rw [htick, ← Prog.bind_assoc]
    exact guarded_attempt fun _ => rfl
  | polling entries found =>
    cases entries with
    | nil =>
      rw [rest, finish_nil]
      rfl
    | cons entry entries =>
      rw [rest, finish_cons]
      refine guarded_attempt fun found' => ?_
      cases found' <;> rfl
  | looking entry tx commitment entries found => exact guarded_attempt fun _ => rfl
  | creating payments =>
    cases payments with
    | nil => rfl
    | cons observed payments => exact guarded_attempt fun _ => rfl
  | advance place =>
    refine congrArg (Prog.get (S := sig)) (funext fun m => ?_)
    simp only [Prog.bind, Prog.pure_eq, walk]
    cases m.live.entries[place]? with
    | none => rfl
    | some found => cases found <;> rfl
  | stepping place id job =>
    exact (Prog.bind_assoc (advanceOne o id job) (fun _ => pure (some (.advance (place + 1))))
      (follow o)).symm

end Stage

/-! ## 4. What the stages do to the books -/

/-- The seen hashes and the live jobs. -/
def marks (m : Memory) : List Str × JsMap Str Ref := (m.seen, m.live)

/-- The program leaves both alone. -/
abbrev Still {α : Type} (p : Prog α) : Prop := Spares (S := sig) marks p

theorem still_update (r : Ref) (f : Job → Job) : Still (Prog.modify (Memory.updateJob r f)) :=
  spares_modify fun _ => rfl

theorem still_deref (r : Ref) : Still (deref r) := by
  unfold deref
  refine spares_bind (spares_gets _) fun found => ?_
  cases found with
  | some job => exact spares_pure job
  | none => exact spares_lift _

theorem still_newJob (job : Job) : Still (newJob job) := by
  unfold newJob
  refine spares_bind (spares_gets _) fun r => ?_
  exact spares_bind (spares_modify fun _ => rfl) fun _ => spares_pure r

theorem still_get (commitment : Hex) : Still (PendingStore.get commitment) := by
  unfold PendingStore.get
  refine spares_bind (spares_gets _) fun cached => ?_
  cases cached with
  | some record => exact spares_pure _
  | none =>
    refine spares_tryCatch ?_ fun _ => spares_pure _
    refine spares_bind (spares_call _) fun raw => ?_
    refine spares_bind (spares_lift _) fun record => ?_
    exact spares_bind (spares_modify fun _ => rfl) fun _ => spares_pure _

theorem still_register (o : Options) (entry : Entry) : Still (PendingStore.register o entry) := by
  unfold PendingStore.register
  refine spares_bind (spares_lift _) fun found => ?_
  refine spares_bind (spares_lift _) fun _ => ?_
  refine spares_bind (spares_gets _) fun now => ?_
  refine spares_bind (spares_modify fun _ => rfl) fun _ => ?_
  refine spares_bind (spares_call _) fun _ => ?_
  exact spares_bind (spares_call _) fun _ => spares_pure _

theorem still_handleRegister (o : Options) (body : Json) : Still (handleRegister o body) := by
  unfold handleRegister
  split
  · exact spares_lift _
  · split
    · exact spares_pure _
    · refine spares_bind (still_register o _) fun commitment => ?_
      exact spares_bind (spares_lift _) fun _ => spares_pure _

theorem still_handlePrepare (o : Options) (body : Json) : Still (handlePrepare o body) := by
  unfold handlePrepare
  split
  · exact spares_lift _
  · split
    · exact spares_pure _
    · refine spares_bind (spares_call _) fun prepared => ?_
      exact spares_bind (still_register o _) fun commitment => spares_pure _

theorem still_start : Still ExecutorService.start := by
  unfold ExecutorService.start XrplHttpClient.currentLedger
  refine spares_bind (spares_bind (spares_call _) fun body => spares_lift _) fun startLedger => ?_
  exact spares_bind (spares_modify fun _ => rfl) fun _ => spares_modify fun _ => rfl

theorem still_resolve (name : Str) : Still (FdcClient.resolve name) := by
  unfold FdcClient.resolve
  refine spares_bind (spares_gets _) fun cached => ?_
  cases cached with
  | some address => exact spares_pure address
  | none =>
    refine spares_bind (spares_call _) fun address => ?_
    exact spares_bind (spares_modify fun _ => rfl) fun _ => spares_pure address

theorem still_submitRequest (job : Str) (request : Option Hex) :
    Still (FdcClient.submitRequest job request) := by
  unfold FdcClient.submitRequest
  refine spares_bind (still_resolve _) fun fdcHub => ?_
  refine spares_bind (spares_call _) fun feeConfig => ?_
  refine spares_bind (spares_call _) fun fee => ?_
  refine spares_bind (spares_call _) fun txHash => ?_
  refine spares_bind (spares_call _) fun receipt => ?_
  refine spares_bind (spares_call _) fun timestamp => ?_
  refine spares_bind (still_resolve _) fun fsm => ?_
  refine spares_bind (spares_call _) fun first => ?_
  exact spares_bind (spares_call _) fun epochDuration => spares_lift _

theorem still_isRoundFinalized (roundId : Option Int) :
    Still (FdcClient.isRoundFinalized roundId) := by
  unfold FdcClient.isRoundFinalized
  refine spares_bind (still_resolve _) fun relay => ?_
  refine spares_bind (still_resolve _) fun verification => ?_
  refine spares_bind (spares_call _) fun protocolId => ?_
  exact spares_bind (spares_lift _) fun round => spares_call _

theorem still_fetchProof (o : Options) (request : Option Hex) (roundId : Option Int) :
    Still (FdcClient.fetchProof o request roundId) :=
  spares_bind (spares_call _) fun _ => spares_lift _

/-- A write to a job, and how the `try` block goes on. -/
theorem still_write (r : Ref) (f : Job → Job) (flow : Flow) : Still (do
    Prog.modify (Memory.updateJob r f)
    return flow) :=
  spares_bind (still_update r f) fun _ => spares_pure flow

theorem still_caseProofFetched (o : Options) (r : Ref) (job : Job) :
    Still (caseProofFetched o r job) := by
  unfold caseProofFetched
  refine spares_bind (still_fetchProof o _ _) fun proof => ?_
  refine spares_bind (still_deref r) fun job => ?_
  refine spares_bind (spares_call _) fun hash => ?_
  refine spares_bind (still_update r _) fun _ => ?_
  refine spares_bind (spares_call _) fun receipt => ?_
  split
  · exact spares_lift _
  · split
    · refine spares_bind (still_update r _) fun _ => ?_
      exact spares_bind (spares_lift _) fun _ => spares_pure _
    · exact still_write r _ _

theorem still_switch (o : Options) (r : Ref) (job : Job) : Still (switch o r job) := by
  unfold switch
  cases job.state with
  | observed =>
    refine spares_bind (spares_bind (spares_call _) fun _ => spares_lift _) fun request => ?_
    exact still_write r _ _
  | request_prepared => exact spares_bind (still_submitRequest _ _) fun _ => still_write r _ _
  | request_submitted =>
    refine spares_bind (still_isRoundFinalized _) fun finalized => ?_
    split
    · exact spares_pure _
    · exact still_write r _ _
  | round_finalized => exact spares_bind (still_fetchProof o _ _) fun _ => still_write r _ _
  | proof_fetched => exact still_caseProofFetched o r job
  | delayed =>
    refine spares_bind (spares_gets _) fun now => ?_
    split
    · exact spares_pure _
    · exact still_write r _ _
  | executed => exact spares_pure _
  | failed => exact spares_pure _

theorem still_save (r : Ref) : Still (save r) := by
  unfold save
  refine spares_bind (spares_gets _) fun now => ?_
  refine spares_bind (still_update r _) fun _ => ?_
  refine spares_bind (still_deref r) fun job => ?_
  refine spares_bind (spares_call _) fun _ => ?_
  exact spares_bind (still_deref r) fun text => spares_call _

theorem still_catchBlock (r : Ref) (error : JsError) : Still (catchBlock r error) := by
  unfold catchBlock lostRace
  refine spares_bind (spares_bind (still_deref r) fun job => ?_) fun lost => ?_
  · split
    · exact spares_tryCatch (spares_call _) fun _ => spares_pure _
    · exact spares_pure _
  · split
    · refine spares_bind (still_update r _) fun _ => ?_
      exact spares_bind (still_save r) fun _ => spares_pure _
    · exact still_write r _ _

theorem still_step (o : Options) (r : Ref) : Still (step o r) := by
  have htry : Still (tryBlock o r) := by
    unfold tryBlock
    refine spares_bind (still_deref r) fun job => ?_
    refine spares_bind (still_switch o r job) fun flow => ?_
    cases flow with
    | returned => exact spares_pure _
    | save => exact still_write r _ _
  unfold step
  refine spares_bind (spares_tryCatch htry (still_catchBlock r)) fun flow => ?_
  cases flow with
  | returned => exact spares_pure _
  | save => exact still_save r

theorem still_create (params : CreateParams) : Still (create params) := by
  have hload : ∀ id, Still (load id) := fun id => by
    unfold load
    refine spares_tryCatch ?_ fun _ => spares_pure _
    refine spares_bind (spares_call _) fun raw => ?_
    refine spares_bind (spares_lift _) fun job => ?_
    exact spares_bind (still_newJob job) fun r => spares_pure _
  unfold create
  refine spares_bind (spares_lift _) fun xrplTxId => ?_
  refine spares_bind (hload _) fun existing => ?_
  cases existing with
  | some r => exact spares_pure r
  | none =>
    refine spares_bind (spares_gets _) fun now => ?_
    refine spares_bind (still_newJob _) fun r => ?_
    exact spares_bind (still_save r) fun _ => spares_pure r

/-! ## 5. The last section of a stage -/

/-- The requests and `start`, which jump nowhere. -/
def Stage.served : Stage → Bool
  | .register _ | .prepare _ | .start => true
  | _ => false

/-- What the last section of a stage does to the books, and where it goes on. -/
inductive After : Stage → Memory → Except JsError (Option Stage) → Memory → Prop
  /-- A request, or `start`. -/
  | answered {stage : Stage} {m m' : Memory} {res : Except JsError (Option Stage)} :
      stage.served = true → marks m' = marks m → (∀ next, res ≠ .ok (some next)) →
      After stage m res m'
  | asked {m m' : Memory} (entries : List AccountTxEntry) : marks m' = marks m →
      After .tick m (.ok (some (.polling entries []))) m'
  /-- Something was thrown, or there is nothing left to create. -/
  | left {stage : Stage} {m m' : Memory} : marks m' = marks m →
      After stage m (.ok (some (.advance 0))) m'
  | returned {m : Memory} {found : List ObservedPayment} :
      After (.polling [] found) m (.ok (some (.creating found))) m
  | passed {m m' : Memory} {entry : AccountTxEntry} {entries : List AccountTxEntry}
      {found : List ObservedPayment} : marks m' = marks m →
      After (.polling (entry :: entries) found) m (.ok (some (.polling entries found))) m'
  | tookUp {m m' : Memory} {entry : AccountTxEntry} {entries : List AccountTxEntry}
      {found : List ObservedPayment} {tx : XrplTx} {commitment : Hex} : marks m' = marks m →
      entry.payment = some tx → Watcher.alreadySeen (entry.paymentHash tx) m.seen = false →
      After (.polling (entry :: entries) found) m
        (.ok (some (.looking entry tx commitment entries found))) m'
  | missed {m m' : Memory} {entry : AccountTxEntry} {tx : XrplTx} {commitment : Hex}
      {entries : List AccountTxEntry} {found : List ObservedPayment} : marks m' = marks m →
      After (.looking entry tx commitment entries found) m (.ok (some (.polling entries found))) m'
  | reported {m m' : Memory} {entry : AccountTxEntry} {tx : XrplTx} {commitment : Hex}
      {entries : List AccountTxEntry} {found : List ObservedPayment} {hash : Str} :
      entry.paymentHash tx = some hash → hash ≠ [] → marks m' = (hash :: m.seen, m.live) →
      After (.looking entry tx commitment entries found) m
        (.ok (some (.polling entries (found ++ [entry.observed tx hash commitment])))) m'
  /-- The payment is marked, but the log line throws, and the poll with it. -/
  | unprintable {m m' : Memory} {entry : AccountTxEntry} {tx : XrplTx} {commitment : Hex}
      {entries : List AccountTxEntry} {found : List ObservedPayment} {hash : Str} :
      entry.paymentHash tx = some hash → hash ≠ [] → marks m' = (hash :: m.seen, m.live) →
      After (.looking entry tx commitment entries found) m (.ok (some (.advance 0))) m'
  | skipped {m m' : Memory} {observed : ObservedPayment} {rest : List ObservedPayment} :
      marks m' = marks m → After (.creating (observed :: rest)) m (.ok (some (.creating rest))) m'
  | created {m m' : Memory} {observed : ObservedPayment} {rest : List ObservedPayment}
      {next : Stage} (r : Ref) : marks m' = (m.seen, m.live.set observed.xrplTxId r) →
      next = .creating rest ∨ next = .advance 0 →
      After (.creating (observed :: rest)) m (.ok (some next)) m'
  | walked {m : Memory} {place : Nat} {next : Option Stage} :
      (walk place m.live).bind Stage.ofLabel = next → After (.advance place) m (.ok next) m
  | stepped {m m' : Memory} {place : Nat} {id : Str} {r : Ref} (live : JsMap Str Ref) :
      live = m.live ∨ live = m.live.set id r ∨ live = (m.live.set id r).delete id →
      marks m' = (m.seen, live) →
      After (.stepping place id r) m (.ok (some (.advance (place + 1)))) m'

section Sections

/-- The sections of this module: only the last one changes the books. -/
abbrev Finishes {α : Type} (L : Memory → Except JsError α → Memory → Prop) (p : Prog α)
    (m₀ m : Memory) : Prop :=
  Section (S := sig) (fun m₀ m => marks m = marks m₀) L p m₀ m

theorem finishes_attempt {α : Type} {stage : Stage} {p : Prog α} {next : α → Stage}
    {R : Memory → Except JsError α → Memory → Prop} {m₀ m : Memory} (hp : Finishes R p m₀ m)
    (hok : ∀ a m₀ m, R m₀ (.ok a) m → After stage m₀ (.ok (some (next a))) m)
    (herr : ∀ e m₀ m, R m₀ (.error e) m → After stage m₀ (.ok (some (.advance 0))) m) :
    Finishes (After stage) (Stage.attempt p next) m₀ m := by
  refine section_tryCatch (R := fun m₀ res m => match res with
    | .ok r => After stage m₀ (.ok r) m
    | .error e => R m₀ (.error e) m) ?_ (fun _ _ _ h => h) herr
  exact section_bind hp (fun a m₀ m h => hok a m₀ m h) fun _ _ _ h => h

/-- What a lookup does: nothing, or it marks the payment. -/
def LookedUp (entry : AccountTxEntry) (tx : XrplTx) (commitment : Hex) (m : Memory)
    (res : Except JsError (Option ObservedPayment)) (m' : Memory) : Prop :=
  (marks m' = marks m ∧ ∀ p, res ≠ .ok (some p)) ∨
    ∃ hash, entry.paymentHash tx = some hash ∧ hash ≠ [] ∧ marks m' = (hash :: m.seen, m.live) ∧
      ∀ p, res = .ok p → p = some (entry.observed tx hash commitment)

theorem finishes_lookUp (entry : AccountTxEntry) (tx : XrplTx) (commitment : Hex) {m₀ m : Memory}
    (h : marks m = marks m₀) :
    Finishes (LookedUp entry tx commitment) (Watcher.lookUp entry tx commitment) m₀ m := by
  unfold Watcher.lookUp
  refine section_bind (still_get commitment m₀ m h) ?_ fun e m₀ m h => Or.inl ⟨h, nofun⟩
  intro found m₀ m h
  cases found with
  | none => exact Or.inl ⟨h, by rintro p hp; cases hp⟩
  | some pending =>
    dsimp only
    split
    case h_2 => exact Or.inl ⟨h, by rintro p hp; cases hp⟩
    case h_1 c cs hname =>
      refine section_modify ?_
      have hmarks : marks (Watcher.markSeen (c :: cs) m) = ((c :: cs) :: m₀.seen, m₀.live) :=
        congrArg (fun books => ((c :: cs) :: books.1, books.2)) h
      refine section_bind (R := fun (m₀ : Memory) _ m => marks m = ((c :: cs) :: m₀.seen, m₀.live))
        (section_lift hmarks) (fun _ m₀ m h => ?_) fun e m₀ m h => ?_
      · exact Or.inr ⟨_, hname, by simp, h, by rintro p hp; cases hp; rfl⟩
      · exact Or.inr ⟨_, hname, by simp, h, by rintro p hp; cases hp⟩

theorem finishes_takeUp (entry : AccountTxEntry) {m : Memory} :
    Finishes (fun m res m' => marks m' = marks m ∧ ∀ tx commitment, res = .ok (some (tx, commitment)) →
      entry.payment = some tx ∧ Watcher.alreadySeen (entry.paymentHash tx) m.seen = false)
      (Watcher.takeUp entry) m m := by
  unfold Watcher.takeUp
  split
  case h_1 => exact ⟨rfl, by rintro tx c hres; cases hres⟩
  case h_2 tx htx =>
    refine section_modify (section_gets ?_)
    split
    case isTrue => exact ⟨rfl, by rintro tx c hres; cases hres⟩
    case isFalse hseen =>
      refine ⟨rfl, ?_⟩
      rintro tx' c hres
      obtain ⟨commitment, -, hpair⟩ := Option.map_eq_some_iff.mp (Except.ok.inj hres)
      obtain rfl := congrArg Prod.fst hpair
      exact ⟨htx, eq_false_of_ne_true hseen⟩

theorem finishes_createOne (observed : ObservedPayment) {m : Memory} :
    Finishes (fun m _ m' => marks m' = marks m ∨
      ∃ r, marks m' = (m.seen, m.live.set observed.xrplTxId r)) (createOne observed) m m := by
  unfold createOne
  refine section_gets ?_
  split
  · exact Or.inl rfl
  refine section_bind (still_get observed.commitment m m rfl) ?_ fun e m₀ m h => Or.inl h
  intro found m₀ m h
  cases found with
  | none => exact Or.inl h
  | some pending =>
    refine section_bind (spares_lift _ m₀ m h) ?_ fun e m₀ m h => Or.inl h
    intro totalCallValue m₀ m h
    refine section_bind (spares_lift _ m₀ m h) ?_ fun e m₀ m h => Or.inl h
    intro nonce m₀ m h
    refine section_bind (still_create _ m₀ m h) ?_ fun e m₀ m h => Or.inl h
    intro r m₀ m h
    refine section_modify ?_
    have hmarks : marks (setLive observed.xrplTxId r m) =
        (m₀.seen, m₀.live.set observed.xrplTxId r) :=
      congrArg (fun books => (books.1, books.2.set observed.xrplTxId r)) h
    refine section_bind (R := fun (m₀ : Memory) _ m => marks m = (m₀.seen, m₀.live.set observed.xrplTxId r))
      (section_lift hmarks) (fun _ m₀ m h => Or.inr ⟨r, h⟩) fun e m₀ m h => Or.inr ⟨r, h⟩

theorem finishes_advanceOne (o : Options) (id : Str) (r : Ref) {m : Memory} :
    Finishes (fun m res m' => res = .ok () ∧ ∃ live,
      (live = m.live ∨ live = m.live.set id r ∨ live = (m.live.set id r).delete id) ∧
        marks m' = (m.seen, live)) (advanceOne o id r) m m := by
  unfold advanceOne
  refine section_tryCatch (R := fun (m : Memory) _ m' => ∃ live,
    (live = m.live ∨ live = m.live.set id r ∨ live = (m.live.set id r).delete id) ∧
      marks m' = (m.seen, live)) ?_ (fun _ _ _ h => ⟨rfl, h⟩) fun _ _ _ h => ⟨rfl, h⟩
  refine section_bind (still_step o r m m rfl) ?_ fun e m₀ m h => ⟨_, Or.inl rfl, h⟩
  intro _ m₀ m h
  refine section_modify ?_
  have hset : marks (setLive id r m) = (m₀.seen, m₀.live.set id r) :=
    congrArg (fun books => (books.1, books.2.set id r)) h
  have hafter : ∀ b : Bool, Finishes (fun m _ m' => ∃ live,
      (live = m.live ∨ live = m.live.set id r ∨ live = (m.live.set id r).delete id) ∧
        marks m' = (m.seen, live)) (if b = true then Prog.modify (deleteLive id) else return ())
      m₀ (setLive id r m) := by
    intro b
    cases b with
    | true =>
      refine ⟨_, Or.inr (Or.inr rfl), ?_⟩
      exact congrArg (fun books => (books.1, books.2.delete id)) hset
    | false => exact ⟨_, Or.inr (Or.inl rfl), hset⟩
  unfold deref
  rw [Prog.bind_assoc]
  refine section_gets ?_
  cases (setLive id r m).heap[r]? with
  | some next => exact hafter (isTerminal next.state)
  | none => exact ⟨_, Or.inr (Or.inl rfl), hset⟩

theorem finishes_request {α : Type} {stage : Stage} (hs : stage.served = true) {p : Prog α}
    (hp : Still p) {m : Memory} :
    Finishes (After stage) (do
      let _ ← p
      return none) m m := by
  refine section_bind (hp m m rfl) ?_ ?_
  · intro _ m₀ m h
    exact .answered hs h fun next hnext => by cases hnext
  · intro e m₀ m h
    exact .answered hs h fun next hnext => by cases hnext

/-- **The sections of the stages**: between two waits a task goes from one stage to another as
`After` says, and a request changes neither marks nor live map. -/
def stages (o : Options) : Sectioned (staged o) where
  G := fun _ m m' => marks m' = marks m
  L := After
  refl := fun _ _ => rfl
  code := by
    intro stage m
    cases stage with
    | register body => exact finishes_request rfl (still_handleRegister o body)
    | prepare body => exact finishes_request rfl (still_handlePrepare o body)
    | start => exact finishes_request rfl still_start
    | tick =>
      refine finishes_attempt (spares_bind (spares_gets _) (fun _ => ?_) m m rfl)
        (fun _ _ _ h => .asked _ h) fun _ _ _ h => .left h
      exact spares_bind (spares_call _) fun _ => spares_lift _
    | polling entries found =>
      cases entries with
      | nil => exact .returned
      | cons entry entries =>
        refine finishes_attempt (finishes_takeUp entry) ?_ fun _ _ _ h => .left h.1
        rintro taken m₀ m ⟨h, htaken⟩
        cases taken with
        | none => exact .passed h
        | some taken =>
          obtain ⟨hpay, hseen⟩ := htaken taken.1 taken.2 rfl
          exact .tookUp h hpay hseen
    | looking entry tx commitment entries found =>
      refine finishes_attempt (finishes_lookUp entry tx commitment rfl) ?_ ?_
      · rintro payment m₀ m (⟨h, hnone⟩ | ⟨hash, hname, hne, h, hpayment⟩)
        · cases payment with
          | none =>
            rw [Option.toList_none, List.append_nil]
            exact .missed h
          | some p => exact absurd rfl (hnone p)
        · obtain rfl := hpayment payment rfl
          exact .reported hname hne h
      · rintro e m₀ m (⟨h, -⟩ | ⟨hash, hname, hne, h, -⟩)
        · exact .left h
        · exact .unprintable hname hne h
    | creating payments =>
      cases payments with
      | nil => exact .left rfl
      | cons observed rest =>
        refine finishes_attempt (finishes_createOne observed) ?_ ?_
        · rintro _ m₀ m (h | ⟨r, h⟩)
          · exact .skipped h
          · exact .created r h (Or.inl rfl)
        · rintro e m₀ m (h | ⟨r, h⟩)
          · exact .left h
          · exact .created r h (Or.inr rfl)
    | advance place => exact .walked rfl
    | stepping place id r =>
      refine section_bind (finishes_advanceOne o id r) ?_ ?_
      · rintro _ m₀ m ⟨-, live, hlive, h⟩
        exact .stepped live hlive h
      · rintro e m₀ m ⟨he, -⟩
        cases he

end Sections

end OneSig.Executor
