/-
# What one step does to its job

When no other task touches a job while it is stepped, `step` is a sequential program of the job,
its file and the executor's transactions, whatever the services answer.  This module walks through
it once, and the results about single jobs are read off what it says.

`Owned` is the kind of specification the walk needs: others leave the job, the files and the
transactions alone, and what a step writes is allowed.  `View` is the part of the state that this
is about, and the rules of section 2 (`Owned.wp_read`, `Owned.wp_update`, `Owned.wp_writeJob`) are
the weakest preconditions in terms of it.  The specification is a parameter, so the same walk
serves processes in which ticks overlap and sessions of one job alone.

* `JobMove` is a write that a step may make to its job: what the job is for stays, and its state
  advances by `Advances`.
* `Ends` says how the switch can end, one lemma for each of its cases; `Owned.wp_switch` collects
  them.
* `Owned.wp_tryBlock` says how the `try` block can end, with the misses of a job that moved on
  forgotten, and `Saved` how the save can.
* `Stepped` is the whole step (`Owned.wp_step`): a fee is paid only for a prepared request, and
  then the job knows, or something went wrong after the payment (`Lossy`); a race can only be lost
  at the mint.

The results about retries, about fees and about overlapping ticks need different parts of
`Stepped`, and none of them opens `step` again.
-/
import OneSig.Executor.Service
import Mathlib.Logic.Relation

namespace OneSig.Executor

open OneSig Async ExecutorPipeline

/-! ## 1. Moves of a job -/

/-- What a job is for; no step changes it. -/
def Job.core (job : Job) : Str × Hex × Str × Int × Json × Int :=
  (job.id, job.xrplTxId, job.userOpData, job.totalCallValue, job.personalAccount, job.nonce)

/-- One transition of the state machine. -/
inductive Next : JobState → JobState → Prop
  | prepared : Next .observed .request_prepared
  | submitted : Next .request_prepared .request_submitted
  | finalized : Next .request_submitted .round_finalized
  | fetched : Next .round_finalized .proof_fetched
  | resumed : Next .delayed .proof_fetched
  | delayed : Next .proof_fetched .delayed
  | executed : Next .proof_fetched .executed

/-- The states in which a step does nothing. -/
def JobState.terminal : JobState → Bool
  | .executed => true
  | .failed => true
  | _ => false

/-- How a write inside a step may change a job's state. -/
inductive Advances : JobState → JobState → Prop
  | refl (st : JobState) : Advances st st
  | next {st st' : JobState} : Next st st' → Advances st st'
  | fail {st : JobState} : st.terminal = false → Advances st .failed

/-- A write a step may make to its job. -/
structure JobMove (job job' : Job) : Prop where
  core : job'.core = job.core
  state : Advances job.state job'.state

theorem JobMove.of_state {job job' : Job} (hcore : job'.core = job.core)
    (hstate : job'.state = job.state) : JobMove job job' :=
  ⟨hcore, hstate ▸ .refl _⟩

theorem Next.not_terminal {st st' : JobState} (h : Next st st') : st.terminal = false := by
  cases h <;> rfl

/-! ## 2. A job nobody else touches -/

/-- What only the ticks and their steps change. -/
structure View where
  heap : List Job
  chain : List Broadcast
  jobs : Str → Option (Text Job)
  lastLedger : Int
  seen : List Str
  live : JsMap Str Ref

def view (s : St) : View where
  heap := s.mem.heap
  chain := s.world.chain
  jobs := s.world.jobs
  lastLedger := s.mem.lastLedger
  seen := s.mem.seen
  live := s.mem.live

/-- The view with another job at a reference. -/
def View.setJob (v : View) (r : Ref) (job : Job) : View := { v with heap := v.heap.set r job }

/-- The view with other transactions. -/
def View.setChain (v : View) (chain : List Broadcast) : View := { v with chain := chain }

/-- The view after the request of a job has been paid for. -/
def View.pay (v : View) (id : Str) (request : Option Hex) (value : Nat) : View :=
  { v with chain := v.chain ++ [.requestAttestation id request value] }

/-- A specification under which a step has its job to itself. -/
structure Owned (sp : Spec sig world) (r : Ref) : Prop where
  rely_refl : ∀ s, sp.rely s s
  rely_view : ∀ s s', sp.rely s s' → view s' = view s
  readOnly : ∀ s, sp.inv s → sp.guar s s
  cache : ∀ s name address, sp.inv s →
    sp.inv ⟨FdcClient.cacheAddress name address s.mem, s.world⟩ ∧
      sp.guar s ⟨FdcClient.cacheAddress name address s.mem, s.world⟩
  update : ∀ s job f, sp.inv s → s.mem.heap[r]? = some job → JobMove job (f job) →
    sp.inv ⟨s.mem.updateJob r f, s.world⟩ ∧ sp.guar s ⟨s.mem.updateJob r f, s.world⟩
  write : ∀ s job e, sp.inv s → s.mem.heap[r]? = some job →
    sp.inv ⟨s.mem, effect e s.world (.writeJob job.id job)⟩ ∧
      sp.guar s ⟨s.mem, effect e s.world (.writeJob job.id job)⟩
  mint : ∀ s job proof manager e, sp.inv s → s.mem.heap[r]? = some job →
    sp.inv ⟨s.mem, effect e s.world (.executeDirectMintingWithData job.xrplTxId manager proof
      job.userOpData job.totalCallValue)⟩ ∧
    sp.guar s ⟨s.mem, effect e s.world (.executeDirectMintingWithData job.xrplTxId manager proof
      job.userOpData job.totalCallValue)⟩

/-- The request of a job may be paid for in a view. -/
def MayPay (sp : Spec sig world) (v : View) (id : Str) (request : Option Hex) : Prop :=
  ∀ hub value e s, sp.inv s → view s = v →
    sp.inv ⟨s.mem, effect e s.world (.requestAttestation id hub request value)⟩ ∧
      sp.guar s ⟨s.mem, effect e s.world (.requestAttestation id hub request value)⟩

/-- The answers that stop `submitRequest`: a rejection, and an epoch without length. -/
def fails : Op → Choice → Bool
  | _, .fail _ _ => true
  | .votingEpochDurationSeconds _, .nat 0 => true
  | _, _ => false

/-- Such an answer is admitted in a view. -/
def Missed (sp : Spec sig world) (v : View) : Prop :=
  ∃ op c s, sp.adm op c s ∧ view s = v ∧ fails op c = true

/-- The fee of the request can be spent without the job knowing: the broadcast is reported as
failed, or a later call fails. -/
def Lossy (sp : Spec sig world) (v : View) (id : Str) (request : Option Hex) : Prop :=
  (∃ hub value e s, view s = v ∧
    sp.adm (.requestAttestation id hub request value) (.fail e .full) s) ∨
  ∃ value, Missed sp (v.pay id request value)

section Rules

variable {sp : Spec sig world} {r : Ref} {s : St}

theorem disturb_none {op : Op} (hop : op.readOnly = true) (w : Outside) :
    world.disturb op w = none := by
  cases h : world.disturb op w with
  | none => rfl
  | some w' => exact absurd h (disturb_readOnly hop)

/-- While a step waits, its view stays. -/
theorem Owned.waits_view (hx : Owned sp r) {op : Op} (hop : ∀ w, world.disturb op w = none)
    {s s' : St} (h : Waits sp op s s') : view s' = view s := by
  induction h with
  | refl => rfl
  | rely _ hr _ ih => rw [hx.rely_view _ _ hr, ih]
  | disturb _ hd _ => rw [hop] at hd; cases hd

/-- The rule for a call that changes nothing outside. -/
theorem Owned.wp_read (hx : Owned sp r) {op : Op} (hop : op.readOnly = true)
    {Q : Except JsError (Res op) → St → Prop}
    (hQ : ∀ res s' c s₁ w, sp.adm op c s₁ → view s₁ = view s →
      perform op c s₁.world = some (res, w) → sp.inv s' → view s' = view s → Q res s') :
    wp sp (Prog.call (S := sig) op) Q s := by
  refine wp_call ?_ ?_
  · intro s₁ w _ _ hw
    exact absurd hw (disturb_readOnly hop)
  · intro s₁ c res w hwait hi₁ hadm hper
    have hv₁ := hx.waits_view (disturb_none hop) hwait
    have hw : w = s₁.world := perform_readOnly hop hper
    subst hw
    refine ⟨hi₁, hx.readOnly s₁ hi₁, fun s₂ hr₂ hi₂ => ?_⟩
    exact hQ res s₂ c s₁ _ hadm hv₁ hper hi₂ ((hx.rely_view _ _ hr₂).trans hv₁)

/-- A program that reads: the view stays, and an error is an answer that stops it. -/
def ReadPost {α : Type} (sp : Spec sig world) (v : View) (res : Except JsError α) (s' : St) :
    Prop :=
  sp.inv s' ∧ view s' = v ∧ ∀ e, res = .error e → Missed sp v

theorem Owned.wp_remote (hx : Owned sp r) {op : Op} (hop : op.readOnly = true)
    (hf : op.readsFile = false) :
    wp sp (Prog.call (S := sig) op) (ReadPost sp (view s)) s := by
  refine hx.wp_read hop ?_
  rintro res s' c s₁ w hadm hv₁ hper hi hv
  refine ⟨hi, hv, ?_⟩
  rintro e rfl
  obtain ⟨part, rfl⟩ := perform_error hf hper
  exact ⟨op, _, s₁, hadm, hv₁, by simp [fails]⟩

/-- Sequencing after a program that reads. -/
theorem wp_read_seq {α β : Type} {p : Prog α} {f : α → Prog β} {v : View}
    {Q : Except JsError β → St → Prop} (hp : wp sp p (ReadPost sp v) s)
    (hok : ∀ a s', sp.inv s' → view s' = v → wp sp (f a) Q s')
    (herr : ∀ e s', sp.inv s' → view s' = v → Missed sp v → Q (.error e) s') :
    wp sp (p >>= f) Q s :=
  wp_seq hp (fun a s' h => hok a s' h.1 h.2.1)
    (fun e s' h => herr e s' h.1 h.2.1 (h.2.2 e rfl))

theorem Owned.wp_resolve (hx : Owned sp r) (name : Str) (hi : sp.inv s) :
    wp sp (FdcClient.resolve name) (ReadPost sp (view s)) s := by
  unfold FdcClient.resolve
  refine wp_bind (wp_gets ?_)
  simp only [bindPost]
  split
  · exact wp_pure ⟨hi, rfl, by simp⟩
  · refine wp_read_seq (v := view s) ?_ ?_ ?_
    · exact hx.wp_remote rfl rfl
    · intro address s₁ hi₁ hv₁
      obtain ⟨hi₂, hg₂⟩ := hx.cache s₁ name address hi₁
      have hpost : ReadPost sp (view s) (.ok address)
          ⟨FdcClient.cacheAddress name address s₁.mem, s₁.world⟩ := ⟨hi₂, hv₁, by simp⟩
      exact wp_bind (wp_modify hi₂ hg₂ hpost)
    · intro e s₁ hi₁ hv₁ hmiss
      exact ⟨hi₁, hv₁, fun _ _ => hmiss⟩

/-- What `submitRequest` leaves behind. -/
def SubmitPost (sp : Spec sig world) (v : View) (id : Str) (request : Option Hex)
    (res : Except JsError Int) (s' : St) : Prop :=
  sp.inv s' ∧ match res with
    | .ok _ => ∃ value, view s' = v.pay id request value
    | .error _ => view s' = v ∨
        (∃ value, view s' = v.pay id request value) ∧ Lossy sp v id request

/-- The calls before the fee is paid. -/
theorem SubmitPost.unpaid {v : View} {id : Str} {request : Option Hex} {e : JsError}
    (hi : sp.inv s) (hv : view s = v) : SubmitPost sp v id request (.error e) s :=
  ⟨hi, Or.inl hv⟩

/-- The calls after the fee is paid. -/
theorem SubmitPost.missed {v : View} {id : Str} {request : Option Hex} {value : Nat} {e : JsError}
    (hi : sp.inv s) (hv : view s = v.pay id request value) (hm : Missed sp (v.pay id request value)) :
    SubmitPost sp v id request (.error e) s :=
  ⟨hi, Or.inr ⟨⟨value, hv⟩, Or.inr ⟨value, hm⟩⟩⟩

/-- The broadcast itself. -/
theorem Owned.wp_requestAttestation (hx : Owned sp r) (id : Str) (hub : Address)
    (request : Option Hex) (value : Nat) (hpay : MayPay sp (view s) id request) :
    wp sp (Prog.call (S := sig) (.requestAttestation id hub request value))
      (fun res s' => sp.inv s' ∧ match res with
        | .ok _ => view s' = (view s).pay id request value
        | .error _ => view s' = view s ∨
            view s' = (view s).pay id request value ∧ Lossy sp (view s) id request) s := by
  refine wp_call ?_ ?_
  · intro s₁ w _ _ hw
    cases hw
  · intro s₁ c res w hwait hi₁ hadm hper
    have hv₁ : view s₁ = view s := hx.waits_view (fun _ => rfl) hwait
    obtain ⟨e, rfl⟩ := perform_world hper
    obtain ⟨hi₂, hg₂⟩ := hpay hub value e s₁ hi₁ hv₁
    refine ⟨hi₂, hg₂, fun s₂ hr₂ hi₃ => ⟨hi₃, ?_⟩⟩
    have hv₂ := hx.rely_view _ _ hr₂
    have hpaid : view ⟨s₁.mem, effect .full s₁.world (.requestAttestation id hub request value)⟩ =
        (view s).pay id request value := by
      rw [← hv₁]
      rfl
    cases res with
    | ok hash =>
      rw [(perform_ok hper).2] at hv₂
      exact hv₂.trans hpaid
    | error err =>
      obtain ⟨part, rfl⟩ := perform_error rfl hper
      have hw : effect e s₁.world (.requestAttestation id hub request value) =
          effect part s₁.world (.requestAttestation id hub request value) := by
        simp only [perform, Option.some.injEq, Prod.mk.injEq] at hper
        exact hper.2.symm
      rw [hw] at hv₂
      cases part with
      | nothing => exact Or.inl (hv₂.trans hv₁)
      | torn => exact Or.inl (hv₂.trans hv₁)
      | full => exact Or.inr ⟨hv₂.trans hpaid, Or.inl ⟨hub, value, err, s₁, hv₁, hadm⟩⟩

/-- Reading the epoch length and computing the round: only a length of 0 stops it. -/
theorem Owned.wp_round (hx : Owned sp r) (fsm : Address) (timestamp first : Nat) :
    wp sp (do
      let epochDuration ← Prog.call (S := sig) (.votingEpochDurationSeconds fsm)
      Prog.lift (S := sig) (FdcClient.roundOf timestamp first epochDuration))
      (ReadPost sp (view s)) s := by
  refine wp_bind (hx.wp_read rfl ?_)
  intro res s' c s₁ w hadm hv₁ hper hi hv
  cases res with
  | error e =>
    obtain ⟨part, rfl⟩ := perform_error rfl hper
    exact ⟨hi, hv, fun _ _ => ⟨_, _, s₁, hadm, hv₁, by simp [fails]⟩⟩
  | ok epochDuration =>
    simp only [bindPost]
    refine wp_lift ⟨hi, hv, fun e he => ⟨_, c, s₁, hadm, hv₁, ?_⟩⟩
    have hr := (perform_ok hper).1
    cases c <;> cases hr
    unfold FdcClient.roundOf at he
    split at he
    case isTrue h0 =>
      subst h0
      rfl
    case isFalse => cases he

theorem Owned.wp_submitRequest (hx : Owned sp r) (id : Str) (request : Option Hex)
    (hi : sp.inv s) (hpay : MayPay sp (view s) id request) :
    wp sp (FdcClient.submitRequest id request) (SubmitPost sp (view s) id request) s := by
  unfold FdcClient.submitRequest
  refine wp_read_seq (hx.wp_resolve _ hi) ?_ fun _ _ hi hv _ => .unpaid hi hv
  intro fdcHub s₁ hi₁ hv₁
  refine wp_read_seq (v := view s) ?_ ?_ fun _ _ hi hv _ => .unpaid hi hv
  · exact hv₁ ▸ hx.wp_remote rfl rfl
  intro feeConfig s₂ hi₂ hv₂
  refine wp_read_seq (v := view s) ?_ ?_ fun _ _ hi hv _ => .unpaid hi hv
  · exact hv₂ ▸ hx.wp_remote rfl rfl
  intro fee s₃ hi₃ hv₃
  refine wp_seq (hx.wp_requestAttestation id fdcHub request fee (hv₃.symm ▸ hpay)) ?_ ?_
  case refine_2 =>
    rintro e s₄ ⟨hi₄, hsame | ⟨hpaid, hlossy⟩⟩
    · exact .unpaid hi₄ (hsame.trans hv₃)
    · exact ⟨hi₄, Or.inr ⟨⟨fee, hv₃ ▸ hpaid⟩, hv₃ ▸ hlossy⟩⟩
  rintro txHash s₄ ⟨hi₄, hv₄⟩
  rw [hv₃] at hv₄
  -- the fee is spent: from here every failure is one the job does not know of
  refine wp_read_seq (v := (view s).pay id request fee) ?_ ?_ fun _ _ hi hv hm => .missed hi hv hm
  · exact hv₄ ▸ hx.wp_remote rfl rfl
  intro receipt s₅ hi₅ hv₅
  refine wp_read_seq (v := (view s).pay id request fee) ?_ ?_ fun _ _ hi hv hm => .missed hi hv hm
  · exact hv₅ ▸ hx.wp_remote rfl rfl
  intro timestamp s₆ hi₆ hv₆
  refine wp_read_seq (v := (view s).pay id request fee) ?_ ?_ fun _ _ hi hv hm => .missed hi hv hm
  · exact hv₆ ▸ hx.wp_resolve _ hi₆
  intro fsm s₇ hi₇ hv₇
  refine wp_read_seq (v := (view s).pay id request fee) ?_ ?_ fun _ _ hi hv hm => .missed hi hv hm
  · exact hv₇ ▸ hx.wp_remote rfl rfl
  intro first s₈ hi₈ hv₈
  refine wp_mono (hx.wp_round fsm timestamp first) ?_
  rintro res s₉ ⟨hi₉, hv₉, hm₉⟩
  rw [hv₈] at hv₉ hm₉
  cases res with
  | ok round => exact ⟨hi₉, fee, hv₉⟩
  | error e => exact .missed hi₉ hv₉ (hm₉ e rfl)

/-! ## 4. The cases of the switch -/

/-- A program that leaves the view as it is. -/
def StaysPost {α : Type} (sp : Spec sig world) (v : View) (_ : Except JsError α) (s' : St) : Prop :=
  sp.inv s' ∧ view s' = v

theorem wp_stay_seq {α β : Type} {p : Prog α} {f : α → Prog β} {v : View}
    {Q : Except JsError β → St → Prop} (hp : wp sp p (StaysPost sp v) s)
    (hok : ∀ a s', sp.inv s' → view s' = v → wp sp (f a) Q s')
    (herr : ∀ e s', sp.inv s' → view s' = v → Q (.error e) s') : wp sp (p >>= f) Q s :=
  wp_seq hp (fun a s' h => hok a s' h.1 h.2) (fun e s' h => herr e s' h.1 h.2)

theorem ReadPost.stays {α : Type} {v : View} {res : Except JsError α} (h : ReadPost sp v res s) :
    StaysPost sp v res s := ⟨h.1, h.2.1⟩

theorem Owned.wp_prepareRequest (hx : Owned sp r) (xrplTxId : Hex) (proofOwner : Address) :
    wp sp (FdcClient.prepareRequest xrplTxId proofOwner) (StaysPost sp (view s)) s := by
  unfold FdcClient.prepareRequest
  refine wp_stay_seq (v := view s) ?_ ?_ fun _ _ hi hv => ⟨hi, hv⟩
  · exact wp_mono (hx.wp_remote rfl rfl) fun _ _ => ReadPost.stays
  · intro res s₁ hi₁ hv₁
    exact wp_lift ⟨hi₁, hv₁⟩

theorem Owned.wp_isRoundFinalized (hx : Owned sp r) (roundId : Option Int) (hi : sp.inv s) :
    wp sp (FdcClient.isRoundFinalized roundId) (StaysPost sp (view s)) s := by
  unfold FdcClient.isRoundFinalized
  refine wp_read_seq (hx.wp_resolve _ hi) ?_ fun _ _ hi hv _ => ⟨hi, hv⟩
  intro relay s₁ hi₁ hv₁
  refine wp_read_seq (v := view s) ?_ ?_ fun _ _ hi hv _ => ⟨hi, hv⟩
  · exact hv₁ ▸ hx.wp_resolve _ hi₁
  intro fdcVerification s₂ hi₂ hv₂
  refine wp_read_seq (v := view s) ?_ ?_ fun _ _ hi hv _ => ⟨hi, hv⟩
  · exact hv₂ ▸ hx.wp_remote rfl rfl
  intro protocolId s₃ hi₃ hv₃
  refine wp_stay_seq (v := view s) (wp_lift ⟨hi₃, hv₃⟩) ?_ fun _ _ hi hv => ⟨hi, hv⟩
  intro round s₄ hi₄ hv₄
  exact hv₄ ▸ wp_mono (hx.wp_remote rfl rfl) fun _ _ => ReadPost.stays

theorem Owned.wp_fetchProof (hx : Owned sp r) (o : Options) (request : Option Hex)
    (roundId : Option Int) :
    wp sp (FdcClient.fetchProof o request roundId) (StaysPost sp (view s)) s := by
  unfold FdcClient.fetchProof
  refine wp_stay_seq (v := view s) ?_ ?_ fun _ _ hi hv => ⟨hi, hv⟩
  · exact wp_mono (hx.wp_remote rfl rfl) fun _ _ => ReadPost.stays
  · intro res s₁ hi₁ hv₁
    exact wp_lift ⟨hi₁, hv₁⟩

/-- Is this the fee-paying transaction of a job? -/
def isRequest (id : Str) : Broadcast → Bool
  | .requestAttestation job _ _ => job == id
  | .executeDirectMintingWithData _ _ _ _ => false

/-- How often the fee of a job has been paid. -/
def fees (id : Str) (chain : List Broadcast) : Nat := chain.countP (isRequest id)

/-- From one chain to the other, a job has paid so many fees and nobody else any. -/
def Spent (id : Str) (n : Nat) (ch ch' : List Broadcast) : Prop :=
  ∀ id', fees id' ch' = fees id' ch + if id' = id then n else 0

theorem Spent.refl (id : Str) (ch : List Broadcast) : Spent id 0 ch ch := by
  intro id'
  simp

theorem spent_request (id : Str) (request : Option Hex) (value : Nat) (ch : List Broadcast) :
    Spent id 1 ch (ch ++ [.requestAttestation id request value]) := by
  intro id'
  by_cases h : id' = id
  · simp [fees, isRequest, h]
  · simp [fees, isRequest, h, Ne.symm h]

theorem spent_mint (id : Str) (xrplTxId : Hex) (proof : XrpPaymentProof) (userOpData : Str)
    (value : Int) (ch : List Broadcast) :
    Spent id 0 ch (ch ++ [.executeDirectMintingWithData xrplTxId proof userOpData value]) := by
  intro id'
  simp [fees, isRequest]

/-- The states in which a step may return without doing anything. -/
def JobState.idle : JobState → Bool
  | .request_submitted => true
  | .delayed => true
  | .executed => true
  | .failed => true
  | _ => false

/-- How the `try` block, or the switch in it, can end; `P` is what the switch does to a job
that moved on. -/
inductive Ends (sp : Spec sig world) (v : View) (r : Ref) (job : Job) (P : Job → Prop) :
    Except JsError Flow → View → Prop
  | returned : job.state.idle = true → Ends sp v r job P (.ok .returned) v
  | advanced (job' : Job) (ch' : List Broadcast) : job'.core = job.core →
      Next job.state job'.state → P job' →
      Spent job.id (if job.state = .request_prepared then 1 else 0) v.chain ch' →
      Ends sp v r job P (.ok .save) ((v.setChain ch').setJob r job')
  | threw (e : JsError) (job' : Job) (ch' : List Broadcast) (n : Nat) : job'.core = job.core →
      job'.attempts = job.attempts → job.state.terminal = false →
      (job'.state = job.state ∨ job.state = .proof_fetched ∧ job'.state = .delayed) →
      Spent job.id n v.chain ch' →
      (n ≠ 0 → n = 1 ∧ job.state = .request_prepared ∧
        Lossy sp v job.id job.abiEncodedRequest) →
      Ends sp v r job P (.error e) ((v.setChain ch').setJob r job')

/-- `Ends` as a postcondition. -/
def EndsPost (sp : Spec sig world) (v : View) (r : Ref) (job : Job) (P : Job → Prop)
    (res : Except JsError Flow) (s' : St) : Prop :=
  sp.inv s' ∧ Ends sp v r job P res (view s')

section Cases

variable {v : View} {job : Job} {P : Job → Prop}

theorem View.setJob_get (hj : v.heap[r]? = some job) (job' : Job) :
    (v.setJob r job').heap[r]? = some job' := by
  have hlt : r < v.heap.length := (List.getElem?_eq_some_iff.mp hj).1
  simp only [View.setJob, List.getElem?_set_self hlt]

theorem View.setJob_setJob (v : View) (r : Ref) (job job' : Job) :
    (v.setJob r job).setJob r job' = v.setJob r job' := by
  simp only [View.setJob, List.set_set]

theorem View.setJob_same (hj : v.heap[r]? = some job) : v.setJob r job = v := by
  obtain ⟨hlt, hget⟩ := List.getElem?_eq_some_iff.mp hj
  simp only [View.setJob, ← hget, List.set_getElem_self]

/-- The rule for a write to the job. -/
theorem Owned.wp_update (hx : Owned sp r) {f : Job → Job} {Q : Except JsError Unit → St → Prop}
    (hi : sp.inv s) (hv : view s = v) (hj : v.heap[r]? = some job) (hmove : JobMove job (f job))
    (hQ : ∀ s', sp.inv s' → view s' = v.setJob r (f job) → Q (.ok ()) s') :
    wp sp (Prog.modify (Memory.updateJob r f)) Q s := by
  subst hv
  obtain ⟨hi', hg'⟩ := hx.update s job f hi hj hmove
  refine wp_modify hi' hg' (hQ _ hi' ?_)
  have hget : s.mem.heap[r]? = some job := hj
  simp only [view, View.setJob, Memory.updateJob, List.modify_eq_set_getElem?, hget]
  rfl

theorem wp_deref {Q : Except JsError Job → St → Prop} (hv : view s = v)
    (hj : v.heap[r]? = some job) (hQ : Q (.ok job) s) : wp sp (deref r) Q s := by
  subst hv
  have hget : s.mem.heap[r]? = some job := hj
  unfold deref
  refine wp_bind (wp_gets ?_)
  unfold bindPost
  simp only [hget]
  exact wp_pure hQ

/-- A case that throws before it has changed anything. -/
theorem EndsPost.unchanged {e : JsError} (hj : v.heap[r]? = some job)
    (hn : job.state.terminal = false) (hi : sp.inv s) (hv : view s = v) :
    EndsPost sp v r job P (.error e) s := by
  have hsame : (v.setChain v.chain).setJob r job = v := View.setJob_same hj
  have hend : Ends sp v r job P (.error e) ((v.setChain v.chain).setJob r job) :=
    .threw e job v.chain 0 rfl rfl hn (Or.inl rfl) (.refl _ _) (by simp)
  rw [hsame] at hend
  exact ⟨hi, hv ▸ hend⟩

/-- A case that moves the job on. -/
theorem EndsPost.advanced {job' : Job} {ch : List Broadcast} (hi : sp.inv s)
    (hv : view s = (v.setChain ch).setJob r job') (hcore : job'.core = job.core)
    (hnext : Next job.state job'.state) (hP : P job')
    (hspent : Spent job.id (if job.state = .request_prepared then 1 else 0) v.chain ch) :
    EndsPost sp v r job P (.ok .save) s :=
  ⟨hi, hv ▸ .advanced job' ch hcore hnext hP hspent⟩

/-- The same where no fee is paid. -/
theorem EndsPost.moved {job' : Job} (hi : sp.inv s) (hv : view s = v.setJob r job')
    (hcore : job'.core = job.core) (hnext : Next job.state job'.state) (hP : P job')
    (hst : job.state ≠ .request_prepared) : EndsPost sp v r job P (.ok .save) s :=
  .advanced hi hv hcore hnext hP (by rw [if_neg hst]; exact .refl _ _)

variable (hx : Owned sp r) (o : Options) (hi : sp.inv s) (hv : view s = v)
  (hj : v.heap[r]? = some job)

include hx hv hj

theorem Owned.wp_caseObserved (hst : job.state = .observed) :
    wp sp (caseObserved o r job) (EndsPost sp v r job fun _ => True) s := by
  have hn : job.state.terminal = false := by rw [hst]; rfl
  have hnext : Next job.state .request_prepared := hst ▸ .prepared
  unfold caseObserved
  refine wp_stay_seq (v := v) ?_ ?_ fun _ _ hi hv => .unchanged hj hn hi hv
  · exact hv ▸ hx.wp_prepareRequest _ _
  intro request s₁ hi₁ hv₁
  refine wp_bind (hx.wp_update hi₁ hv₁ hj ⟨rfl, .next hnext⟩ ?_)
  intro s₂ hi₂ hv₂
  exact EndsPost.moved hi₂ hv₂ rfl hnext trivial (by simp [hst])

theorem Owned.wp_caseRoundFinalized (hst : job.state = .round_finalized) :
    wp sp (caseRoundFinalized o r job) (EndsPost sp v r job fun _ => True) s := by
  have hn : job.state.terminal = false := by rw [hst]; rfl
  have hnext : Next job.state .proof_fetched := hst ▸ .fetched
  unfold caseRoundFinalized
  refine wp_stay_seq (v := v) ?_ ?_ fun _ _ hi hv => .unchanged hj hn hi hv
  · exact hv ▸ hx.wp_fetchProof o _ _
  intro proof s₁ hi₁ hv₁
  refine wp_bind (hx.wp_update hi₁ hv₁ hj ⟨rfl, .next hnext⟩ ?_)
  intro s₂ hi₂ hv₂
  exact EndsPost.moved hi₂ hv₂ rfl hnext trivial (by simp [hst])

/-- The mint, whether or not it is reported as failed. -/
theorem Owned.wp_mint (manager : Address) (proof : XrpPaymentProof) :
    wp sp (Prog.call (S := sig) (.executeDirectMintingWithData job.xrplTxId manager proof
      job.userOpData job.totalCallValue))
      (fun _ s' => sp.inv s' ∧
        ∃ ch, Spent job.id 0 v.chain ch ∧ view s' = v.setChain ch) s := by
  subst hv
  refine wp_call ?_ ?_
  · intro s₁ w _ _ hw
    cases hw
  · intro s₁ c res w hwait hi₁ hadm hper
    have hv₁ : view s₁ = view s := hx.waits_view (fun _ => rfl) hwait
    have hj₁ : (view s₁).heap[r]? = some job := hv₁ ▸ hj
    obtain ⟨e, rfl⟩ := perform_world hper
    obtain ⟨hi₂, hg₂⟩ := hx.mint s₁ job proof manager e hi₁ hj₁
    refine ⟨hi₂, hg₂, fun s₂ hr₂ hi₃ => ⟨hi₃, ?_⟩⟩
    rw [hx.rely_view _ _ hr₂, ← hv₁]
    by_cases hfull : e = .full
    · subst hfull
      exact ⟨_, spent_mint _ job.xrplTxId proof job.userOpData job.totalCallValue _, rfl⟩
    · refine ⟨_, .refl _ s₁.world.chain, ?_⟩
      rw [effect_broadcast rfl, if_neg hfull]
      rfl

theorem Owned.wp_caseProofFetched (hst : job.state = .proof_fetched) :
    wp sp (caseProofFetched o r job) (EndsPost sp v r job fun _ => True) s := by
  have hn : job.state.terminal = false := by rw [hst]; rfl
  have hne : job.state ≠ .request_prepared := by simp [hst]
  unfold caseProofFetched
  refine wp_stay_seq (v := v) ?_ ?_ fun _ _ hi hv => .unchanged hj hn hi hv
  · exact hv ▸ hx.wp_fetchProof o _ _
  intro proof s₁ hi₁ hv₁
  refine wp_bind (wp_deref hv₁ hj ?_)
  -- from the mint on only the job's own fields and the chain can have changed
  have hthrew : ∀ (e : JsError) s' job' ch, sp.inv s' →
      view s' = (v.setChain ch).setJob r job' → Spent job.id 0 v.chain ch →
      job'.core = job.core → job'.attempts = job.attempts →
      (job'.state = job.state ∨ job.state = .proof_fetched ∧ job'.state = .delayed) →
      EndsPost sp v r job (fun _ => True) (.error e) s' := fun e s' job' ch hi' hv' hsp hc ha hs =>
    ⟨hi', hv' ▸ .threw e job' ch 0 hc ha hn hs hsp (by simp)⟩
  refine wp_seq (hx.wp_mint hv₁ hj o.assetManager proof) ?_ ?_
  case refine_2 =>
    rintro e s₂ ⟨hi₂, ch, hspent, hv₂⟩
    refine hthrew e s₂ job ch hi₂ ?_ hspent rfl rfl (Or.inl rfl)
    rw [hv₂]
    exact (View.setJob_same (v := v.setChain ch) hj).symm
  rintro hash s₂ ⟨hi₂, ch, hspent, hv₂⟩
  refine wp_bind (hx.wp_update hi₂ hv₂ hj (.of_state rfl rfl) ?_)
  intro s₃ hi₃ hv₃
  have hj₃ := View.setJob_get (v := v.setChain ch) hj { job with flareTxHash := some hash }
  refine wp_stay_seq (v := (v.setChain ch).setJob r
    { job with flareTxHash := some hash }) ?_ ?_ ?_
  · exact hv₃ ▸ wp_mono (hx.wp_remote rfl rfl) fun _ _ => ReadPost.stays
  case refine_3 =>
    intro e s₄ hi₄ hv₄
    exact hthrew e s₄ _ ch hi₄ hv₄ hspent rfl rfl (Or.inl rfl)
  intro receipt s₄ hi₄ hv₄
  split
  · exact wp_lift (hthrew _ s₄ _ ch hi₄ hv₄ hspent rfl rfl (Or.inl rfl))
  · split
    case h_1 delay _ =>
      have hnext : Next job.state .delayed := hst ▸ .delayed
      refine wp_bind (hx.wp_update hi₄ hv₄ hj₃ ⟨rfl, .next hnext⟩ ?_)
      intro s₅ hi₅ hv₅
      rw [View.setJob_setJob] at hv₅
      refine wp_bind (wp_lift ?_)
      cases toISOString (delay * 1000) with
      | ok _ =>
        exact EndsPost.advanced hi₅ hv₅ rfl hnext trivial (by rw [if_neg hne]; exact hspent)
      | error e => exact hthrew e s₅ _ ch hi₅ hv₅ hspent rfl rfl (Or.inr ⟨hst, rfl⟩)
    case h_2 =>
      have hnext : Next job.state .executed := hst ▸ .executed
      refine wp_bind (hx.wp_update hi₄ hv₄ hj₃ ⟨rfl, .next hnext⟩ ?_)
      intro s₅ hi₅ hv₅
      rw [View.setJob_setJob] at hv₅
      exact EndsPost.advanced hi₅ hv₅ rfl hnext trivial (by rw [if_neg hne]; exact hspent)

include hi

theorem Owned.wp_caseRequestPrepared (hst : job.state = .request_prepared)
    (hpay : MayPay sp v job.id job.abiEncodedRequest) :
    wp sp (caseRequestPrepared r job) (EndsPost sp v r job fun _ => True) s := by
  have hn : job.state.terminal = false := by rw [hst]; rfl
  have hnext : Next job.state .request_submitted := hst ▸ .submitted
  subst hv
  unfold caseRequestPrepared
  refine wp_seq (hx.wp_submitRequest job.id job.abiEncodedRequest hi hpay) ?_ ?_
  · rintro roundId s₁ ⟨hi₁, value, hv₁⟩
    refine wp_bind (hx.wp_update hi₁ hv₁ hj ⟨rfl, .next hnext⟩ ?_)
    intro s₂ hi₂ hv₂
    refine EndsPost.advanced hi₂ hv₂ rfl hnext trivial ?_
    rw [if_pos hst]
    exact spent_request _ _ _ _
  · rintro e s₁ ⟨hi₁, hsame | ⟨⟨value, hv₁⟩, hlossy⟩⟩
    · exact .unchanged hj hn hi₁ hsame
    · have hset : view s₁ = ((view s).setChain
          ((view s).pay job.id job.abiEncodedRequest value).chain).setJob r job :=
        hv₁.trans (View.setJob_same (v := (view s).pay _ _ _) hj).symm
      have hend : Ends sp (view s) r job (fun _ => True) (.error e) (view s₁) := by
        rw [hset]
        exact .threw e job _ 1 rfl rfl hn (Or.inl rfl)
          (spent_request job.id job.abiEncodedRequest value _) fun _ => ⟨rfl, hst, hlossy⟩
      exact ⟨hi₁, hend⟩

theorem Owned.wp_caseRequestSubmitted (hst : job.state = .request_submitted) :
    wp sp (caseRequestSubmitted r job) (EndsPost sp v r job fun _ => True) s := by
  have hn : job.state.terminal = false := by rw [hst]; rfl
  have hnext : Next job.state .round_finalized := hst ▸ .finalized
  unfold caseRequestSubmitted
  refine wp_stay_seq (v := v) ?_ ?_ fun _ _ hi hv => .unchanged hj hn hi hv
  · exact hv ▸ hx.wp_isRoundFinalized _ hi
  intro finalized s₁ hi₁ hv₁
  split
  · exact wp_pure ⟨hi₁, hv₁ ▸ .returned (by rw [hst]; rfl)⟩
  · refine wp_bind (hx.wp_update hi₁ hv₁ hj ⟨rfl, .next hnext⟩ ?_)
    intro s₂ hi₂ hv₂
    exact EndsPost.moved hi₂ hv₂ rfl hnext trivial (by simp [hst])

theorem Owned.wp_caseDelayed (hst : job.state = .delayed) :
    wp sp (caseDelayed r job) (EndsPost sp v r job fun _ => True) s := by
  have hnext : Next job.state .proof_fetched := hst ▸ .resumed
  unfold caseDelayed
  refine wp_bind (wp_gets ?_)
  simp only [bindPost]
  split
  · exact wp_pure ⟨hi, hv ▸ .returned (by rw [hst]; rfl)⟩
  · refine wp_bind (hx.wp_update hi hv hj ⟨rfl, .next hnext⟩ ?_)
    intro s₂ hi₂ hv₂
    exact EndsPost.moved hi₂ hv₂ rfl hnext trivial (by simp [hst])

/-- **The switch**, whatever the state: each of its branches ends in one of the ways that
`EndsPost` has for the job as it was. -/
theorem Owned.wp_switch
    (hpay : job.state = .request_prepared → MayPay sp v job.id job.abiEncodedRequest) :
    wp sp (switch o r job) (EndsPost sp v r job fun _ => True) s := by
  unfold switch
  cases hst : job.state with
  | observed => exact hx.wp_caseObserved o hv hj hst
  | request_prepared => exact hx.wp_caseRequestPrepared hi hv hj hst (hpay hst)
  | request_submitted => exact hx.wp_caseRequestSubmitted hi hv hj hst
  | round_finalized => exact hx.wp_caseRoundFinalized o hv hj hst
  | proof_fetched => exact hx.wp_caseProofFetched o hv hj hst
  | delayed => exact hx.wp_caseDelayed hi hv hj hst
  | executed => exact wp_pure ⟨hi, hv ▸ .returned (by rw [hst]; rfl)⟩
  | failed => exact wp_pure ⟨hi, hv ▸ .returned (by rw [hst]; rfl)⟩

/-- A job whose misses are forgotten. -/
def Cleared (job : Job) : Prop := job.attempts = 0 ∧ job.lastError = none

/-- **The `try` block** ends as the switch does, and a job that has moved on has its misses
forgotten and its last error with them. -/
theorem Owned.wp_tryBlock
    (hpay : job.state = .request_prepared → MayPay sp v job.id job.abiEncodedRequest) :
    wp sp (tryBlock o r) (EndsPost sp v r job Cleared) s := by
  unfold tryBlock
  refine wp_bind (wp_deref hv hj ?_)
  refine wp_seq (hx.wp_switch o hi hv hj hpay) ?_ ?_
  · rintro flow s₁ ⟨hi₁, hend⟩
    generalize hv₁ : view s₁ = v₁ at hend
    cases hend with
    | returned hidle => exact wp_pure ⟨hi₁, hv₁ ▸ .returned hidle⟩
    | advanced job' ch hcore hnext _ hspent =>
      have hj₁ : ((v.setChain ch).setJob r job').heap[r]? = some job' :=
        View.setJob_get hj job'
      refine wp_bind (hx.wp_update hi₁ hv₁ hj₁ (.of_state rfl rfl) ?_)
      intro s₂ hi₂ hv₂
      have hset := View.setJob_setJob (v.setChain ch) r job'
        { job' with attempts := 0, lastError := none }
      exact EndsPost.advanced hi₂ (hv₂.trans hset) hcore hnext ⟨rfl, rfl⟩ hspent
  · rintro e s₁ ⟨hi₁, hend⟩
    generalize hv₁ : view s₁ = v₁ at hend
    cases hend with
    | threw _ job' ch n hcore hatt hn hst hspent hlossy =>
      exact ⟨hi₁, hv₁ ▸ .threw e job' ch n hcore hatt hn hst hspent hlossy⟩

end Cases

/-! ## 5. The save -/

/-- The view with another text in a job's file. -/
def View.writeFile (v : View) (id : Str) (text : Option (Text Job)) : View :=
  { v with jobs := Function.update v.jobs id text }

theorem View.writeFile_writeFile (v : View) (id : Str) (text text' : Option (Text Job)) :
    (v.writeFile id text).writeFile id text' = v.writeFile id text' := by
  simp only [View.writeFile, Function.update_idem]

/-- While a file is being written only that file changes. -/
theorem Owned.waits_write (hx : Owned sp r) {id : Str} {job : Job} {s s' : St}
    (h : Waits sp (.writeJob id job) s s') (text : Option (Text Job)) :
    (view s').writeFile id text = (view s).writeFile id text := by
  induction h with
  | refl => rfl
  | rely _ hr _ ih => rw [hx.rely_view _ _ hr, ih]
  | @disturb s₁ w _ hd ih =>
    have hw : w = effect .torn s₁.world (.writeJob id job) := (Option.some.inj hd).symm
    have hv : view ⟨s₁.mem, w⟩ = (view s₁).writeFile id (some .torn) := by
      rw [hw]
      rfl
    rw [hv, View.writeFile_writeFile, ih]

/-- How a save can end: it is written, the directory cannot be made, or the write fails. -/
inductive Saved (sp : Spec sig world) (v : View) (job : Job) : Except JsError Unit → View → Prop
  | written : Saved sp v job (.ok ()) (v.writeFile job.id (some (.whole job)))
  | noDirectory (e : JsError) (part : Effect) (s : St) : sp.adm .mkdirState (.fail e part) s →
      Saved sp v job (.error e) v
  | notWritten (e : JsError) (part : Effect) (s : St) :
      sp.adm (.writeJob job.id job) (.fail e part) s →
      Saved sp v job (.error e)
        (v.writeFile job.id (written part (s.world.jobs job.id) job))

/-- `Saved` as a postcondition; the save also stamps the job. -/
def SavePost (sp : Spec sig world) (v : View) (r : Ref) (job : Job) (res : Except JsError Unit)
    (s' : St) : Prop :=
  sp.inv s' ∧ ∃ now, Saved sp (v.setJob r { job with updatedAt := now })
    { job with updatedAt := now } res (view s')

section Save

variable {v : View} {job : Job}

/-- The write of a job's file. -/
theorem Owned.wp_writeJob (hx : Owned sp r) (hv : view s = v) (hj : v.heap[r]? = some job) :
    wp sp (Prog.call (S := sig) (.writeJob job.id job))
      (fun res s' => sp.inv s' ∧ Saved sp v job res (view s')) s := by
  subst hv
  have hget : ∀ {s₁ : St}, Waits sp (.writeJob job.id job) s s₁ →
      s₁.mem.heap[r]? = some job := by
    intro s₁ hwait
    have hheap : ((view s₁).writeFile job.id none).heap = (view s).heap := by
      rw [hx.waits_write hwait]
      rfl
    exact (congrArg (·[r]?) hheap).trans hj
  refine wp_call ?_ ?_
  · intro s₁ w hwait hi₁ hw
    rw [show w = effect .torn s₁.world (.writeJob job.id job) from (Option.some.inj hw).symm]
    exact hx.write s₁ job .torn hi₁ (hget hwait)
  · intro s₁ c res w hwait hi₁ hadm hper
    obtain ⟨e, rfl⟩ := perform_world hper
    obtain ⟨hi₂, hg₂⟩ := hx.write s₁ job e hi₁ (hget hwait)
    refine ⟨hi₂, hg₂, fun s₂ hr₂ hi₃ => ⟨hi₃, ?_⟩⟩
    have hv₂ : view s₂ = (view s).writeFile job.id (written e (s₁.world.jobs job.id) job) := by
      rw [hx.rely_view _ _ hr₂, ← hx.waits_write hwait]
      rfl
    cases res with
    | ok u =>
      have hfull := congrArg Outside.jobs (perform_ok hper).2
      simp only [effect_writeJob] at hfull
      have hsame := congrFun hfull job.id
      rw [Function.update_self, Function.update_self] at hsame
      rw [hv₂, hsame]
      exact .written
    | error err =>
      obtain ⟨part, rfl⟩ := perform_error rfl hper
      have hw := congrArg Outside.jobs (Prod.mk.inj (Option.some.inj hper)).2
      simp only [effect_writeJob] at hw
      have hsame := congrFun hw job.id
      rw [Function.update_self, Function.update_self] at hsame
      rw [hv₂, ← hsame]
      exact .notWritten err part s₁ hadm

/-- **The save**: it stamps the job with the time and writes its file, or fails, with any part of
the write done. -/
theorem Owned.wp_save (hx : Owned sp r) (hi : sp.inv s) (hv : view s = v)
    (hj : v.heap[r]? = some job) : wp sp (save r) (SavePost sp v r job) s := by
  unfold save
  refine wp_bind (wp_gets ?_)
  refine wp_bind (hx.wp_update hi hv hj (.of_state rfl rfl) ?_)
  intro s₁ hi₁ hv₁
  have hj₁ := View.setJob_get hj { job with updatedAt := s.mem.now }
  refine wp_bind (wp_deref hv₁ hj₁ ?_)
  refine wp_bind (hx.wp_read rfl ?_)
  intro res s₂ c s₁' w hadm _ hper hi₂ hv₂
  rw [hv₁] at hv₂
  cases res with
  | error e =>
    obtain ⟨part, rfl⟩ := perform_error rfl hper
    exact ⟨hi₂, s.mem.now, hv₂ ▸ .noDirectory e part s₁' hadm⟩
  | ok u =>
    refine wp_bind (wp_deref hv₂ hj₁ ?_)
    refine wp_mono (hx.wp_writeJob hv₂ hj₁) ?_
    rintro res s₃ ⟨hi₃, hsaved⟩
    exact ⟨hi₃, s.mem.now, hsaved⟩

end Save

/-! ## 6. The catch, and the whole step -/

/-- The state machine run for a while. -/
def Forward : JobState → JobState → Prop := Relation.ReflTransGen Advances

/-- How the `catch` block can end: the race was lost, or the attempt is counted. -/
inductive Caught (sp : Spec sig world) (v : View) (r : Ref) (job : Job) (error : JsError) :
    Except JsError Flow → View → Prop
  | lost (job' : Job) (res : Except JsError Unit) (v' : View) :
      Saved sp (v.setJob r job') job' res v' → job'.core = job.core →
      job.state = .proof_fetched → job'.state = .executed →
      Caught sp v r job error (res.map fun _ => .returned) v'
  | counted : Caught sp v r job error (.ok .save) (v.setJob r (countAttempt error job))

/-- How a step can end.  A fee is paid only for a prepared request, and then the job knows, or
something went wrong after the payment. -/
inductive Stepped (sp : Spec sig world) (v : View) (r : Ref) (job : Job) :
    Except JsError Unit → View → Prop
  | returned : job.state.idle = true → Stepped sp v r job (.ok ()) v
  | saved (job' : Job) (ch : List Broadcast) (n : Nat) (res : Except JsError Unit) (v' : View) :
      Saved sp ((v.setChain ch).setJob r job') job' res v' →
      job'.core = job.core → Forward job.state job'.state → Spent job.id n v.chain ch →
      (n ≠ 0 → n = 1 ∧ job.state = .request_prepared ∧
        (job'.state = .request_submitted ∨ Lossy sp v job.id job.abiEncodedRequest)) →
      Stepped sp v r job res v'

/-- Where a step stands before its save. -/
inductive Tried (sp : Spec sig world) (v : View) (r : Ref) (job : Job) :
    Except JsError Flow → View → Prop
  | done (res : Except JsError Unit) (v' : View) : Stepped sp v r job res v' →
      Tried sp v r job (res.map fun _ => .returned) v'
  | toSave (job' : Job) (ch : List Broadcast) (n : Nat) : job'.core = job.core →
      Forward job.state job'.state → Spent job.id n v.chain ch →
      (n ≠ 0 → n = 1 ∧ job.state = .request_prepared ∧
        (job'.state = .request_submitted ∨ Lossy sp v job.id job.abiEncodedRequest)) →
      Tried sp v r job (.ok .save) ((v.setChain ch).setJob r job')

/-- Counting an attempt is a move. -/
theorem countAttempt_advances {job : Job} (error : JsError)
    (hn : job.state.terminal = false) :
    JobMove job (countAttempt error job) := by
  refine ⟨rfl, ?_⟩
  unfold countAttempt
  dsimp only
  split
  · exact .fail hn
  · exact .refl _

section Step

variable {v : View} {job : Job} (hx : Owned sp r) (o : Options) (hi : sp.inv s) (hv : view s = v)
  (hj : v.heap[r]? = some job)

include hx hi hv hj

/-- A race can only be lost at the mint. -/
theorem Owned.wp_lostRace (error : JsError) :
    wp sp (lostRace r error) (fun res s' => sp.inv s' ∧ view s' = v ∧
      ∃ b, res = .ok b ∧ (b = true → job.state = .proof_fetched)) s := by
  unfold lostRace
  refine wp_bind (wp_deref hv hj ?_)
  simp only [bindPost]
  split
  case isTrue h =>
    unfold isTransactionUsed
    refine wp_tryCatch (wp_mono (Q := ReadPost sp v) (hv ▸ hx.wp_remote rfl rfl) ?_)
    rintro res s₁ ⟨hi₁, hv₁, -⟩
    cases res with
    | ok b => exact ⟨hi₁, hv₁, b, rfl, fun _ => h.1⟩
    | error e =>
      simp only [catchPost]
      exact wp_pure ⟨hi₁, hv₁, false, rfl, by simp⟩
  case isFalse => exact wp_pure ⟨hi, hv, false, rfl, by simp⟩

theorem Owned.wp_catchBlock (error : JsError) (hn : job.state.terminal = false) :
    wp sp (catchBlock r error)
      (fun res s' => sp.inv s' ∧ Caught sp v r job error res (view s')) s := by
  unfold catchBlock
  refine wp_seq (hx.wp_lostRace hi hv hj error) ?_ ?_
  case refine_2 =>
    rintro e s₁ ⟨-, -, b, hb, -⟩
    cases hb
  rintro b s₁ ⟨hi₁, hv₁, b', hb, hlost⟩
  cases hb
  split
  case isTrue hb =>
    have hst := hlost hb
    have hnext : Next job.state .executed := hst ▸ .executed
    refine wp_bind (hx.wp_update hi₁ hv₁ hj ⟨rfl, .next hnext⟩ ?_)
    intro s₂ hi₂ hv₂
    refine wp_bind (wp_mono (hx.wp_save hi₂ hv₂ (View.setJob_get hj _)) ?_)
    rintro res s₃ ⟨hi₃, now, hsaved⟩
    rw [View.setJob_setJob] at hsaved
    cases res with
    | ok u =>
      simp only [bindPost]
      exact wp_pure ⟨hi₃, .lost _ _ _ hsaved rfl hst rfl⟩
    | error e => exact ⟨hi₃, .lost _ _ _ hsaved rfl hst rfl⟩
  case isFalse =>
    refine wp_bind (hx.wp_update hi₁ hv₁ hj (countAttempt_advances error hn) ?_)
    intro s₂ hi₂ hv₂
    simp only [bindPost]
    exact wp_pure ⟨hi₂, hv₂ ▸ .counted⟩

/-- **One step of a job**: whatever it is answered, and whatever other tasks do that may not touch
the job, it ends in one of the ways of `Stepped`. -/
theorem Owned.wp_step
    (hpay : job.state = .request_prepared → MayPay sp v job.id job.abiEncodedRequest) :
    wp sp (step o r) (fun res s' => sp.inv s' ∧ Stepped sp v r job res (view s')) s := by
  unfold step
  refine wp_seq (R := fun res s' => sp.inv s' ∧ Tried sp v r job res (view s')) ?_ ?_ ?_
  · refine wp_tryCatch (wp_mono (hx.wp_tryBlock o hi hv hj hpay) ?_)
    rintro res s₁ ⟨hi₁, hend⟩
    generalize hv₁ : view s₁ = v₁ at hend
    cases hend with
    | returned hidle =>
      have hdone : Tried sp v r job (.ok .returned) v := .done (.ok ()) v (.returned hidle)
      exact ⟨hi₁, hv₁ ▸ hdone⟩
    | advanced job' ch hcore hnext _ hspent =>
      refine ⟨hi₁, hv₁ ▸ .toSave job' ch _ hcore (.single (.next hnext)) hspent ?_⟩
      intro hpaid
      have hst : job.state = .request_prepared := by
        by_contra hne
        exact hpaid (if_neg hne)
      refine ⟨if_pos hst, hst, Or.inl ?_⟩
      generalize job'.state = st at hnext ⊢
      rw [hst] at hnext
      cases hnext
      rfl
    | threw e job' ch n hcore _ hn hst hspent hlossy =>
      have hj₁ : ((v.setChain ch).setJob r job').heap[r]? = some job' :=
        View.setJob_get hj job'
      have hn' : job'.state.terminal = false := by
        rcases hst with hsame | ⟨-, hdelayed⟩
        · rw [hsame]
          exact hn
        · rw [hdelayed]
          rfl
      have hforward : Forward job.state job'.state := by
        rcases hst with hsame | ⟨hfetched, hdelayed⟩
        · rw [hsame]
          exact .refl
        · rw [hfetched, hdelayed]
          exact .single (.next .delayed)
      refine wp_mono (hx.wp_catchBlock hi₁ hv₁ hj₁ e hn') ?_
      rintro res s₂ ⟨hi₂, hcaught⟩
      refine ⟨hi₂, ?_⟩
      generalize view s₂ = v₂ at hcaught
      cases hcaught with
      | lost job'' res v₂ hsaved hcore' hfetched hexec =>
        have hset := View.setJob_setJob (v.setChain ch) r job' job''
        have hnew : Forward job'.state job''.state := by
          rw [hfetched, hexec]
          exact .single (.next .executed)
        refine .done res v₂ (.saved job'' ch n res v₂ (hset ▸ hsaved) (hcore'.trans hcore)
          (hforward.trans hnew) hspent ?_)
        intro hpaid
        obtain ⟨h1, h2, h3⟩ := hlossy hpaid
        exact ⟨h1, h2, Or.inr h3⟩
      | counted =>
        have hset := View.setJob_setJob (v.setChain ch) r job' (countAttempt e job')
        have hmove := countAttempt_advances e hn'
        refine hset ▸ .toSave _ ch n (hmove.core.trans hcore) (hforward.tail hmove.state) hspent ?_
        intro hpaid
        obtain ⟨h1, h2, h3⟩ := hlossy hpaid
        exact ⟨h1, h2, Or.inr h3⟩
  · rintro flow s₁ ⟨hi₁, htried⟩
    generalize hres : (Except.ok flow : Except JsError Flow) = res at htried
    generalize hv₁ : view s₁ = v₁ at htried
    cases htried with
    | done res v₁ hstepped =>
      cases res with
      | ok u =>
        cases hres
        exact wp_pure ⟨hi₁, hv₁ ▸ hstepped⟩
      | error e => cases hres
    | toSave job' ch n hcore hforward hspent hfee =>
      cases hres
      refine wp_mono (hx.wp_save hi₁ hv₁ (View.setJob_get (v := v.setChain ch) hj _)) ?_
      rintro res s₂ ⟨hi₂, now, hsaved⟩
      rw [View.setJob_setJob] at hsaved
      exact ⟨hi₂, .saved _ ch n res _ hsaved hcore hforward hspent hfee⟩
  · rintro e s₁ ⟨hi₁, htried⟩
    generalize hres : (Except.error e : Except JsError Flow) = res at htried
    generalize hv₁ : view s₁ = v₁ at htried
    cases htried with
    | done res v₁ hstepped =>
      cases res with
      | ok u => cases hres
      | error e' =>
        cases hres
        exact ⟨hi₁, hv₁ ▸ hstepped⟩
    | toSave => cases hres

end Step

end Rules

end OneSig.Executor
