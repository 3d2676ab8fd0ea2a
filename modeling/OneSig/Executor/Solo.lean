/-
# A step on its own

The operations of the pipeline when nothing else runs in the process: no other task, one call
after the other, whatever the services answer and whatever the clock shows by then.  `StepSpec`
says what a step may do to its job under any interference; here it is said exactly, field by
field, together with what the step did outside: which transactions it sent, which proof it asked
for, which delay it was told of.  The results about sessions with one job all start from here.

Sections 2 to 4 walk through the code once, in the order of the source: the switch over the
states, the save, and the step with its `try` and `catch`.  `Switched` has one case for every way
in which a branch of the switch can end, `Ended` adds the `catch`, and `Stepped` the save with its
file.  A `deed` is an exchange that matters to the payment; the other calls of a step are listed
nowhere, and whatever they answer is covered.

`later` is what is assumed of the clock: nothing, or that it does not go back.  A call that is
answered comes back at the time of its drift, which is all that can change while a step waits.

The save is the one operation that writes a job's file.  It stamps the job with the time, so the
job in memory differs from the one before even when the write fails (`SavePost`), and a write that
fails may have left the file as it was, torn, or whole (`Files`).

* `runs_call`, `runs_seq`, `runs_unsent`: the rules for calls that leave the jobs alone.
* `runs_tryBlock`, `runs_lostRace`, `runs_catchBlock`, `runs_step`: the parts of a step, and the
  step.
-/
import OneSig.Executor.StepSpec
import OneSig.Lib.Async.Exec

namespace OneSig.Executor

open OneSig Async ExecutorPipeline

/-- While a program waits the clock comes to show another time. -/
def clockTo (now : Int) (m : Memory) : Memory := { m with now := now }

namespace Solo

/-! ## 1. Exchanges and deeds -/

/-- A call of the executor and its answer; the drift is the time of the answer. -/
abbrev Exchange := Async.Exchange sig world Int

/-- What a step does outside, as far as a payment is concerned. -/
inductive Deed
  | requestAttestation (request : Option Hex)
  | fetchProof (roundId : Option Int) (request : Option Hex)
  | mint (time : Int)
  | delayed (executionAllowedAt : Int)
  deriving DecidableEq

/-- A receipt of a transaction that went through may report a delay. -/
def reportedDelay (viem : Viem) (receipt : Receipt) : Option Int :=
  if receipt.reverted then none else findDelayedEvent viem receipt.logs

def deedOf (viem : Viem) (x : Exchange) : Option Deed :=
  match x.op, x.choice with
  | .requestAttestation _ _ request _, _ => some (.requestAttestation request)
  | .proofByRequestRound roundId request, _ => some (.fetchProof roundId request)
  | .executeDirectMintingWithData _ _ _ _ _, _ => some (.mint x.before.mem.now)
  | .waitForTransactionReceipt _, .receipt receipt => (reportedDelay viem receipt).map .delayed
  | _, _ => none

/-- The deeds among the exchanges. -/
def deeds (viem : Viem) (calls : List Exchange) : List Deed := calls.filterMap (deedOf viem)

@[simp] theorem deeds_nil (viem : Viem) : deeds viem [] = [] := rfl

@[simp] theorem deeds_append (viem : Viem) (calls calls' : List Exchange) :
    deeds viem (calls ++ calls') = deeds viem calls ++ deeds viem calls' :=
  List.filterMap_append

/-- The operations that are no deed, however they are answered. -/
def plain : Op → Bool
  | .requestAttestation _ _ _ _ | .proofByRequestRound _ _
  | .executeDirectMintingWithData _ _ _ _ _ | .waitForTransactionReceipt _ => false
  | _ => true

theorem deeds_plain (viem : Viem) {x : Exchange} (h : plain x.op = true) :
    deeds viem [x] = [] := by
  obtain ⟨op, s, c, t⟩ := x
  cases op <;> first | rfl | simp [plain] at h

/-- The operation that writes a job's file. -/
def writes : Op → Bool
  | .writeJob _ _ => true
  | _ => false

theorem perform_receipt {hash : Hex} {c : Choice} {w w' : Outside} {receipt : Receipt}
    (h : perform (.waitForTransactionReceipt hash) c w = some (.ok receipt, w')) :
    c = .receipt receipt := by
  have hr := (perform_ok h).1
  cases c <;> cases hr
  rfl

/-- The disk does what it is asked. -/
def works (x : Exchange) : Bool :=
  match x.op, x.choice with
  | .mkdirState, .fail _ _ | .writeJob _ _, .fail _ _ | .readJob _, .fail _ _ => false
  | _, _ => true

/-- What is assumed of the clock. -/
structure Clock (later : Int → Int → Prop) : Prop where
  refl : ∀ t, later t t
  trans : ∀ t t' t'', later t t' → later t' t'' → later t t''

theorem Clock.any : Clock fun _ _ => True := ⟨fun _ => trivial, fun _ _ _ _ _ => trivial⟩

theorem Clock.le : Clock (· ≤ ·) := ⟨Int.le_refl, fun _ _ _ => Int.le_trans⟩

/-- The answer comes later than the call. -/
def Timed (later : Int → Int → Prop) (x : Exchange) : Prop := later x.before.mem.now x.drift

/-- The triples of this module. -/
abbrev Runs {α : Type} (later : Int → Int → Prop) (p : Prog α)
    (Q : List Exchange → Except JsError α → St → Prop) (s : St) : Prop :=
  Alone (W := world) clockTo (Timed later) p Q s

/-- Neither the jobs nor their files have changed. -/
structure Beside (later : Int → Int → Prop) (s s' : St) : Prop where
  heap : s'.mem.heap = s.mem.heap
  jobs : s'.world.jobs = s.world.jobs
  now : later s.mem.now s'.mem.now

section Rules

variable {later : Int → Int → Prop} (hl : Clock later) (viem : Viem) {s : St}

include hl

theorem Beside.refl (s : St) : Beside later s s := ⟨rfl, rfl, hl.refl _⟩

theorem Beside.trans {s s' s'' : St} (h : Beside later s s') (h' : Beside later s' s'') :
    Beside later s s'' :=
  ⟨h'.heap.trans h.heap, h'.jobs.trans h.jobs, hl.trans _ _ _ h.now h'.now⟩

omit hl in
theorem effect_jobs {op : Op} (hop : writes op = false) (e : Effect) (w : Outside) :
    (effect e w op).jobs = w.jobs := by
  cases op with
  | writeJob id job => cases hop
  | requestAttestation _ _ _ _ =>
    rw [effect_broadcast rfl]
    split <;> rfl
  | executeDirectMintingWithData _ _ _ _ _ =>
    rw [effect_broadcast rfl]
    split <;> rfl
  | _ => rfl

omit hl in
/-- A call that does not write a job's file. -/
theorem runs_call {op : Op} (hop : writes op = false) :
    Runs later (Prog.call (S := sig) op)
      (fun calls res s' => Beside later s s' ∧ ∃ c t, calls = [⟨op, s, c, t⟩] ∧
        ∃ w, perform op c s.world = some (res, w)) s := by
  refine alone_call ?_
  intro c t res w htimed hper
  obtain ⟨e, rfl⟩ := perform_world hper
  exact ⟨⟨rfl, effect_jobs hop e s.world, htimed⟩, c, t, rfl, _, hper⟩

/-- A program that leaves the jobs alone and does nothing that counts. -/
def Aside (later : Int → Int → Prop) (viem : Viem) {α : Type} (s : St)
    (calls : List Exchange) (_ : Except JsError α) (s' : St) : Prop :=
  deeds viem calls = [] ∧ Beside later s s'

omit hl in
theorem runs_plain {op : Op} (hop : plain op = true) (hw : writes op = false) :
    Runs later (Prog.call (S := sig) op) (Aside later viem s) s := by
  refine alone_mono (runs_call hw) ?_
  rintro calls res s' ⟨hb, c, t, rfl, -⟩
  exact ⟨deeds_plain viem hop, hb⟩

/-- Sequencing after such a program. -/
theorem runs_seq {α β : Type} {p : Prog α} {f : α → Prog β} (hp : Runs later p (Aside later viem s) s)
    (hf : ∀ a s', Beside later s s' → Runs later (f a) (Aside later viem s') s') :
    Runs later (p >>= f) (Aside later viem s) s := by
  refine alone_seq hp ?_ fun calls e s' h => h
  rintro calls a s₁ ⟨hd, hb⟩
  refine alone_mono (hf a s₁ hb) ?_
  rintro calls' res s₂ ⟨hd', hb'⟩
  exact ⟨by rw [deeds_append, hd, hd']; rfl, hb.trans hl hb'⟩

theorem runs_resolve (name : Str) :
    Runs later (FdcClient.resolve name) (Aside later viem s) s := by
  unfold FdcClient.resolve
  refine alone_then (alone_gets ⟨rfl, _, rfl, ?_⟩)
  split
  · exact alone_pure ⟨rfl, .refl hl s⟩
  · refine runs_seq hl viem (runs_plain viem rfl rfl) fun address s' _ => ?_
    refine alone_then (alone_modify ⟨rfl, _, rfl, ?_⟩)
    exact alone_pure ⟨rfl, rfl, rfl, hl.refl _⟩

theorem runs_prepareRequest (xrplTransactionId : Hex) (proofOwner : Address) :
    Runs later (FdcClient.prepareRequest xrplTransactionId proofOwner) (Aside later viem s) s := by
  unfold FdcClient.prepareRequest
  refine runs_seq hl viem (runs_plain viem rfl rfl) fun res s' _ => ?_
  exact alone_lift ⟨rfl, .refl hl s'⟩

theorem runs_isRoundFinalized (roundId : Option Int) :
    Runs later (FdcClient.isRoundFinalized roundId) (Aside later viem s) s := by
  unfold FdcClient.isRoundFinalized
  refine runs_seq hl viem (runs_resolve hl viem _) fun relay s₁ _ => ?_
  refine runs_seq hl viem (runs_resolve hl viem _) fun verification s₂ _ => ?_
  refine runs_seq hl viem (runs_plain viem rfl rfl) fun protocolId s₃ _ => ?_
  refine runs_seq hl viem (alone_lift ⟨rfl, .refl hl s₃⟩) fun round s₄ _ => ?_
  exact runs_plain viem rfl rfl

omit hl in
theorem runs_fetchProof (o : Options) (request : Option Hex) (roundId : Option Int) :
    Runs later (FdcClient.fetchProof o request roundId)
      (fun calls _ s' => deeds viem calls = [.fetchProof roundId request] ∧ Beside later s s')
      s := by
  unfold FdcClient.fetchProof
  refine alone_seq (runs_call rfl) ?_ ?_
  · rintro calls res s₁ ⟨hb, c, t, rfl, -⟩
    exact alone_lift ⟨rfl, hb⟩
  · rintro calls e s₁ ⟨hb, c, t, rfl, -⟩
    exact ⟨rfl, hb⟩

/-- What `submitRequest` does outside: nothing yet, or one transaction. -/
inductive Submits (request : Option Hex) : List Deed → Prop
  | nothing : Submits request []
  | sent : Submits request [.requestAttestation request]
  /-- The receipt of the request may hold anything. -/
  | noted (t : Int) : Submits request [.requestAttestation request, .delayed t]

/-- The calls before the transaction. -/
theorem runs_unsent {α β : Type} {request : Option Hex} {p : Prog α} {f : α → Prog β}
    (hp : Runs later p (Aside later viem s) s)
    (hf : ∀ a s', Beside later s s' → Runs later (f a)
      (fun calls _ s'' => Submits request (deeds viem calls) ∧ Beside later s' s'') s') :
    Runs later (p >>= f)
      (fun calls _ s' => Submits request (deeds viem calls) ∧ Beside later s s') s := by
  refine alone_seq hp ?_ ?_
  · rintro calls a s₁ ⟨hd, hb⟩
    refine alone_mono (hf a s₁ hb) ?_
    rintro calls' res s₂ ⟨hd', hb'⟩
    refine ⟨?_, hb.trans hl hb'⟩
    rw [deeds_append, hd]
    exact hd'
  · rintro calls e s₁ ⟨hd, hb⟩
    exact ⟨hd ▸ .nothing, hb⟩

theorem runs_submitRequest (job : Str) (request : Option Hex) :
    Runs later (FdcClient.submitRequest job request)
      (fun calls _ s' => Submits request (deeds viem calls) ∧ Beside later s s') s := by
  unfold FdcClient.submitRequest
  refine runs_unsent hl viem (runs_resolve hl viem _) fun fdcHub s₁ _ => ?_
  refine runs_unsent hl viem (runs_plain viem rfl rfl) fun feeConfig s₂ _ => ?_
  refine runs_unsent hl viem (runs_plain viem rfl rfl) fun fee s₃ _ => ?_
  refine alone_seq (runs_call rfl) ?_ ?_
  case refine_2 =>
    rintro calls e s₄ ⟨hb, c, t, rfl, -⟩
    exact ⟨.sent, hb⟩
  rintro calls txHash s₄ ⟨hb₄, c, t, rfl, -⟩
  refine alone_seq (runs_call rfl) ?_ ?_
  case refine_2 =>
    rintro calls e s₅ ⟨hb, c', t', rfl, w, hper⟩
    obtain ⟨part, rfl⟩ := perform_error rfl hper
    exact ⟨.sent, hb₄.trans hl hb⟩
  rintro calls receipt s₅ ⟨hb₅, c', t', rfl, -⟩
  refine alone_mono (Q := Aside later viem s₅) ?_ ?_
  · -- what is left to do is no deed
    refine runs_seq hl viem (runs_plain viem rfl rfl) fun timestamp s₆ _ => ?_
    refine runs_seq hl viem (runs_resolve hl viem _) fun fsm s₇ _ => ?_
    refine runs_seq hl viem (runs_plain viem rfl rfl) fun first s₈ _ => ?_
    refine runs_seq hl viem (runs_plain viem rfl rfl) fun epochDuration s₉ _ => ?_
    exact alone_lift ⟨rfl, .refl hl s₉⟩
  rintro calls res s₆ ⟨hd, hb₆⟩
  refine ⟨?_, hb₄.trans hl (hb₅.trans hl hb₆)⟩
  rw [deeds_append, deeds_append, hd, List.append_nil]
  cases hdeed : deedOf viem ⟨.waitForTransactionReceipt txHash, s₄, c', t'⟩ with
  | none =>
    rw [show deeds viem [⟨.waitForTransactionReceipt txHash, s₄, c', t'⟩] = [] by
      simp [deeds, hdeed]]
    exact .sent
  | some d =>
    obtain ⟨delay, rfl⟩ : ∃ delay, d = .delayed delay := by
      simp only [deedOf] at hdeed
      split at hdeed
      all_goals first | contradiction | skip
      obtain ⟨delay, -, rfl⟩ := Option.map_eq_some_iff.mp hdeed
      exact ⟨delay, rfl⟩
    rw [show deeds viem [⟨.waitForTransactionReceipt txHash, s₄, c', t'⟩] = [.delayed delay] by
      simp [deeds, hdeed]]
    exact .noted delay

end Rules

/-! ## 2. The switch -/

/-- The job at a reference has become another; its file has not changed. -/
structure Leaves (later : Int → Int → Prop) (r : Ref) (job : Job) (s s' : St) : Prop where
  heap : s'.mem.heap = s.mem.heap.set r job
  jobs : s'.world.jobs = s.world.jobs
  now : later s.mem.now s'.mem.now

/-- What a step has done outside before it threw. -/
def Tries (later : Int → Int → Prop) (now : Int) (job : Job) (ds : List Deed) : Prop :=
  match job.state with
  | .request_prepared => Submits job.abiEncodedRequest ds
  | .round_finalized => ds = [.fetchProof job.roundId job.abiEncodedRequest]
  | .proof_fetched => ds = [.fetchProof job.roundId job.abiEncodedRequest] ∨
      ∃ time, later now time ∧ ds = [.fetchProof job.roundId job.abiEncodedRequest, .mint time]
  | _ => ds = []

/-- What the switch makes of a job, at a time. -/
inductive Switched (later : Int → Int → Prop) (now : Int) (job : Job) :
    List Deed → Except JsError Flow → Job → Prop
  | returned : job.state.idle = true → Switched later now job [] (.ok .returned) job
  | prepared (request : Hex) : job.state = .observed → Switched later now job [] (.ok .save)
      { job with abiEncodedRequest := some request, state := .request_prepared }
  | submitted (ds : List Deed) (roundId : Int) : job.state = .request_prepared →
      Submits job.abiEncodedRequest ds → Switched later now job ds (.ok .save)
        { job with roundId := some roundId, state := .request_submitted }
  | finalized : job.state = .request_submitted → Switched later now job [] (.ok .save)
      { job with state := .round_finalized }
  | fetched : job.state = .round_finalized →
      Switched later now job [.fetchProof job.roundId job.abiEncodedRequest] (.ok .save)
        { job with state := .proof_fetched }
  | resumed : job.state = .delayed → stillDelayed job now = false →
      Switched later now job [] (.ok .save) { job with state := .proof_fetched }
  | executed (time : Int) (hash : Hex) : job.state = .proof_fetched → later now time →
      Switched later now job [.fetchProof job.roundId job.abiEncodedRequest, .mint time]
        (.ok .save) { job with flareTxHash := some hash, state := .executed }
  /-- The date in the log line may be out of range, and then this throws. -/
  | delayed (time : Int) (hash : Hex) (t : Int) (res : Except JsError Flow) :
      job.state = .proof_fetched → later now time → res ≠ .ok .returned →
      Switched later now job
        [.fetchProof job.roundId job.abiEncodedRequest, .mint time, .delayed t] res
        { job with flareTxHash := some hash, executionAllowedAt := some (t * 1000),
                   state := .delayed }
  | threw (ds : List Deed) (e : JsError) (flareTxHash : Option Hex) :
      job.state.terminal = false → Tries later now job ds →
      Switched later now job ds (.error e) { job with flareTxHash }

/-- What the receipt of its mint makes of a job. -/
inductive Received (viem : Viem) (receipt : Receipt) (job : Job) : Except JsError Flow → Job → Prop
  | reverted (e : JsError) : reportedDelay viem receipt = none →
      Received viem receipt job (.error e) job
  | delayed (t : Int) (res : Except JsError Flow) : reportedDelay viem receipt = some t →
      res ≠ .ok .returned → Received viem receipt job res
        { job with executionAllowedAt := some (t * 1000), state := .delayed }
  | executed : reportedDelay viem receipt = none →
      Received viem receipt job (.ok .save) { job with state := .executed }

/-- `Switched` as a postcondition. -/
def SwitchPost (later : Int → Int → Prop) (viem : Viem) (r : Ref) (job : Job) (s : St)
    (calls : List Exchange) (res : Except JsError Flow) (s' : St) : Prop :=
  ∃ job', Switched later s.mem.now job (deeds viem calls) res job' ∧ Leaves later r job' s s'

section Switch

variable {later : Int → Int → Prop} (hl : Clock later) (o : Options) {s : St} {r : Ref} {job : Job}

theorem Leaves.of_beside {s' : St} (hj : s.mem.heap[r]? = some job) (h : Beside later s s') :
    Leaves later r job s s' := by
  refine ⟨?_, h.jobs, h.now⟩
  obtain ⟨hlt, hget⟩ := List.getElem?_eq_some_iff.mp hj
  rw [h.heap, ← hget, List.set_getElem_self]

theorem Leaves.get {s' : St} (hj : s.mem.heap[r]? = some job) {job' : Job}
    (h : Leaves later r job' s s') : s'.mem.heap[r]? = some job' := by
  rw [h.heap, List.getElem?_set_self (List.getElem?_eq_some_iff.mp hj).1]

theorem runs_deref {Q : List Exchange → Except JsError Job → St → Prop}
    (hj : s.mem.heap[r]? = some job) (hQ : Q [] (.ok job) s) : Runs later (deref r) Q s := by
  unfold deref
  refine alone_then (alone_gets ⟨rfl, _, rfl, ?_⟩)
  simp only [hj]
  exact alone_pure hQ

include hl

theorem Leaves.trans {job' job'' : Job} {s' s'' : St} (h : Leaves later r job' s s')
    (h' : Leaves later r job'' s' s'') : Leaves later r job'' s s'' := by
  refine ⟨?_, h'.jobs.trans h.jobs, hl.trans _ _ _ h.now h'.now⟩
  rw [h'.heap, h.heap, List.set_set]

theorem Leaves.after {job' : Job} {s' s'' : St} (h : Beside later s s')
    (h' : Leaves later r job' s' s'') : Leaves later r job' s s'' :=
  ⟨h.heap ▸ h'.heap, h'.jobs.trans h.jobs, hl.trans _ _ _ h.now h'.now⟩

theorem runs_update {f : Job → Job} {Q : List Exchange → Except JsError Unit → St → Prop}
    (hj : s.mem.heap[r]? = some job)
    (hQ : ∀ s', Leaves later r (f job) s s' → Q [] (.ok ()) s') :
    Runs later (Prog.modify (Memory.updateJob r f)) Q s := by
  refine alone_modify (hQ _ ⟨?_, rfl, hl.refl _⟩)
  simp only [Memory.updateJob, List.modify_eq_set_getElem?, hj]
  rfl

/-- A case that ends with a write to the job. -/
theorem runs_write {f : Job → Job} {s' : St} {calls : List Exchange} {job' : Job}
    (hs : Leaves later r job' s s') (hj' : s'.mem.heap[r]? = some job')
    (hsw : Switched later s.mem.now job (deeds o.viem calls) (.ok .save) (f job')) :
    Runs later (do
      Prog.modify (Memory.updateJob r f)
      return Flow.save) (fun calls' => SwitchPost later o.viem r job s (calls ++ calls')) s' := by
  refine alone_then (runs_update hl hj' fun s'' hs'' => ⟨rfl, _, rfl, ?_⟩)
  refine alone_pure ⟨_, ?_, hs.trans hl hs''⟩
  rw [List.append_nil]
  exact hsw

variable (hj : s.mem.heap[r]? = some job)

include hj

theorem runs_caseObserved (hst : job.state = .observed) :
    Runs later (caseObserved o r job) (SwitchPost later o.viem r job s) s := by
  unfold caseObserved
  refine alone_seq (runs_prepareRequest hl o.viem _ _) ?_ ?_
  · rintro calls request s₁ ⟨hd, hb⟩
    refine runs_write hl o (.of_beside hj hb) (hb.heap ▸ hj) ?_
    exact hd ▸ .prepared request hst
  · rintro calls e s₁ ⟨hd, hb⟩
    refine ⟨_, hd ▸ .threw [] e job.flareTxHash (by rw [hst]; rfl) ?_, .of_beside hj hb⟩
    simp only [Tries, hst]

theorem runs_caseRequestPrepared (hst : job.state = .request_prepared) :
    Runs later (caseRequestPrepared r job) (SwitchPost later o.viem r job s) s := by
  unfold caseRequestPrepared
  refine alone_seq (runs_submitRequest hl o.viem _ _) ?_ ?_
  · rintro calls roundId s₁ ⟨hd, hb⟩
    refine runs_write hl o (.of_beside hj hb) (hb.heap ▸ hj) ?_
    exact .submitted _ roundId hst hd
  · rintro calls e s₁ ⟨hd, hb⟩
    refine ⟨_, .threw _ e job.flareTxHash (by rw [hst]; rfl) ?_, .of_beside hj hb⟩
    simp only [Tries, hst]
    exact hd

theorem runs_caseRequestSubmitted (hst : job.state = .request_submitted) :
    Runs later (caseRequestSubmitted r job) (SwitchPost later o.viem r job s) s := by
  unfold caseRequestSubmitted
  refine alone_seq (runs_isRoundFinalized hl o.viem _) ?_ ?_
  · rintro calls finalized s₁ ⟨hd, hb⟩
    split
    · refine alone_pure ⟨_, ?_, .of_beside hj hb⟩
      rw [List.append_nil, hd]
      exact .returned (by rw [hst]; rfl)
    · refine runs_write hl o (.of_beside hj hb) (hb.heap ▸ hj) ?_
      exact hd ▸ .finalized hst
  · rintro calls e s₁ ⟨hd, hb⟩
    refine ⟨_, hd ▸ .threw [] e job.flareTxHash (by rw [hst]; rfl) ?_, .of_beside hj hb⟩
    simp only [Tries, hst]

theorem runs_caseRoundFinalized (hst : job.state = .round_finalized) :
    Runs later (caseRoundFinalized o r job) (SwitchPost later o.viem r job s) s := by
  unfold caseRoundFinalized
  refine alone_seq (runs_fetchProof o.viem o _ _) ?_ ?_
  · rintro calls proof s₁ ⟨hd, hb⟩
    refine runs_write hl o (.of_beside hj hb) (hb.heap ▸ hj) ?_
    exact hd ▸ .fetched hst
  · rintro calls e s₁ ⟨hd, hb⟩
    refine ⟨_, hd ▸ .threw _ e job.flareTxHash (by rw [hst]; rfl) ?_, .of_beside hj hb⟩
    simp only [Tries, hst]

theorem runs_caseDelayed (hst : job.state = .delayed) :
    Runs later (caseDelayed r job) (SwitchPost later o.viem r job s) s := by
  unfold caseDelayed
  refine alone_then (alone_gets ⟨rfl, _, rfl, ?_⟩)
  split
  · exact alone_pure ⟨_, .returned (by rw [hst]; rfl), .of_beside hj (.refl hl s)⟩
  case isFalse hdelay =>
    refine @runs_write _ hl o _ _ _ _ _ [] _ (.of_beside hj (.refl hl s)) hj ?_
    exact .resumed hst (Bool.eq_false_iff.mpr hdelay)

/-- What the receipt of the mint makes of the job. -/
theorem runs_receipt (receipt : Receipt) (hash : Hex) :
    Runs later (if receipt.reverted = true then
        Prog.lift (S := sig) (raise ("executeDirectMintingWithData reverted (tx ".toList ++ hash ++
          ")".toList))
      else match findDelayedEvent o.viem receipt.logs with
        | some delay => do
          Prog.modify (Memory.updateJob r fun job =>
            { job with executionAllowedAt := some (delay * 1000), state := .delayed })
          Prog.lift (S := sig) (toISOString (delay * 1000))
          return Flow.save
        | none => do
          Prog.modify (Memory.updateJob r fun job => { job with state := .executed })
          return Flow.save)
      (fun calls res s' => calls = [] ∧ ∃ job', Received o.viem receipt job res job' ∧
        Leaves later r job' s s') s := by
  split
  case isTrue hrev =>
    refine alone_lift ⟨rfl, job, .reverted _ ?_, .of_beside hj (.refl hl s)⟩
    rw [reportedDelay, if_pos hrev]
  case isFalse hrev =>
    have hreport : reportedDelay o.viem receipt = findDelayedEvent o.viem receipt.logs := by
      rw [reportedDelay, if_neg hrev]
    split
    case h_1 delay hdelay =>
      refine alone_then (runs_update hl hj fun s' hs' => ⟨rfl, _, rfl, ?_⟩)
      refine alone_seq (alone_lift (Q := fun calls res s'' => calls = [] ∧ s'' = s' ∧
        res = toISOString (delay * 1000)) ⟨rfl, rfl, rfl⟩) ?_ ?_
      · rintro calls _ _ ⟨rfl, rfl, -⟩
        exact alone_pure ⟨rfl, _, .delayed delay _ (hreport.trans hdelay) nofun, hs'⟩
      · rintro calls e _ ⟨rfl, rfl, -⟩
        exact ⟨rfl, _, .delayed delay _ (hreport.trans hdelay) nofun, hs'⟩
    case h_2 hdelay =>
      refine alone_then (runs_update hl hj fun s' hs' => ⟨rfl, _, rfl, ?_⟩)
      exact alone_pure ⟨rfl, _, .executed (hreport.trans hdelay), hs'⟩

theorem runs_caseProofFetched (hst : job.state = .proof_fetched) :
    Runs later (caseProofFetched o r job) (SwitchPost later o.viem r job s) s := by
  have hn : job.state.terminal = false := by rw [hst]; rfl
  unfold caseProofFetched
  refine alone_seq (runs_fetchProof o.viem o _ _) ?_ ?_
  case refine_2 =>
    rintro calls e s₁ ⟨hd, hb⟩
    refine ⟨_, hd ▸ .threw _ e job.flareTxHash hn ?_, .of_beside hj hb⟩
    simp only [Tries, hst, true_or]
  rintro fetch proof s₁ ⟨hfetch, hb₁⟩
  have hj₁ : s₁.mem.heap[r]? = some job := hb₁.heap ▸ hj
  refine alone_then (runs_deref hj₁ ⟨rfl, _, rfl, ?_⟩)
  -- a throw once the transaction has been sent
  have hthrew : ∀ (e : JsError) (flareTxHash : Option Hex) calls,
      deeds o.viem calls = [.mint s₁.mem.now] →
      Switched later s.mem.now job (deeds o.viem (fetch ++ calls)) (.error e)
        { job with flareTxHash } := by
    intro e flareTxHash calls hcalls
    refine .threw _ e flareTxHash hn ?_
    simp only [Tries, hst, deeds_append, hfetch, hcalls]
    exact Or.inr ⟨_, hb₁.now, rfl⟩
  refine alone_seq (runs_call rfl) ?_ ?_
  case refine_2 =>
    rintro calls e s₂ ⟨hb₂, c, t, rfl, -⟩
    exact ⟨_, hthrew e job.flareTxHash _ rfl, .of_beside hj (hb₁.trans hl hb₂)⟩
  rintro mint hash s₂ ⟨hb₂, c, t, rfl, -⟩
  refine alone_then (runs_update hl (hb₂.heap ▸ hj₁) fun s₃ hs₃ => ⟨rfl, _, rfl, ?_⟩)
  have hs : Leaves later r { job with flareTxHash := some hash } s s₃ :=
    .after hl (hb₁.trans hl hb₂) hs₃
  refine alone_seq (runs_call rfl) ?_ ?_
  case refine_2 =>
    rintro calls e s₄ ⟨hb₄, c', t', rfl, w, hper⟩
    obtain ⟨part, rfl⟩ := perform_error rfl hper
    exact ⟨_, hthrew e _ _ rfl, hs.trans hl (.of_beside (hs.get hj) hb₄)⟩
  rintro wait receipt s₄ ⟨hb₄, c', t', rfl, w, hper⟩
  have hs₄ := hs.trans hl (.of_beside (hs.get hj) hb₄)
  obtain rfl := perform_receipt hper
  refine alone_mono (runs_receipt hl o (hs₄.get hj) receipt hash) ?_
  rintro calls res s₅ ⟨rfl, job', hrec, hs₅⟩
  refine ⟨job', ?_, hs₄.trans hl hs₅⟩
  have hdeeds : deeds o.viem (fetch ++ ([⟨.executeDirectMintingWithData job.xrplTxId
      o.assetManager proof job.userOpData job.totalCallValue, s₁, c, t⟩] ++
      ([⟨.waitForTransactionReceipt hash, s₃, .receipt receipt, t'⟩] ++ []))) =
      .fetchProof job.roundId job.abiEncodedRequest :: .mint s₁.mem.now ::
        ((reportedDelay o.viem receipt).map Deed.delayed).toList := by
    rw [deeds_append, hfetch]
    cases h : reportedDelay o.viem receipt <;> simp [deeds, deedOf, h]
  cases hrec with
  | reverted e hnone =>
    refine hthrew e _ _ ?_
    simp [deeds, deedOf, hnone]
  | delayed delay res hsome hres =>
    rw [hdeeds, hsome]
    exact .delayed _ hash delay res hst hb₁.now hres
  | executed hnone =>
    rw [hdeeds, hnone]
    exact .executed _ hash hst hb₁.now

theorem runs_switch : Runs later (switch o r job) (SwitchPost later o.viem r job s) s := by
  unfold switch
  cases hst : job.state with
  | observed => exact runs_caseObserved hl o hj hst
  | request_prepared => exact runs_caseRequestPrepared hl o hj hst
  | request_submitted => exact runs_caseRequestSubmitted hl o hj hst
  | round_finalized => exact runs_caseRoundFinalized hl o hj hst
  | proof_fetched => exact runs_caseProofFetched hl o hj hst
  | delayed => exact runs_caseDelayed hl o hj hst
  | executed =>
    exact alone_pure ⟨_, .returned (by rw [hst]; rfl), .of_beside hj (.refl hl s)⟩
  | failed => exact alone_pure ⟨_, .returned (by rw [hst]; rfl), .of_beside hj (.refl hl s)⟩

end Switch

/-! ## 3. The save -/

/-- What a save leaves in the file of a job. -/
inductive Files (files : Str → Option (Text Job)) (job : Job) :
    Except JsError Unit → (Str → Option (Text Job)) → Prop
  | written : Files files job (.ok ()) (Function.update files job.id (some (.whole job)))
  | failed (e : JsError) (part : Effect) : Files files job (.error e)
      (Function.update files job.id (written part (files job.id) job))

/-- A save that fails before the file is touched. -/
theorem Files.untouched (files : Str → Option (Text Job)) (job : Job) (e : JsError) :
    Files files job (.error e) files := by
  have h : Files files job (.error e)
      (Function.update files job.id (Executor.written .nothing (files job.id) job)) :=
    .failed e .nothing
  rwa [Executor.written, Function.update_eq_self] at h

/-- A save stamps the job and writes its file, or fails because the disk does. -/
def SavePost (later : Int → Int → Prop) (viem : Viem) (r : Ref) (job : Job) (s : St)
    (calls : List Exchange) (res : Except JsError Unit) (s' : St) : Prop :=
  deeds viem calls = [] ∧ ((∀ x ∈ calls, works x = true) → res = .ok ()) ∧
    ∃ time, later s.mem.now s'.mem.now ∧
      s'.mem.heap = s.mem.heap.set r { job with updatedAt := time } ∧
      Files s.world.jobs { job with updatedAt := time } res s'.world.jobs

/-- What a step makes of its job before the save, and the error it raised on the way. -/
inductive Ended (later : Int → Int → Prop) (now : Int) (job : Job) :
    List Deed → Option JsError → Job → Prop
  | moved {ds : List Deed} {job' : Job} : Switched later now job ds (.ok .save) job' →
      Ended later now job ds none { job' with attempts := 0, lastError := none }
  | lost {ds : List Deed} {e : JsError} {job' : Job} : Switched later now job ds (.error e) job' →
      job'.state = .proof_fetched → isAlreadyConfirmed e = true →
      Ended later now job ds (some e) { job' with state := .executed, lastError := none }
  | counted {ds : List Deed} {e : JsError} {job' : Job} :
      Switched later now job ds (.error e) job' →
      Ended later now job ds (some e) (countAttempt e job')

/-- How a step ends, beside its result: the deeds, the error it raised, the job in memory and
the files. -/
inductive Stepped (later : Int → Int → Prop) (now : Int) (job : Job)
    (files : Str → Option (Text Job)) : List Deed → Option JsError → Except JsError Unit → Job →
      (Str → Option (Text Job)) → Prop
  | idle : job.state.idle = true → Stepped later now job files [] none (.ok ()) job files
  | saved {ds : List Deed} {e : Option JsError} {job' : Job} (time : Int)
      {res : Except JsError Unit} {files' : Str → Option (Text Job)} :
      Ended later now job ds e job' → Files files { job' with updatedAt := time } res files' →
      Stepped later now job files ds e res { job' with updatedAt := time } files'

/-- `Stepped` as a postcondition. -/
def StepPost (later : Int → Int → Prop) (viem : Viem) (r : Ref) (job : Job) (s : St)
    (calls : List Exchange) (res : Except JsError Unit) (s' : St) : Prop :=
  ((∀ x ∈ calls, works x = true) → res = .ok ()) ∧ later s.mem.now s'.mem.now ∧
    ∃ e job', s'.mem.heap = s.mem.heap.set r job' ∧
      Stepped later s.mem.now job s.world.jobs (deeds viem calls) e res job' s'.world.jobs

section Step

variable {later : Int → Int → Prop} (hl : Clock later) (o : Options) {s : St} {r : Ref} {job : Job}

include hl

theorem runs_save (hj : s.mem.heap[r]? = some job) :
    Runs later (save r) (SavePost later o.viem r job s) s := by
  unfold save
  refine alone_then (alone_gets ⟨rfl, _, rfl, ?_⟩)
  refine alone_then (runs_update hl hj fun s₁ hs₁ => ⟨rfl, _, rfl, ?_⟩)
  have hj₁ := hs₁.get hj
  refine alone_then (runs_deref hj₁ ⟨rfl, _, rfl, ?_⟩)
  refine alone_seq (@runs_call later _ _ rfl) ?_ ?_
  case refine_2 =>
    rintro calls e s₂ ⟨hb, c, t, rfl, w, hper⟩
    obtain ⟨part, rfl⟩ := perform_error rfl hper
    refine ⟨rfl, fun hw => ?_, s.mem.now, hl.trans _ _ _ hs₁.now hb.now, hb.heap ▸ hs₁.heap, ?_⟩
    · exact absurd (hw _ (List.mem_singleton.mpr rfl)) (by simp [works])
    · rw [hb.jobs, hs₁.jobs]
      exact .untouched _ _ e
  rintro calls _ s₂ ⟨hb, c, t, rfl, -⟩
  have hj₂ := (Leaves.of_beside hj₁ hb).get hj₁
  refine alone_then (runs_deref hj₂ ⟨rfl, _, rfl, ?_⟩)
  refine alone_call ?_
  intro c' t' res w htimed hper
  have hjobs : s₂.world.jobs = s.world.jobs := hb.jobs.trans hs₁.jobs
  refine ⟨rfl, fun hw => ?_, s.mem.now, ?_, hb.heap ▸ hs₁.heap, ?_⟩
  · cases res with
    | ok u => rfl
    | error e =>
      obtain ⟨part, rfl⟩ := perform_error rfl hper
      exact absurd (hw _ (List.mem_append_right _ (List.mem_singleton.mpr rfl))) (by simp [works])
  · exact hl.trans _ _ _ (hl.trans _ _ _ hs₁.now hb.now) htimed
  · rw [← hjobs]
    cases res with
    | ok u =>
      rw [(perform_ok hper).2]
      exact .written
    | error e =>
      obtain ⟨part, rfl⟩ := perform_error rfl hper
      rw [← (Prod.mk.inj (Option.some.inj hper)).2]
      exact .failed e part

/-! ## 4. The step -/

/-- The `try` block. -/
theorem runs_tryBlock (hj : s.mem.heap[r]? = some job) :
    Runs later (tryBlock o r) (fun calls res s' => ∃ job',
      Switched later s.mem.now job (deeds o.viem calls) res job' ∧
      Leaves later r (if res = .ok .save then { job' with attempts := 0, lastError := none }
        else job') s s') s := by
  unfold tryBlock
  refine alone_then (runs_deref hj ⟨rfl, _, rfl, ?_⟩)
  refine alone_seq (runs_switch hl o hj) ?_ ?_
  · rintro calls flow s₁ ⟨job', hsw, hs₁⟩
    cases flow with
    | returned =>
      refine alone_pure ⟨job', ?_, hs₁⟩
      rw [List.append_nil]
      exact hsw
    | save =>
      refine alone_then (runs_update hl (hs₁.get hj) fun s₂ hs₂ => ⟨rfl, _, rfl, ?_⟩)
      refine alone_pure ⟨job', ?_, hs₁.trans hl hs₂⟩
      rw [List.append_nil]
      exact hsw
  · rintro calls e s₁ ⟨job', hsw, hs₁⟩
    exact ⟨job', hsw, hs₁⟩

/-- The race is lost only at the mint, to an error that says so. -/
theorem runs_lostRace (hj : s.mem.heap[r]? = some job) (error : JsError) :
    Runs later (lostRace r error) (fun calls res s' => deeds o.viem calls = [] ∧
      Beside later s s' ∧ ∃ b, res = .ok b ∧
        (b = true → job.state = .proof_fetched ∧ isAlreadyConfirmed error = true)) s := by
  unfold lostRace
  refine alone_then (runs_deref hj ⟨rfl, _, rfl, ?_⟩)
  split
  case isTrue h =>
    unfold isTransactionUsed
    refine alone_tryCatch (@runs_plain later o.viem _ _ rfl rfl) ?_ ?_
    · rintro calls b s₁ ⟨hd, hb⟩
      exact ⟨hd, hb, b, rfl, fun _ => h⟩
    · rintro calls e s₁ ⟨hd, hb⟩
      exact alone_pure ⟨by rw [List.append_nil, hd], hb, false, rfl, by simp⟩
  case isFalse => exact alone_pure ⟨rfl, .refl hl s, false, rfl, by simp⟩

/-- A catch that lost the race has saved the job, or tried to; otherwise the miss is counted. -/
theorem runs_catchBlock (hj : s.mem.heap[r]? = some job) (error : JsError) :
    Runs later (catchBlock r error) (fun calls res s' =>
      (deeds o.viem calls = [] ∧ res = .ok .save ∧ Leaves later r (countAttempt error job) s s') ∨
      ∃ saved, res = saved.map (fun _ => .returned) ∧ job.state = .proof_fetched ∧
        isAlreadyConfirmed error = true ∧ SavePost later o.viem r
          { job with state := .executed, lastError := none } s calls saved s') s := by
  unfold catchBlock
  refine alone_seq (runs_lostRace hl o hj error) ?_ ?_
  case refine_2 =>
    rintro calls e s₁ ⟨-, -, b, hb, -⟩
    cases hb
  rintro calls b s₁ ⟨hd, hbeside, b', hb, hlost⟩
  cases hb
  have hs₁ := Leaves.of_beside hj hbeside
  split
  case isTrue hb =>
    obtain ⟨hst, hconf⟩ := hlost hb
    refine alone_then (runs_update hl (hs₁.get hj) fun s₂ hs₂ => ⟨rfl, _, rfl, ?_⟩)
    have hs := hs₁.trans hl hs₂
    -- the save starts from the job that has just been marked as executed
    have hpost : ∀ saved calls' s', SavePost later o.viem r
        { job with state := .executed, lastError := none } s₂ calls' saved s' →
        SavePost later o.viem r { job with state := .executed, lastError := none } s
          (calls ++ calls') saved s' := by
      rintro saved calls' s' ⟨hd', hok, time, hnow, hheap, hfiles⟩
      refine ⟨by rw [deeds_append, hd, hd']; rfl, fun hw => hok fun x hx => ?_, time,
        hl.trans _ _ _ hs.now hnow, ?_, hs.jobs ▸ hfiles⟩
      · exact hw x (List.mem_append_right _ hx)
      · rw [hheap, hs.heap, List.set_set]
    refine alone_seq (runs_save hl o (hs.get hj)) ?_ ?_
    · rintro calls' u s₃ hsave
      refine alone_pure (Or.inr ⟨.ok (), rfl, hst, hconf, ?_⟩)
      rw [List.append_nil]
      exact hpost _ _ _ hsave
    · rintro calls' e s₃ hsave
      exact Or.inr ⟨.error e, rfl, hst, hconf, hpost _ _ _ hsave⟩
  case isFalse =>
    refine alone_then (runs_update hl (hs₁.get hj) fun s₂ hs₂ => ⟨rfl, _, rfl, ?_⟩)
    refine alone_pure (Or.inl ⟨?_, rfl, hs₁.trans hl hs₂⟩)
    rw [List.append_nil, hd]

/-- Where a step stands before its save: it is over, or the job is still to be saved. -/
inductive Tried (later : Int → Int → Prop) (viem : Viem) (r : Ref) (job : Job) (s : St)
    (calls : List Exchange) (s' : St) : Except JsError Flow → Prop
  | finished (res : Except JsError Unit) : StepPost later viem r job s calls res s' →
      Tried later viem r job s calls s' (res.map fun _ => .returned)
  | toSave (e : Option JsError) (job' : Job) :
      Ended later s.mem.now job (deeds viem calls) e job' → Leaves later r job' s s' →
      Tried later viem r job s calls s' (.ok .save)

/-- A step that saved, or tried to, after it had come to a state `s₁`. -/
theorem StepPost.saved {s₁ s₂ : St} {job₁ job' : Job} {calls calls' : List Exchange}
    {e : Option JsError} {time : Int} {res : Except JsError Unit}
    (hended : Ended later s.mem.now job (deeds o.viem calls) e job')
    (hs₁ : Leaves later r job₁ s s₁) (hd : deeds o.viem calls' = [])
    (hok : (∀ x ∈ calls', works x = true) → res = .ok ())
    (hfiles : Files s₁.world.jobs { job' with updatedAt := time } res s₂.world.jobs)
    (hheap : s₂.mem.heap = s₁.mem.heap.set r { job' with updatedAt := time })
    (hnow : later s₁.mem.now s₂.mem.now) :
    StepPost later o.viem r job s (calls ++ calls') res s₂ := by
  refine ⟨fun hw => hok fun x hx => hw x (List.mem_append_right _ hx),
    hl.trans _ _ _ hs₁.now hnow, e, { job' with updatedAt := time }, ?_, ?_⟩
  · rw [hheap, hs₁.heap, List.set_set]
  · rw [deeds_append, hd, List.append_nil]
    exact .saved time hended (hs₁.jobs ▸ hfiles)

theorem runs_try (hj : s.mem.heap[r]? = some job) :
    Runs later ((tryBlock o r).tryCatch (catchBlock r))
      (fun calls res s' => Tried later o.viem r job s calls s' res) s := by
  refine alone_tryCatch (runs_tryBlock hl o hj) ?_ ?_
  · rintro calls flow s₁ ⟨job', hsw, hs₁⟩
    cases flow with
    | save => exact .toSave none _ (.moved hsw) hs₁
    | returned =>
      have hidle : deeds o.viem calls = [] ∧ job.state.idle = true ∧ job' = job := by
        generalize hres : (Except.ok Flow.returned : Except JsError Flow) = res at hsw
        generalize deeds o.viem calls = ds at hsw
        cases hsw with
        | returned hidle => exact ⟨rfl, hidle, rfl⟩
        | delayed time hash t res _ _ hne => exact absurd hres.symm hne
        | _ => cases hres
      obtain ⟨hd, hidle, rfl⟩ := hidle
      refine .finished (.ok ()) ⟨fun _ => rfl, hs₁.now, none, _, hs₁.heap, ?_⟩
      rw [hd, hs₁.jobs]
      exact .idle hidle
  · rintro calls e s₁ ⟨job', hsw, hs₁⟩
    rw [if_neg nofun] at hs₁
    refine alone_mono (runs_catchBlock hl o (hs₁.get hj) e) ?_
    rintro calls' res s₂ (⟨hd, rfl, hs₂⟩ | ⟨saved, rfl, hst, hconf, hsave⟩)
    · refine .toSave (some e) _ ?_ (hs₁.trans hl hs₂)
      rw [deeds_append, hd, List.append_nil]
      exact .counted hsw
    · obtain ⟨hd, hok, time, hnow, hheap, hfiles⟩ := hsave
      exact .finished saved (.saved hl o (.lost hsw hst hconf) hs₁ hd hok hfiles hheap hnow)

/-- **One step of a job**: whatever it is answered, the job, its file and the deeds are as one of
the cases of `Stepped` has them. -/
theorem runs_step (hj : s.mem.heap[r]? = some job) :
    Runs later (step o r) (StepPost later o.viem r job s) s := by
  unfold step
  refine alone_seq (runs_try hl o hj) ?_ ?_
  · rintro calls flow s₁ htried
    generalize hres : (Except.ok flow : Except JsError Flow) = res at htried
    cases htried with
    | finished res' hpost =>
      cases res' with
      | ok u =>
        cases hres
        refine alone_pure ?_
        rw [List.append_nil]
        exact hpost
      | error e => cases hres
    | toSave e job' hended hs₁ =>
      cases hres
      refine alone_mono (runs_save hl o (hs₁.get hj)) ?_
      rintro calls' res s₂ ⟨hd, hok, time, hnow, hheap, hfiles⟩
      exact .saved hl o hended hs₁ hd hok hfiles hheap hnow
  · rintro calls e s₁ htried
    generalize hres : (Except.error e : Except JsError Flow) = res at htried
    cases htried with
    | finished res' hpost =>
      cases res' with
      | ok u => cases hres
      | error e' =>
        cases hres
        exact hpost
    | toSave e job' hended hs₁ => cases hres

end Step

end Solo

end OneSig.Executor
