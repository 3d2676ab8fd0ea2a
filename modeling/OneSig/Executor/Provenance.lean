/-
# Where a job's bytes come from

Every record the store holds was verified when it was registered; every job was made from a record
of the store for the commitment in the job's own payment; every broadcast was made from a job.
`Provenance` is this chain as one invariant, over memory, files, heap and transactions, and each
function of the service keeps it on its own, so it survives every interleaving and every restart.

`R` is what is known of a record: at least that its bytes hash to its commitment, and whatever
else the admitted registrations give.  It has to last through a file (`Lasting`), for a record
that is read back after a restart is the one that `JSON.stringify` left of it.  `L` is what is
known of a payment: that the transaction with this id carries this commitment.  Both are
parameters, so that one proof serves the results about the bytes and those about the metadata
beside them.

The invariant speaks of every copy of the bytes.  A record stands under its own commitment in the
map and in its file; a job has the bytes, the value and the account of such a record, in the heap
and in its file; and a mint that was broadcast has those of a job, with the job's payment.

* `Provenance.perform`, `preserves_call`: whatever part of an operation in order takes effect
  keeps the invariant.
* `preserves_get`: what a lookup returns is a verified record for the commitment it was asked for.
* `preserves_create`, `preserves_createOne`: the job that is made of it.
* `preserves_code`: every piece of code of the process, one label after the other.
-/
import OneSig.Executor.Requests

namespace OneSig.Executor

open OneSig Async

/-! ## 1. The invariant -/

/-- What a job or a transaction carries of a record, beside the payment it is for. -/
structure MadeFrom (L : Hex → Hex → Prop) (xrplTxId : Hex) (record : PendingUserOp) : Prop where
  committed : ∃ commitment, L xrplTxId commitment ∧ IsLowerHex 32 commitment ∧
    toLowerCase record.commitment = toLowerCase commitment

/-- What is known of a record is also known of the one that its file gives back. -/
def Lasting (R : PendingUserOp → Prop) : Prop := ∀ record, R record → R record.stored

/-- The job was made from a record for the commitment in its payment. -/
def JobOk (R : PendingUserOp → Prop) (L : Hex → Hex → Prop) (job : Job) : Prop :=
  ∃ record, R record ∧ MadeFrom L job.xrplTxId record ∧
    job.userOpData = record.userOpData ∧ job.personalAccount = record.personalAccount ∧
    bigInt record.totalCallValue = .ok job.totalCallValue ∧ bigInt record.nonce = .ok job.nonce

/-- The transaction carries the bytes and the value of such a job. -/
def BroadcastOk (R : PendingUserOp → Prop) (L : Hex → Hex → Prop) : Broadcast → Prop
  | .requestAttestation _ _ _ => True
  | .executeDirectMintingWithData xrplTxId _ userOpData value =>
    ∃ record, R record ∧ MadeFrom L xrplTxId record ∧ userOpData = record.userOpData ∧
      bigInt record.totalCallValue = .ok value

/-- A record in its place: the key is its commitment. -/
def RecordOk (R : PendingUserOp → Prop) (key : Hex) (record : PendingUserOp) : Prop :=
  key = toLowerCase record.commitment ∧ R record

structure Provenance (R : PendingUserOp → Prop) (L : Hex → Hex → Prop) (s : St) : Prop where
  memory : ∀ p ∈ s.mem.memory.pairs, RecordOk R p.1 p.2
  pending : ∀ name record, s.world.pending name = some (.whole record) →
    record.commitment = hexPrefix ++ name ∧ R record
  heap : ∀ job ∈ s.mem.heap, JobOk R L job
  jobs : ∀ id job, s.world.jobs id = some (.whole job) → JobOk R L job
  chain : ∀ b ∈ s.world.chain, BroadcastOk R L b

/-- What the entry of a page shows is so: the transaction its hash names carries the commitment
in the memos. -/
def EntryOk (L : Hex → Hex → Prop) (entry : AccountTxEntry) : Prop :=
  ∀ tx hash id commitment, (entry.tx_json.orElse fun _ => entry.tx) = some tx →
    (entry.hash.orElse fun _ => tx.hash) = some hash → normalizeXrplTxId hash = .ok id →
    commitmentFromMemos tx = some commitment → L id commitment

/-- What is assumed of the answers: the pages show what is so, and what `prepare` returns
satisfies `A`. -/
def AnswerOk (L : Hex → Hex → Prop) (A : PreparedForWeb → Prop) : Choice → Prop
  | .transactions (.result (some entries)) => ∀ entry ∈ entries, EntryOk L entry
  | .prepared prepared => A prepared
  | _ => True

section Invariant

variable {R : PendingUserOp → Prop} {L : Hex → Hex → Prop} {A : PreparedForWeb → Prop}

/-- The program keeps the invariant, whatever the environment answers. -/
abbrev Preserves {α : Type} (R : PendingUserOp → Prop) (L : Hex → Hex → Prop)
    (A : PreparedForWeb → Prop) (p : Prog α) (T : α → Prop) : Prop :=
  Keeps (W := world) (.ofInv (Provenance R L) fun _ c _ => AnswerOk L A c) p T

/-! ## 2. What keeps it -/

/-- A change of the outside that keeps every file and every transaction in order. -/
theorem Provenance.outside {s : St} (h : Provenance R L s) (w : Outside)
    (hp : ∀ name record, w.pending name = some (.whole record) →
      s.world.pending name = some (.whole record) ∨
        (record.commitment = hexPrefix ++ name ∧ R record))
    (hj : ∀ id job, w.jobs id = some (.whole job) →
      s.world.jobs id = some (.whole job) ∨ JobOk R L job)
    (hc : ∀ b ∈ w.chain, b ∈ s.world.chain ∨ BroadcastOk R L b) :
    Provenance R L ⟨s.mem, w⟩ := by
  refine ⟨h.memory, fun name record hr => ?_, h.heap, fun id job hr => ?_, fun b hb => ?_⟩
  · rcases hp name record hr with hold | hnew
    · exact h.pending name record hold
    · exact hnew
  · rcases hj id job hr with hold | hnew
    · exact h.jobs id job hold
    · exact hnew
  · rcases hc b hb with hold | hnew
    · exact h.chain b hold
    · exact hnew

/-- What the operation writes or broadcasts is in order. -/
def OpOk (R : PendingUserOp → Prop) (L : Hex → Hex → Prop) : Op → Prop
  | .writePending name record => record.commitment = hexPrefix ++ name ∧ R record
  | .writeJob _ job => JobOk R L job
  | .executeDirectMintingWithData xrplTxId _ proof userOpData value =>
    BroadcastOk R L (.executeDirectMintingWithData xrplTxId proof userOpData value)
  | _ => True

/-- A broadcast of the right bytes. -/
theorem Provenance.broadcast {s : St} (h : Provenance R L s) {op : Op} {b : Broadcast}
    (hop : op.broadcast = some b) (hb : BroadcastOk R L b) (e : Effect) :
    Provenance R L ⟨s.mem, effect e s.world op⟩ := by
  rw [effect_broadcast hop]
  split
  · refine h.outside _ (fun _ _ => Or.inl) (fun _ _ => Or.inl) (fun b' hb' => ?_)
    rcases List.mem_append.mp hb' with hold | hnew
    · exact Or.inl hold
    · rw [List.mem_singleton.mp hnew]
      exact Or.inr hb
  · exact h

/-- Whatever part of such an operation takes effect. -/
theorem Provenance.perform {s : St} (h : Provenance R L s) {op : Op} (hop : OpOk R L op)
    (e : Effect) : Provenance R L ⟨s.mem, effect e s.world op⟩ := by
  cases op with
  | writePending name record =>
    refine h.outside _ (fun name' record' hr => ?_) (fun _ _ => Or.inl) (fun _ => Or.inl)
    rcases whole_of_write hr with hold | ⟨rfl, rfl⟩
    · exact Or.inl hold
    · exact Or.inr hop
  | writeJob id job =>
    refine h.outside _ (fun _ _ => Or.inl) (fun id' job' hr => ?_) (fun _ => Or.inl)
    rcases whole_of_write hr with hold | ⟨rfl, rfl⟩
    · exact Or.inl hold
    · exact Or.inr hop
  | requestAttestation job hub request value =>
    exact h.broadcast (b := .requestAttestation job request value) rfl trivial e
  | executeDirectMintingWithData xrplTxId manager proof userOpData value =>
    exact h.broadcast (b := .executeDirectMintingWithData xrplTxId proof userOpData value) rfl
      hop e
  | _ => exact h

/-- The rule of `await` for an operation in order. -/
theorem preserves_call (op : Op) (hop : OpOk R L op) {T : Res op → Prop}
    (hT : ∀ s c r w, Provenance R L s → AnswerOk L A c →
      perform op c s.world = some (r, w) → ∀ a, r = .ok a → T a) :
    Preserves R L A (Prog.call (S := sig) op) T := by
  refine keeps_call (fun s w hi hw => ?_) fun s c r w hi hc hper => ?_
  · obtain ⟨e, rfl⟩ := disturb_world hw
    exact ⟨hi.perform hop e, trivial⟩
  · obtain ⟨e, rfl⟩ := perform_world hper
    exact ⟨hi.perform hop e, trivial, hT s c r _ hi hc hper⟩

theorem preserves_modify {f : Memory → Memory}
    (h : ∀ s, Provenance R L s → Provenance R L ⟨f s.mem, s.world⟩) :
    Preserves R L A (Prog.modify (S := sig) f) fun _ => True :=
  keeps_modify fun s hi => ⟨h s hi, trivial⟩

/-- An operation whose result nothing is asked of. -/
theorem preserves_op {op : Op} (hop : OpOk R L op) :
    Preserves R L A (Prog.call (S := sig) op) fun _ => True :=
  preserves_call op hop fun _ _ _ _ _ _ _ _ _ => trivial

/-- Remembering a record under its own key. -/
theorem Provenance.remember {s : St} (h : Provenance R L s) {key : Hex}
    {record : PendingUserOp} (hr : RecordOk R key record) :
    Provenance R L ⟨s.mem.remember key record, s.world⟩ := by
  refine ⟨?_, h.pending, h.heap, h.jobs, h.chain⟩
  rintro ⟨k, v⟩ hp
  rcases JsMap.mem_pairs_set.mp hp with ⟨rfl, rfl⟩ | ⟨-, hold⟩
  · exact hr
  · exact h.memory _ hold

/-- Changing fields of a job that do not say what it is for. -/
theorem Provenance.updateJob {s : St} (h : Provenance R L s) {r : Ref} {f : Job → Job}
    (hf : ∀ job, JobOk R L job → JobOk R L (f job)) :
    Provenance R L ⟨s.mem.updateJob r f, s.world⟩ := by
  refine ⟨h.memory, h.pending, fun job hj => ?_, h.jobs, h.chain⟩
  obtain ⟨i, hi⟩ := List.mem_iff_getElem?.mp hj
  have hget := List.getElem?_modify f r s.mem.heap i
  simp only [Memory.updateJob] at hi
  rw [hget] at hi
  obtain ⟨job', hjob', heq⟩ := Option.map_eq_some_iff.mp hi
  have hold := h.heap job' (List.mem_of_getElem? hjob')
  rw [← heq]
  split
  · exact hf job' hold
  · exact hold

theorem Provenance.alloc {s : St} (h : Provenance R L s) {job : Job}
    (hj : JobOk R L job) : Provenance R L ⟨s.mem.alloc job, s.world⟩ := by
  refine ⟨h.memory, h.pending, fun job' hj' => ?_, h.jobs, h.chain⟩
  rcases List.mem_append.mp hj' with hold | hnew
  · exact h.heap job' hold
  · rw [List.mem_singleton.mp hnew]
    exact hj

/-! ## 3. The store -/

/-- The endpoints register what is admitted. -/
theorem registers : Registers (.ofInv (Provenance R L) fun _ c _ => AnswerOk L A c) R A where
  readOnly := fun _ _ => trivial
  remember := fun _ _ hi hR _ => ⟨hi.remember ⟨rfl, hR⟩, trivial⟩
  write := by
    rintro s record e hi hR hlow
    obtain ⟨bs, -, hbs⟩ := id hlow
    have hop : OpOk R L (.writePending (PendingStore.fileName record.commitment) record) :=
      ⟨by rw [hbs]; rfl, hR⟩
    exact ⟨hi.perform hop e, trivial⟩
  prepared := fun _ _ _ hadm => hadm

/-- What a lookup returns is a verified record for the commitment it was asked for. -/
theorem preserves_get (hR : Lasting R) {commitment : Hex} (hc : commitment = hexPrefix ++ commitment.drop 2) :
    Preserves R L A (PendingStore.get commitment) fun found => ∀ record, found = some record →
      R record ∧ toLowerCase record.commitment = toLowerCase commitment := by
  unfold PendingStore.get
  refine keeps_bind (R := fun cached => ∀ record, cached = some record →
    RecordOk R (toLowerCase commitment) record) (keeps_gets fun s hi record hr => ?_) ?_
  · exact hi.memory _ (JsMap.get?_eq_some.mp hr)
  intro cached hcached
  cases cached with
  | some record =>
    refine keeps_pure fun record' hr => ?_
    obtain ⟨hkey, hheld⟩ := hcached record' hr
    exact ⟨hheld, hkey.symm⟩
  | none =>
    refine keeps_tryCatch ?_ fun _ => keeps_pure (by simp)
    unfold PendingStore.readRecord
    -- the file of that name, if it parses
    refine keeps_bind (R := fun (raw : Text PendingUserOp) => ∀ record, raw = .whole record →
      record.commitment = commitment ∧ R record) ?_ fun raw hraw => ?_
    · refine preserves_call (.readPending (PendingStore.fileName commitment)) trivial ?_
      rintro s c r w hi - hper raw rfl record rfl
      obtain ⟨hname, hheld⟩ := hi.pending _ _ (perform_readPending hper)
      exact ⟨hname.trans hc.symm, hheld⟩
    refine keeps_bind (keeps_lift fun record hr => hr) fun record hrec => ?_
    obtain ⟨written, rfl, rfl⟩ := Text.parse_ok hrec
    obtain ⟨hcom, hwritten⟩ := hraw written rfl
    refine keeps_bind (preserves_modify fun s hi => ?_) fun _ _ => keeps_pure ?_
    · exact hi.remember ⟨by rw [PendingUserOp.stored_commitment, hcom], hR _ hwritten⟩
    · rintro _ ⟨⟩
      exact ⟨hR _ hwritten, by rw [PendingUserOp.stored_commitment, hcom]⟩

/-! ## 4. The attestation client -/

theorem preserves_resolve (name : Str) :
    Preserves R L A (FdcClient.resolve name) fun _ => True := by
  unfold FdcClient.resolve
  refine keeps_bind (R := fun _ => True) (keeps_gets fun _ _ => trivial) fun cached _ => ?_
  cases cached with
  | some address => exact keeps_pure trivial
  | none =>
    refine keeps_bind (preserves_op trivial) fun address _ => ?_
    refine keeps_bind (preserves_modify fun s hi => ?_) fun _ _ => keeps_pure trivial
    exact ⟨hi.memory, hi.pending, hi.heap, hi.jobs, hi.chain⟩

theorem preserves_prepareRequest (xrplTransactionId : Hex) (proofOwner : Address) :
    Preserves R L A (FdcClient.prepareRequest xrplTransactionId proofOwner) fun _ => True := by
  unfold FdcClient.prepareRequest
  exact keeps_bind (preserves_op trivial) fun _ _ => keeps_lift fun _ _ => trivial

theorem preserves_submitRequest (job : Str) (request : Option Hex) :
    Preserves R L A (FdcClient.submitRequest job request) fun _ => True := by
  unfold FdcClient.submitRequest
  refine keeps_bind (preserves_resolve _) fun _ _ => ?_
  refine keeps_bind (preserves_op trivial) fun _ _ => ?_
  refine keeps_bind (preserves_op trivial) fun _ _ => ?_
  refine keeps_bind (preserves_op trivial) fun _ _ => ?_
  refine keeps_bind (preserves_op trivial) fun _ _ => ?_
  refine keeps_bind (preserves_op trivial) fun _ _ => ?_
  refine keeps_bind (preserves_resolve _) fun _ _ => ?_
  refine keeps_bind (preserves_op trivial) fun _ _ => ?_
  exact keeps_bind (preserves_op trivial) fun _ _ => keeps_lift fun _ _ => trivial

theorem preserves_isRoundFinalized (roundId : Option Int) :
    Preserves R L A (FdcClient.isRoundFinalized roundId) fun _ => True := by
  unfold FdcClient.isRoundFinalized
  refine keeps_bind (preserves_resolve _) fun _ _ => ?_
  refine keeps_bind (preserves_resolve _) fun _ _ => ?_
  refine keeps_bind (preserves_op trivial) fun _ _ => ?_
  exact keeps_bind (R := fun _ => True) (keeps_lift fun _ _ => trivial) fun _ _ =>
    preserves_op trivial

theorem preserves_fetchProof (o : Options) (request : Option Hex) (roundId : Option Int) :
    Preserves R L A (FdcClient.fetchProof o request roundId) fun _ => True := by
  unfold FdcClient.fetchProof
  exact keeps_bind (preserves_op trivial) fun _ _ => keeps_lift fun _ _ => trivial

/-! ## 5. The pipeline -/

/-- A job with the same provenance. -/
theorem JobOk.of_same {job job' : Job} (h : JobOk R L job)
    (hid : job'.xrplTxId = job.xrplTxId) (hdata : job'.userOpData = job.userOpData)
    (hpa : job'.personalAccount = job.personalAccount)
    (hval : job'.totalCallValue = job.totalCallValue) (hnonce : job'.nonce = job.nonce) :
    JobOk R L job' := by
  obtain ⟨record, hR, hfrom, h1, h2, h3, h4⟩ := h
  refine ⟨record, hR, hid ▸ hfrom, ?_, ?_, ?_, ?_⟩
  · rw [hdata, h1]
  · rw [hpa, h2]
  · rw [hval, h3]
  · rw [hnonce, h4]

/-- A job that comes back from its file was made from the record that comes back from its own. -/
theorem JobOk.stored (hR : Lasting R) {job : Job} (h : JobOk R L job) : JobOk R L job.stored := by
  obtain ⟨record, hrecord, hfrom, hdata, hpa, hval, hnonce⟩ := h
  exact ⟨record.stored, hR record hrecord, ⟨hfrom.committed⟩, hdata, congrArg Json.stored hpa,
    Json.bigInt_stored hval, Json.bigInt_stored hnonce⟩

theorem preserves_deref (r : Ref) : Preserves R L A (deref r) (JobOk R L) := by
  unfold deref
  refine keeps_bind (R := fun found => ∀ job, found = some job → JobOk R L job)
    (keeps_gets fun s hi job hj => hi.heap job (List.mem_of_getElem? hj)) fun found hfound => ?_
  cases found with
  | some job => exact keeps_pure (hfound job rfl)
  | none => exact keeps_lift fun _ h => by simp [raise] at h

theorem preserves_update (r : Ref) {f : Job → Job}
    (hf : ∀ job, JobOk R L job → JobOk R L (f job)) :
    Preserves R L A (Prog.modify (Memory.updateJob r f)) fun _ => True :=
  preserves_modify fun _ hi => hi.updateJob hf

theorem preserves_newJob {job : Job} (hj : JobOk R L job) :
    Preserves R L A (newJob job) fun _ => True := by
  unfold newJob
  refine keeps_bind (R := fun _ => True) (keeps_gets fun _ _ => trivial) fun _ _ => ?_
  exact keeps_bind (preserves_modify fun _ hi => hi.alloc hj) fun _ _ => keeps_pure trivial

namespace ExecutorPipeline

theorem preserves_load (hR : Lasting R) (id : Str) : Preserves R L A (load id) fun _ => True := by
  unfold load
  refine keeps_tryCatch ?_ fun _ => keeps_pure trivial
  refine keeps_bind (R := fun (raw : Text Job) => ∀ job, raw = .whole job → JobOk R L job)
    ?_ fun raw hraw => ?_
  · refine preserves_call (.readJob id) trivial ?_
    rintro s c r w hi - hper raw rfl job rfl
    exact hi.jobs _ _ (perform_readJob hper)
  refine keeps_bind (keeps_lift fun job hj => hj) fun job hjob => ?_
  obtain ⟨written, rfl, rfl⟩ := Text.parse_ok hjob
  exact keeps_bind (preserves_newJob ((hraw written rfl).stored hR)) fun _ _ => keeps_pure trivial

theorem preserves_save (r : Ref) : Preserves R L A (save r) fun _ => True := by
  unfold save
  refine keeps_bind (R := fun _ => True) (keeps_gets fun _ _ => trivial) fun _ _ => ?_
  refine keeps_bind (preserves_update r fun job hj => hj.of_same rfl rfl rfl rfl rfl) fun _ _ => ?_
  refine keeps_bind (preserves_deref r) fun _ _ => ?_
  refine keeps_bind (preserves_op trivial) fun _ _ => ?_
  exact keeps_bind (preserves_deref r) fun text htext => preserves_op htext

/-- A job made from a record for the commitment in its payment. -/
theorem preserves_create (hR : Lasting R) {params : CreateParams}
    (hjob : ∀ id now, normalizeXrplTxId params.xrplTxId = .ok id →
      JobOk R L (params.job id now)) :
    Preserves R L A (create params) fun _ => True := by
  unfold create
  refine keeps_bind (keeps_lift fun id hid => hid) fun id hid => ?_
  refine keeps_bind (preserves_load hR _) fun found _ => ?_
  cases found with
  | some existing => exact keeps_pure trivial
  | none =>
    refine keeps_bind (R := fun _ => True) (keeps_gets fun _ _ => trivial) fun now _ => ?_
    refine keeps_bind (preserves_newJob (hjob id now hid)) fun r _ => ?_
    exact keeps_bind (preserves_save r) fun _ _ => keeps_pure trivial

theorem preserves_switch (o : Options) (r : Ref) (job : Job) :
    Preserves R L A (switch o r job) fun _ => True := by
  have hupd : ∀ f : Job → Job, (∀ job, (f job).xrplTxId = job.xrplTxId ∧
      (f job).userOpData = job.userOpData ∧ (f job).personalAccount = job.personalAccount ∧
      (f job).totalCallValue = job.totalCallValue ∧ (f job).nonce = job.nonce) →
      Preserves R L A (Prog.modify (Memory.updateJob r f)) fun _ => True := by
    intro f hf
    refine preserves_update r fun job hj => ?_
    obtain ⟨h1, h2, h3, h4, h5⟩ := hf job
    exact hj.of_same h1 h2 h3 h4 h5
  unfold switch
  cases job.state with
  | observed =>
    refine keeps_bind (preserves_prepareRequest _ _) fun _ _ => ?_
    exact keeps_bind (hupd _ fun _ => ⟨rfl, rfl, rfl, rfl, rfl⟩) fun _ _ => keeps_pure trivial
  | request_prepared =>
    refine keeps_bind (preserves_submitRequest _ _) fun _ _ => ?_
    exact keeps_bind (hupd _ fun _ => ⟨rfl, rfl, rfl, rfl, rfl⟩) fun _ _ => keeps_pure trivial
  | request_submitted =>
    refine keeps_bind (preserves_isRoundFinalized _) fun finalized _ => ?_
    split
    · exact keeps_pure trivial
    · exact keeps_bind (hupd _ fun _ => ⟨rfl, rfl, rfl, rfl, rfl⟩) fun _ _ => keeps_pure trivial
  | round_finalized =>
    refine keeps_bind (preserves_fetchProof _ _ _) fun _ _ => ?_
    exact keeps_bind (hupd _ fun _ => ⟨rfl, rfl, rfl, rfl, rfl⟩) fun _ _ => keeps_pure trivial
  | proof_fetched =>
    refine keeps_bind (preserves_fetchProof _ _ _) fun proof _ => ?_
    refine keeps_bind (preserves_deref r) fun job hj => ?_
    -- the bytes and the value of the broadcast are the job's
    refine keeps_bind (preserves_op ?_) fun hash _ => ?_
    · obtain ⟨record, hR, hfrom, hdata, -, hval, -⟩ := hj
      exact ⟨record, hR, hfrom, hdata, hval⟩
    refine keeps_bind (hupd _ fun _ => ⟨rfl, rfl, rfl, rfl, rfl⟩) fun _ _ => ?_
    refine keeps_bind (preserves_op trivial) fun receipt _ => ?_
    split
    · exact keeps_lift fun _ h => by simp [raise] at h
    · split
      · refine keeps_bind (hupd _ fun _ => ⟨rfl, rfl, rfl, rfl, rfl⟩) fun _ _ => ?_
        exact keeps_bind (R := fun _ => True) (keeps_lift fun _ _ => trivial) fun _ _ =>
          keeps_pure trivial
      · exact keeps_bind (hupd _ fun _ => ⟨rfl, rfl, rfl, rfl, rfl⟩) fun _ _ => keeps_pure trivial
  | delayed =>
    refine keeps_bind (R := fun _ => True) (keeps_gets fun _ _ => trivial) fun now _ => ?_
    split
    · exact keeps_pure trivial
    · exact keeps_bind (hupd _ fun _ => ⟨rfl, rfl, rfl, rfl, rfl⟩) fun _ _ => keeps_pure trivial
  | executed => exact keeps_pure trivial
  | failed => exact keeps_pure trivial

theorem preserves_tryBlock (o : Options) (r : Ref) :
    Preserves R L A (tryBlock o r) fun _ => True := by
  unfold tryBlock
  refine keeps_bind (preserves_deref r) fun job _ => ?_
  refine keeps_bind (preserves_switch o r job) fun flow _ => ?_
  cases flow with
  | returned => exact keeps_pure trivial
  | save =>
    refine keeps_bind (preserves_update r fun job hj => ?_) fun _ _ => keeps_pure trivial
    exact hj.of_same rfl rfl rfl rfl rfl

theorem preserves_catchBlock (r : Ref) (error : JsError) :
    Preserves R L A (catchBlock r error) fun _ => True := by
  unfold catchBlock
  refine keeps_bind (R := fun _ => True) ?_ fun lost _ => ?_
  · unfold lostRace
    refine keeps_bind (preserves_deref r) fun job _ => ?_
    split
    · exact keeps_tryCatch (preserves_op trivial) fun _ => keeps_pure trivial
    · exact keeps_pure trivial
  split
  · refine keeps_bind (preserves_update r fun job hj => hj.of_same rfl rfl rfl rfl rfl) fun _ _ => ?_
    exact keeps_bind (preserves_save r) fun _ _ => keeps_pure trivial
  · refine keeps_bind (preserves_update r fun job hj => ?_) fun _ _ => keeps_pure trivial
    exact hj.of_same rfl rfl rfl rfl rfl

theorem preserves_step (o : Options) (r : Ref) : Preserves R L A (step o r) fun _ => True := by
  unfold step
  refine keeps_bind (keeps_tryCatch (preserves_tryBlock o r) (preserves_catchBlock r))
    fun flow _ => ?_
  cases flow with
  | returned => exact keeps_pure trivial
  | save => exact preserves_save r

end ExecutorPipeline

/-! ## 6. The watcher -/

/-- A reported payment carries the commitment it is reported with. -/
def ObservedOk (L : Hex → Hex → Prop) (observed : ObservedPayment) : Prop :=
  IsLowerHex 32 observed.commitment ∧ ∀ id, normalizeXrplTxId observed.xrplTxId = .ok id →
    L id observed.commitment

namespace Watcher

theorem preserves_pollEntry (hR : Lasting R) {entry : AccountTxEntry} (he : EntryOk L entry) :
    Preserves R L A (pollEntry entry) fun found => ∀ payment, found = some payment →
      ObservedOk L payment := by
  have hnone : Preserves R L A (pure none : Prog (Option ObservedPayment)) fun found =>
      ∀ payment, found = some payment → ObservedOk L payment :=
    keeps_pure (by simp)
  unfold pollEntry
  split
  · exact hnone
  split
  · exact hnone
  case h_2 tx htx =>
    split
    · exact hnone
    refine keeps_bind (preserves_modify fun s hi => ?_) fun _ _ => ?_
    · exact ⟨hi.memory, hi.pending, hi.heap, hi.jobs, hi.chain⟩
    refine keeps_bind (R := fun _ => True) (keeps_gets fun _ _ => trivial) fun _ _ => ?_
    split
    · exact hnone
    split
    · exact hnone
    case h_2 commitment hcom =>
      have hshape := commitmentFromMemos_shape hcom
      have hprefix : commitment = hexPrefix ++ commitment.drop 2 := by
        obtain ⟨bs, -, rfl⟩ := hshape
        rfl
      refine keeps_bind (preserves_get hR hprefix) fun pending _ => ?_
      split
      · exact hnone
      split
      case h_2 => exact hnone
      case h_1 c cs hhash =>
        refine keeps_bind (preserves_modify fun s hi => ?_) fun _ _ => ?_
        · exact ⟨hi.memory, hi.pending, hi.heap, hi.jobs, hi.chain⟩
        refine keeps_bind (R := fun _ => True) (keeps_lift fun _ _ => trivial) fun _ _ => ?_
        refine keeps_pure ?_
        rintro payment ⟨⟩
        refine ⟨hshape, fun id hid => ?_⟩
        exact he tx _ id commitment htx hhash hid hcom

theorem preserves_pollLoop (hR : Lasting R) {entries : List AccountTxEntry}
    (he : ∀ entry ∈ entries, EntryOk L entry) :
    Preserves R L A (pollLoop entries) fun found => ∀ payment ∈ found,
      ObservedOk L payment := by
  induction entries with
  | nil => exact keeps_pure (by simp)
  | cons entry rest ih =>
    refine keeps_bind (preserves_pollEntry hR (he entry (by simp))) fun payment hp => ?_
    refine keeps_bind (ih fun e hm => he e (by simp [hm])) fun found hf => keeps_pure ?_
    intro p hm
    rcases List.mem_append.mp hm with h | h
    · exact hp p (Option.mem_toList.mp h)
    · exact hf p h

theorem preserves_poll (hR : Lasting R) (o : Options) (limit : Nat) :
    Preserves R L A (poll o limit) fun found => ∀ payment ∈ found,
      ObservedOk L payment := by
  unfold poll
  refine keeps_bind (R := fun _ => True) (keeps_gets fun _ _ => trivial) fun lastLedger _ => ?_
  refine keeps_bind (R := fun transactions => ∀ entries, transactions = some entries →
    ∀ entry ∈ entries, EntryOk L entry) ?_ fun transactions ht => ?_
  · unfold XrplHttpClient.accountTx
    refine keeps_bind (R := fun body => ∀ entries, body = .result (some entries) →
      ∀ entry ∈ entries, EntryOk L entry) ?_ fun body hbody => ?_
    · refine preserves_call (.accountTx _ _ _) trivial ?_
      rintro s c r w - hc hper body rfl entries rfl
      have hreply := (perform_ok hper).1
      cases c <;> cases hreply
      exact hc
    · refine keeps_lift ?_
      rintro transactions hread entries rfl
      cases body with
      | result a =>
        simp only [XrplHttpClient.readResult, Except.ok.injEq] at hread
        exact hbody entries (hread ▸ rfl)
      | _ => simp [XrplHttpClient.readResult, raise] at hread
  · refine preserves_pollLoop hR fun entry hm => ?_
    cases transactions with
    | none => simp at hm
    | some entries => exact ht entries rfl entry hm

end Watcher

/-! ## 7. The service -/

namespace ExecutorService

theorem preserves_start : Preserves R L A start fun _ => True := by
  unfold start
  refine keeps_bind (R := fun _ => True) ?_ fun startLedger _ => ?_
  · unfold XrplHttpClient.currentLedger
    exact keeps_bind (preserves_op trivial) fun _ _ => keeps_lift fun _ _ => trivial
  refine keeps_bind (preserves_modify fun s hi => ?_) fun _ _ => preserves_modify fun s hi => ?_
  · exact ⟨hi.memory, hi.pending, hi.heap, hi.jobs, hi.chain⟩
  · exact ⟨hi.memory, hi.pending, hi.heap, hi.jobs, hi.chain⟩

theorem preserves_setLive (id : Str) (r : Ref) :
    Preserves R L A (Prog.modify (setLive id r)) fun _ => True :=
  preserves_modify fun _ hi => ⟨hi.memory, hi.pending, hi.heap, hi.jobs, hi.chain⟩

/-- The new job is for the payment whose memo carries the commitment of its bytes. -/
theorem preserves_createOne (hR : Lasting R) {observed : ObservedPayment} (ho : ObservedOk L observed) :
    Preserves R L A (createOne observed) fun _ => True := by
  obtain ⟨hshape, hlink⟩ := ho
  have hprefix : observed.commitment = hexPrefix ++ observed.commitment.drop 2 := by
    obtain ⟨bs, -, heq⟩ := hshape
    rw [heq]
    rfl
  unfold createOne
  refine keeps_bind (R := fun _ => True) (keeps_gets fun _ _ => trivial) fun _ _ => ?_
  split
  · exact keeps_pure trivial
  refine keeps_bind (preserves_get hR hprefix) fun found hfound => ?_
  split
  · exact keeps_pure trivial
  case h_2 pending =>
    obtain ⟨hheld, hcom⟩ := hfound pending rfl
    refine keeps_bind (keeps_lift fun v hv => hv) fun totalCallValue hval => ?_
    refine keeps_bind (keeps_lift fun v hv => hv) fun nonce hnonce => ?_
    refine keeps_bind (ExecutorPipeline.preserves_create hR fun id now hid => ?_) fun job _ => ?_
    · exact ⟨pending, hheld, ⟨_, hlink id hid, hshape, hcom⟩, rfl, rfl, hval, hnonce⟩
    refine keeps_bind (preserves_setLive _ _) fun _ _ => ?_
    exact keeps_bind (R := fun _ => True) (keeps_lift fun _ _ => trivial) fun _ _ =>
      keeps_pure trivial

theorem preserves_createLoop (hR : Lasting R) {payments : List ObservedPayment}
    (hp : ∀ payment ∈ payments, ObservedOk L payment) :
    Preserves R L A (createLoop payments) fun _ => True := by
  induction payments with
  | nil => exact keeps_pure trivial
  | cons observed rest ih =>
    refine keeps_bind (preserves_createOne hR (hp observed (by simp))) fun _ _ => ?_
    exact ih fun p hm => hp p (by simp [hm])

theorem preserves_createJobs (hR : Lasting R) (o : Options) :
    Preserves R L A (createJobs o) fun _ => True := by
  unfold createJobs
  refine keeps_tryCatch ?_ fun _ => keeps_pure trivial
  exact keeps_bind (Watcher.preserves_poll hR o 30) fun _ hp => preserves_createLoop hR hp

theorem preserves_advanceOne (o : Options) (id : Str) (job : Ref) :
    Preserves R L A (advanceOne o id job) fun _ => True := by
  unfold advanceOne
  refine keeps_tryCatch ?_ fun _ => keeps_pure trivial
  refine keeps_bind (ExecutorPipeline.preserves_step o job) fun _ _ => ?_
  refine keeps_bind (preserves_setLive _ _) fun _ _ => ?_
  refine keeps_bind (preserves_deref job) fun next _ => ?_
  split
  · exact preserves_modify fun _ hi => ⟨hi.memory, hi.pending, hi.heap, hi.jobs, hi.chain⟩
  · exact keeps_pure trivial

/-- The labels that register only what is admitted. -/
def LabelOk (viem : Viem) (R : PendingUserOp → Prop) : Label → Prop
  | .register body => ∀ entry, registerEntry body = some entry → EntryAdmitted viem R entry
  | _ => True

/-- Every piece of code of the process keeps the invariant. -/
theorem preserves_code {o : Options} (hv : o.viem.Lawful) (hR : Lasting R)
    (hA : ∀ prepared, A prepared → EntryAdmitted o.viem R (preparedEntry prepared)) (l : Label)
    (hl : LabelOk o.viem R l) :
    Preserves R L A (code o l) fun next => ∀ l', next = some l' → LabelOk o.viem R l' := by
  have hend : Preserves R L A (pure none : Prog (Option Label)) fun next =>
      ∀ l', next = some l' → LabelOk o.viem R l' := keeps_pure (by simp)
  cases l with
  | register body => exact keeps_bind (registers.keeps_handleRegister hv hl) fun _ _ => hend
  | prepare body => exact keeps_bind (registers.keeps_handlePrepare hv body hA) fun _ _ => hend
  | start => exact keeps_bind preserves_start fun _ _ => hend
  | tick =>
    refine keeps_bind (preserves_createJobs hR o) fun _ _ => keeps_pure ?_
    rintro _ ⟨⟩
    trivial
  | advance place =>
    refine keeps_bind (R := fun _ => True) (keeps_gets fun _ _ => trivial) fun live _ => ?_
    refine keeps_pure fun l' h => ?_
    unfold walk at h
    split at h <;> cases h <;> trivial
  | stepping place id job =>
    refine keeps_bind (preserves_advanceOne o id job) fun _ _ => keeps_pure ?_
    rintro _ ⟨⟩
    trivial
  | poll => exact keeps_bind (Watcher.preserves_poll hR o 30) fun _ _ => hend
  | load id => exact keeps_bind (ExecutorPipeline.preserves_load hR id) fun _ _ => hend
  | step job => exact keeps_bind (ExecutorPipeline.preserves_step o job) fun _ _ => hend

end ExecutorService

end Invariant

end OneSig.Executor
