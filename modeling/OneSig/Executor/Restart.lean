/-
# Restarts between steps are invisible

A restart throws the job object away and reads it back from disk.  If the disk works, the file of
a job holds the text of the job after every completed step, also after the steps that return
without a save: those have changed nothing.  So the object that is read is the one thrown away, as
far as a text can hold it, and only its place in memory differs.

The qualification is needed.  Everything in a job is text, or a number that the pipeline computed
itself, except for `personalAccount`: that comes from a request body as it is, nobody checks it,
and a request can send `1e400`.  `JSON.parse` reads this as `Infinity`, `JSON.stringify` writes it
as `null`, and so a restart does change the job (`infinite_account_changes`).  It changes no call:
no step reads the account, and the texts that are saved are the same.  With a finite account the
jobs are equal.

`Renamed` relates two states that differ in where the job is, and possibly by such a passage
through the file; `step` is the same program up to that: it makes the same calls and leaves the
states related.  A session with restarts and the session without them, in which the same time
passes, therefore run side by side (`Twins`), and the theorem compares what can be seen of both:
the operations that are awaited, with their arguments (a write is given a text), and the job they
end in.
-/
import OneSig.Executor.Drive

namespace OneSig.Executor

open OneSig Async ExecutorPipeline

namespace Solo

/-! ## 1. What the disk is given -/

/-- An operation as the outside sees it: of the job it saves, the disk is given the text. -/
def seenOp : Op → Op
  | .writeJob id job => .writeJob id job.stored
  | op => op

/-- What a file reads as. -/
def readsAs : Text Job → Text Job
  | .whole job => .whole job.stored
  | .torn => .torn

/-- The outside, as far as reading it tells. -/
def seenWorld (w : Outside) : Outside := { w with jobs := fun id => (w.jobs id).map readsAs }

/-- An effect is seen as the effect of what is seen. -/
theorem seenWorld_effect (e : Effect) (w : Outside) (op : Op) :
    seenWorld (effect e w op) = effect e (seenWorld w) (seenOp op) := by
  cases op with
  | writeJob id job =>
    have hfile : ∀ id', (Function.update w.jobs id (written e (w.jobs id) job) id').map readsAs =
        Function.update (fun id => (w.jobs id).map readsAs) id
          (written e ((w.jobs id).map readsAs) job.stored) id' := by
      intro id'
      by_cases hid : id' = id
      · subst hid
        rw [Function.update_self, Function.update_self]
        cases e <;> rfl
      · rw [Function.update_of_ne hid, Function.update_of_ne hid]
    simp only [seenOp, effect_writeJob, seenWorld, funext hfile]
  | requestAttestation job hub request value =>
    simp only [seenOp, effect]
    split <;> rfl
  | executeDirectMintingWithData id manager proof data value =>
    simp only [seenOp, effect]
    split <;> rfl
  | _ => rfl

/-- Only a read depends on the files. -/
theorem reply_of_readsFile {op : Op} (hop : op.readsFile = false) (w w' : Outside) (c : Choice) :
    reply w op c = reply w' op c := by
  cases op with
  | readPending => cases hop
  | readJob => cases hop
  | _ => cases c <;> rfl

/-! ## 2. The same state with the job elsewhere -/

/-- A job with this account, and the same job or what its file gives back. -/
structure SameJob (account : Json) (job job' : Job) : Prop where
  account : job'.personalAccount = account
  same : job = job' ∨ job = job'.stored

/-- The states differ in the job objects and in what the files hold beyond their text, and the job
is the same. -/
structure Renamed (account : Json) (r r' : Ref) (s s' : St) : Prop where
  world : seenWorld s'.world = seenWorld s.world
  mem : s'.mem = { s.mem with heap := s'.mem.heap }
  job : Option.Rel (SameJob account) s.mem.heap[r]? s'.mem.heap[r']?

/-- The programs are the same up to where the job is. -/
abbrev SameAs {α β : Type} (account : Json) (r r' : Ref) (T : α → β → Prop) (p : Prog α)
    (p' : Prog β) : Prop :=
  Alike (W := world) (D := Int) clockTo seenOp (Renamed account r r') T p p'

theorem SameJob.stored {account : Json} {job job' : Job} (h : SameJob account job job') :
    job.stored = job'.stored := by
  rcases h.same with rfl | rfl
  · rfl
  · exact Job.stored_stored job'

/-- What does not depend on the account is the same. -/
theorem SameJob.field {account : Json} {job job' : Job} (h : SameJob account job job') {α : Type}
    (f : Job → α) (hf : ∀ job, f job.stored = f job) : f job = f job' := by
  rw [← hf job, h.stored, hf job']

theorem SameJob.eq_of_finite {account : Json} {job job' : Job} (h : SameJob account job job')
    (hfinite : account.finite = true) : job = job' := by
  rcases h.same with rfl | rfl
  · rfl
  · exact Job.stored_eq_self_iff.mpr (h.account ▸ hfinite)

section Same

variable {account : Json} {r r' : Ref}

theorem Renamed.field {s s' : St} (h : Renamed account r r' s s') {α : Type} (f : Memory → α)
    (hf : ∀ m heap, f { m with heap := heap } = f m) : f s.mem = f s'.mem := by
  rw [h.mem]
  exact (hf _ _).symm

/-- Both outsides after the same has been done to them. -/
theorem Renamed.effect {s s' : St} (h : Renamed account r r' s s') {op op' : Op}
    (hop : seenOp op' = seenOp op) (e : Effect) (t : Int) :
    Renamed account r r' ⟨clockTo t s.mem, effect e s.world op⟩
      ⟨clockTo t s'.mem, effect e s'.world op'⟩ := by
  refine ⟨?_, congrArg (clockTo t) h.mem, h.job⟩
  rw [seenWorld_effect, seenWorld_effect, hop, h.world]

theorem same_gets {α : Type} (f : Memory → α) (hf : ∀ m heap, f { m with heap := heap } = f m) :
    SameAs account r r' Eq (Prog.gets f) (Prog.gets f) :=
  alike_gets fun _ _ h => h.field f hf

theorem same_call (op : Op) (hop : op.readsFile = false) :
    SameAs account r r' Eq (Prog.call (S := sig) op) (Prog.call (S := sig) op) := by
  refine alike_call rfl fun s s' c h => ?_
  have hreply := reply_of_readsFile hop s.world s'.world c
  change Option.Rel _ (perform op c s.world) (perform op c s'.world)
  unfold perform
  split
  · exact .some ⟨.error rfl, fun t => h.effect rfl _ t⟩
  · rw [hreply]
    cases reply s'.world op c with
    | none => exact .none
    | some res => exact .some ⟨.refl res, fun t => h.effect rfl .full t⟩

/-- A write of the text of the job. -/
theorem same_writeJob (id : Str) {job job' : Job} (h : SameJob account job job') :
    SameAs account r r' Eq (Prog.call (S := sig) (.writeJob id job))
      (Prog.call (S := sig) (.writeJob id job')) := by
  have hop : seenOp (.writeJob id job') = seenOp (.writeJob id job) := by
    rw [seenOp, seenOp, h.stored]
  have hper : ∀ s s' c, Renamed account r r' s s' →
      Option.Rel (fun rw rw' => ExceptRel Eq Eq rw.1 rw'.1 ∧
        ∀ d, Renamed account r r' ⟨clockTo d s.mem, rw.2⟩ ⟨clockTo d s'.mem, rw'.2⟩)
        (perform (.writeJob id job) c s.world) (perform (.writeJob id job') c s'.world) := by
    intro s s' c hs
    cases c with
    | fail e part => exact .some ⟨.error rfl, fun t => hs.effect hop part t⟩
    | done => exact .some ⟨.ok rfl, fun t => hs.effect hop .full t⟩
    | _ => exact .none
  exact alike_call (W := world) hop hper

/-- A write to the job that leaves its account alone. -/
theorem same_update (f : Job → Job) (hf : ∀ job, f job.stored = (f job).stored)
    (haccount : ∀ job, (f job).personalAccount = job.personalAccount) :
    SameAs account r r' Eq (Prog.modify (Memory.updateJob r f))
      (Prog.modify (Memory.updateJob r' f)) := by
  refine alike_modify fun s s' h => ⟨h.world, ?_, ?_⟩
  · simp only [Memory.updateJob]
    rw [h.mem]
  · simp only [Memory.updateJob, List.getElem?_modify_eq]
    have hjob := h.job
    generalize s.mem.heap[r]? = found at hjob ⊢
    generalize s'.mem.heap[r']? = found' at hjob ⊢
    cases hjob with
    | none => exact .none
    | @some job job' hsame =>
      refine .some ⟨(haccount job').trans hsame.account, ?_⟩
      rcases hsame.same with rfl | rfl
      · exact Or.inl rfl
      · exact Or.inr (hf job')

theorem Renamed.current {s s' : St} (h : Renamed account r r' s s') {job : Job}
    (hj : s.mem.heap[r]? = some job) :
    ∃ job', s'.mem.heap[r']? = some job' ∧ SameJob account job job' := by
  have hjob := h.job
  rw [hj] at hjob
  generalize s'.mem.heap[r']? = found at hjob ⊢
  cases hjob with
  | some hsame => exact ⟨_, rfl, hsame⟩

theorem same_deref : SameAs account r r' (SameJob account) (deref r) (deref r') := by
  unfold deref
  refine alike_bind (alike_gets fun _ _ h => h.job) fun found found' hfound => ?_
  cases hfound with
  | some hjob => exact alike_pure hjob
  | none => exact fun s s' hs answers => .some ⟨.error rfl, hs, rfl, rfl⟩

theorem same_resolve (name : Str) :
    SameAs account r r' Eq (FdcClient.resolve name) (FdcClient.resolve name) := by
  unfold FdcClient.resolve
  refine alike_then (same_gets _ fun _ _ => rfl) fun cached => ?_
  cases cached with
  | some address => exact alike_pure rfl
  | none =>
    refine alike_then (same_call _ rfl) fun address => ?_
    refine alike_then (alike_modify fun s s' h => ⟨h.world, ?_, h.job⟩) fun _ => alike_pure rfl
    exact congrArg (FdcClient.cacheAddress name address) h.mem

theorem same_prepareRequest (xrplTransactionId : Hex) (proofOwner : Address) :
    SameAs account r r' Eq (FdcClient.prepareRequest xrplTransactionId proofOwner)
      (FdcClient.prepareRequest xrplTransactionId proofOwner) :=
  alike_then (same_call _ rfl) fun _ => alike_lift _

theorem same_submitRequest (job : Str) (request : Option Hex) :
    SameAs account r r' Eq (FdcClient.submitRequest job request)
      (FdcClient.submitRequest job request) := by
  unfold FdcClient.submitRequest
  refine alike_then (same_resolve _) fun fdcHub => ?_
  refine alike_then (same_call _ rfl) fun feeConfig => ?_
  refine alike_then (same_call _ rfl) fun fee => ?_
  refine alike_then (same_call _ rfl) fun txHash => ?_
  refine alike_then (same_call _ rfl) fun receipt => ?_
  refine alike_then (same_call _ rfl) fun timestamp => ?_
  refine alike_then (same_resolve _) fun fsm => ?_
  refine alike_then (same_call _ rfl) fun first => ?_
  exact alike_then (same_call _ rfl) fun epochDuration => alike_lift _

theorem same_isRoundFinalized (roundId : Option Int) :
    SameAs account r r' Eq (FdcClient.isRoundFinalized roundId)
      (FdcClient.isRoundFinalized roundId) := by
  unfold FdcClient.isRoundFinalized
  refine alike_then (same_resolve _) fun relay => ?_
  refine alike_then (same_resolve _) fun verification => ?_
  refine alike_then (same_call _ rfl) fun protocolId => ?_
  exact alike_then (alike_lift _) fun round => same_call (.isFinalized _ _ _) rfl

theorem same_fetchProof (o : Options) (request : Option Hex) (roundId : Option Int) :
    SameAs account r r' Eq (FdcClient.fetchProof o request roundId)
      (FdcClient.fetchProof o request roundId) :=
  alike_then (same_call _ rfl) fun _ => alike_lift _

/-- A write to the job, and how the `try` block goes on. -/
theorem same_write (f : Job → Job) (flow : Flow) (hf : ∀ job, f job.stored = (f job).stored)
    (haccount : ∀ job, (f job).personalAccount = job.personalAccount) :
    SameAs account r r' Eq (do Prog.modify (Memory.updateJob r f); return flow)
      (do Prog.modify (Memory.updateJob r' f); return flow) :=
  alike_then (same_update f hf haccount) fun _ => alike_pure rfl

/-! ## 3. The same step -/

/-- The mint of a job, whose arguments its file gives back as they were. -/
theorem same_mint {job₁ job₁' : Job} (h : SameJob account job₁ job₁')
    (assetManager : Address) (proof : XrpPaymentProof) :
    SameAs account r r' Eq
      (Prog.call (S := sig) (.executeDirectMintingWithData job₁.xrplTxId assetManager proof
        job₁.userOpData job₁.totalCallValue))
      (Prog.call (S := sig) (.executeDirectMintingWithData job₁'.xrplTxId assetManager proof
        job₁'.userOpData job₁'.totalCallValue)) := by
  rcases h.same with rfl | rfl
  · exact same_call _ rfl
  · exact same_call _ rfl

theorem same_caseProofFetched (o : Options) (job : Job) :
    SameAs account r r' Eq (caseProofFetched o r job) (caseProofFetched o r' job) := by
  unfold caseProofFetched
  refine alike_then (same_fetchProof o _ _) fun proof => ?_
  refine alike_bind same_deref fun job₁ job₁' hjob => ?_
  refine alike_then (same_mint hjob _ _) fun hash => ?_
  refine alike_then (same_update _ (fun _ => rfl) fun _ => rfl) fun _ => ?_
  refine alike_then (same_call _ rfl) fun receipt => ?_
  split
  · exact alike_lift _
  · split
    · refine alike_then (same_update _ (fun _ => rfl) fun _ => rfl) fun _ => ?_
      exact alike_then (alike_lift _) fun _ => alike_pure rfl
    · exact same_write _ _ (fun _ => rfl) fun _ => rfl

theorem same_switch (o : Options) (job : Job) :
    SameAs account r r' Eq (switch o r job) (switch o r' job) := by
  unfold switch
  cases job.state with
  | observed =>
    exact alike_then (same_prepareRequest _ _) fun request =>
      same_write _ _ (fun _ => rfl) fun _ => rfl
  | request_prepared =>
    exact alike_then (same_submitRequest _ _) fun roundId =>
      same_write _ _ (fun _ => rfl) fun _ => rfl
  | request_submitted =>
    refine alike_then (same_isRoundFinalized _) fun finalized => ?_
    split
    · exact alike_pure rfl
    · exact same_write _ _ (fun _ => rfl) fun _ => rfl
  | round_finalized =>
    exact alike_then (same_fetchProof o _ _) fun proof =>
      same_write _ _ (fun _ => rfl) fun _ => rfl
  | proof_fetched => exact same_caseProofFetched o job
  | delayed =>
    refine alike_then (same_gets _ fun _ _ => rfl) fun now => ?_
    split
    · exact alike_pure rfl
    · exact same_write _ _ (fun _ => rfl) fun _ => rfl
  | executed => exact alike_pure rfl
  | failed => exact alike_pure rfl

theorem same_tryBlock (o : Options) :
    SameAs account r r' Eq (tryBlock o r) (tryBlock o r') := by
  unfold tryBlock
  refine alike_bind same_deref fun job job' hjob => ?_
  rw [hjob.field (switch o r) fun _ => rfl]
  refine alike_then (same_switch o job') fun flow => ?_
  cases flow with
  | returned => exact alike_pure rfl
  | save => exact same_write _ _ (fun _ => rfl) fun _ => rfl

theorem same_save : SameAs account r r' Eq (save r) (save r') := by
  unfold save
  refine alike_then (same_gets _ fun _ _ => rfl) fun now => ?_
  refine alike_then (same_update _ (fun _ => rfl) fun _ => rfl) fun _ => ?_
  refine alike_bind same_deref fun job job' hjob => ?_
  have hid := hjob.field Job.id fun _ => rfl
  rw [hid]
  refine alike_then (same_call .mkdirState rfl) fun _ => ?_
  exact alike_bind same_deref fun text text' htext => same_writeJob _ htext

theorem same_lostRace (error : JsError) :
    SameAs account r r' Eq (lostRace r error) (lostRace r' error) := by
  unfold lostRace
  refine alike_bind same_deref fun job job' hjob => ?_
  have hstate := hjob.field Job.state fun _ => rfl
  have htx := hjob.field Job.xrplTxId fun _ => rfl
  rw [hstate, htx]
  split
  · exact alike_tryCatch (same_call (.isTransactionIdUsed _) rfl) fun _ => alike_pure rfl
  · exact alike_pure rfl

theorem countAttempt_stored (error : JsError) (job : Job) :
    countAttempt error job.stored = (countAttempt error job).stored := rfl

theorem same_catchBlock (error : JsError) :
    SameAs account r r' Eq (catchBlock r error) (catchBlock r' error) := by
  unfold catchBlock
  refine alike_then (same_lostRace error) fun lost => ?_
  split
  · refine alike_then (same_update _ (fun _ => rfl) fun _ => rfl) fun _ => ?_
    exact alike_then same_save fun _ => alike_pure rfl
  · exact same_write _ _ (countAttempt_stored error) fun _ => rfl

/-- **A step does not see where its job is**, nor whether it has been through its file. -/
theorem same_step (o : Options) : SameAs account r r' Eq (step o r) (step o r') := by
  unfold step
  refine alike_then (alike_tryCatch (same_tryBlock o) same_catchBlock) fun flow => ?_
  cases flow with
  | returned => exact alike_pure rfl
  | save => exact same_save

end Same

/-! ## 4. Side by side -/

/-- When a restart has read the file of its job. -/
def Action.readAt : Action → Option Int
  | .load [(.done, t)] => some t
  | .create _ [(.done, t)] => some t
  | _ => none

/-- The same time passes, and nothing is restarted. -/
def Action.uninterrupted (a : Action) : Action :=
  match a.readAt with
  | some t => .wait t
  | none => a

/-- What the steps and saves of a session asked for, with the arguments. -/
def Session.asked (run : Session) : List Op :=
  (run.log.filter fun turn => !turn.action.restarts).flatMap fun turn =>
    turn.calls.map fun x => seenOp x.op

/-- The disk did what it was asked. -/
def Session.works (run : Session) : Bool := run.log.all fun turn => turn.calls.all Solo.works

/-- What can be seen of a session: the calls of its steps, and the job. -/
def Session.observed (run : Session) : List Op × Option Job := (run.asked, run.current)

/-- No restart can be seen: the calls are the same, and so is the job, or it is what its file gives
back. -/
structure Invisible (account : Json) (seen seen' : List Op × Option Job) : Prop where
  asked : seen.1 = seen'.1
  job : Option.Rel (SameJob account) seen.2 seen'.2

theorem Invisible.eq_of_finite {account : Json} {seen seen' : List Op × Option Job}
    (h : Invisible account seen seen') (hfinite : account.finite = true) : seen = seen' := by
  obtain ⟨asked, job⟩ := seen
  obtain ⟨asked', job'⟩ := seen'
  obtain ⟨rfl, hjob⟩ := h
  cases hjob with
  | none => rfl
  | some hsame => rw [hsame.eq_of_finite hfinite]

/-- The file of a job holds its text. -/
def InFile (w : Outside) (job : Job) : Prop :=
  ∃ old, w.jobs job.id = some (.whole old) ∧ old.stored = job.stored

/-- Two sessions that cannot be told apart, the first of them with restarts. -/
structure Twins (xrplTxId : Hex) (account : Json) (run run' : Session) : Prop where
  renamed : Renamed account run.job run'.job run.st run'.st
  asked : run'.asked = run.asked
  works : run'.works = run.works
  saved : ∃ job, Tracks xrplTxId run job ∧ (run.works = true → InFile run.st.world job)

section Twins

variable {o : Options} {xrplTxId : Hex} {account : Json} {run run' : Session}

/-- `load` of a file that holds a job. -/
theorem exec_load {id : Str} {job : Job} {s : St} {t : Int}
    (hfile : s.world.jobs id = some (.whole job)) :
    exec (W := world) clockTo (load id) [(.done, t)] s =
      some ⟨.ok (some s.mem.heap.length),
        ⟨{ s.mem with now := t, heap := s.mem.heap ++ [job.stored] }, s.world⟩,
        [⟨.readJob id, s, .done, t⟩], []⟩ := by
  have hper : perform (.readJob id) .done s.world = some (.ok (.whole job), s.world) := by
    simp only [perform, reply, readFile, hfile]
    rfl
  unfold load
  rw [exec_tryCatch, exec_bind, exec_call]
  simp only [hper, Option.map_some, Option.bind_some, thenExec]
  rfl

/-- `create` for a payment whose file holds a job. -/
theorem exec_create {params : CreateParams} {id : Hex} {job : Job} {s : St} {t : Int}
    (hid : normalizeXrplTxId params.xrplTxId = .ok id)
    (hfile : s.world.jobs (id.drop 2) = some (.whole job)) :
    exec (W := world) clockTo (create params) [(.done, t)] s =
      some ⟨.ok s.mem.heap.length,
        ⟨{ s.mem with now := t, heap := s.mem.heap ++ [job.stored] }, s.world⟩,
        [⟨.readJob (id.drop 2), s, .done, t⟩], []⟩ := by
  unfold create
  rw [hid, exec_bind, exec_lift]
  simp only [Option.bind_some, thenExec]
  rw [exec_bind, exec_load hfile]
  rfl

theorem act_wait (t : Int) {job : Job} (hjob : run.current = some job) :
    act o (.wait t) run = some ⟨run.log ++ [⟨.wait t, run.st, run.job, [], .ok none⟩],
      ⟨clockTo t run.st.mem, run.st.world⟩, run.job⟩ := by
  unfold act
  rw [hjob]
  rfl

/-- A restart that reads the file of its job. -/
theorem act_restart {a : Action} {t : Int} (ha : a.readAt = some t) {job : Job}
    (hjob : run.current = some job) (htx : job.id = job.xrplTxId.drop 2)
    (hsame : ∀ p as, a = .create p as → normalizeXrplTxId p.xrplTxId = .ok job.xrplTxId)
    (hfile : InFile run.st.world job) :
    act o a run = some ⟨run.log ++ [⟨a, run.st, run.job, [⟨.readJob job.id, run.st, .done, t⟩],
        .ok (some run.st.mem.heap.length)⟩],
      ⟨{ run.st.mem with now := t, heap := run.st.mem.heap ++ [job.stored] }, run.st.world⟩,
      run.st.mem.heap.length⟩ := by
  obtain ⟨old, hfile, hsame⟩ := hfile
  rw [← hsame]
  unfold Action.readAt at ha
  unfold act
  rw [hjob]
  split at ha
  case h_1 =>
    cases ha
    simp only [Action.prog, Action.answers, Option.bind_eq_bind, Option.bind_some, exec_load hfile]
    rfl
  case h_2 params =>
    cases ha
    have hid := hsame _ _ rfl
    rw [htx] at hfile ⊢
    simp only [Action.prog, Action.answers, Option.bind_eq_bind, Option.bind_some, if_pos hid,
      exec_bind, exec_create hid hfile, thenExec]
    rfl
  case h_3 => cases ha

/-- If the disk works, the file of a job stays up to date, also where nothing is saved. -/
theorem runs_upToDate {a : Action} (ha : a.restarts = false) {s : St} {r : Ref} {job : Job}
    (hj : s.mem.heap[r]? = some job) (hfile : InFile s.world job) :
    Runs (fun _ _ => True) (a.prog o r job) (fun calls _ s' =>
      (∀ x ∈ calls, Solo.works x = true) → UpToDate s' r) s := by
  have hlt : r < s.mem.heap.length := (List.getElem?_eq_some_iff.mp hj).1
  cases a with
  | wait t =>
    obtain ⟨old, hold, hsame⟩ := hfile
    exact alone_then (alone_modify ⟨rfl, _, rfl, alone_pure fun _ => ⟨job, old, hj, hold, hsame⟩⟩)
  | step answers =>
    refine alone_mono (runs_keeping (runs_step Clock.any o hj)) ?_
    rintro calls _ s' ⟨res, hok, -, e, job', hheap, hstepped⟩ hworks
    have hres := hok hworks
    generalize hfiles' : s'.world.jobs = files' at hstepped
    generalize deeds o.viem calls = ds at hstepped
    cases hstepped with
    | idle =>
      obtain ⟨old, hold, hsame⟩ := hfile
      exact ⟨job, old, by rw [hheap, List.getElem?_set_self hlt], hfiles'.symm ▸ hold, hsame⟩
    | saved time _ hfiles =>
      subst hres
      exact Files.upToDate hlt hheap (hfiles' ▸ hfiles)
  | save answers =>
    refine alone_mono (runs_keeping (runs_save Clock.any o hj)) ?_
    rintro calls _ s' ⟨res, -, hok, time, -, hheap, hfiles⟩ hworks
    obtain rfl := hok hworks
    exact Files.upToDate hlt hheap hfiles
  | load answers => cases ha
  | create params answers => cases ha

/-- An action that restarts nothing is the same program wherever the job is. -/
theorem same_action {a : Action} (ha : a.restarts = false) {r r' : Ref} (job job' : Job) :
    SameAs account r r' Eq (a.prog o r job) (a.prog o r' job') := by
  cases a with
  | wait t =>
    refine alike_then (alike_modify fun s s' h => ⟨h.world, ?_, h.job⟩) fun _ => alike_pure rfl
    exact congrArg (clockTo t) h.mem
  | step answers => exact alike_then (same_step o) fun _ => alike_pure rfl
  | save answers => exact alike_then same_save fun _ => alike_pure rfl
  | load answers => cases ha
  | create params answers => cases ha

theorem asked_append (log : List Turn) (turn : Turn) (s : St) (r : Ref) :
    Session.asked ⟨log ++ [turn], s, r⟩ = Session.asked ⟨log, s, r⟩ ++
      if turn.action.restarts = true then [] else turn.calls.map fun x => seenOp x.op := by
  unfold Session.asked
  cases h : turn.action.restarts <;> simp [h]

theorem works_append (log : List Turn) (turn : Turn) (s : St) (r : Ref) :
    Session.works ⟨log ++ [turn], s, r⟩ =
      (Session.works ⟨log, s, r⟩ && turn.calls.all Solo.works) := by
  simp [Session.works]

/-- What is asked and whether the disk works is part of what is said. -/
theorem said_op {calls calls' : List Exchange}
    (h : calls'.map (Async.Exchange.said seenOp) = calls.map (Async.Exchange.said seenOp)) :
    (calls'.map fun x => seenOp x.op) = (calls.map fun x => seenOp x.op) ∧
      calls'.all Solo.works = calls.all Solo.works := by
  constructor
  · have hmap := congrArg (List.map Prod.fst) h
    rw [List.map_map, List.map_map] at hmap
    exact hmap
  · have hall := congrArg (List.all · fun said =>
      Solo.works ⟨said.1, ⟨Memory.boot 0, .fresh []⟩, said.2.1, said.2.2⟩) h
    rw [List.all_map, List.all_map] at hall
    have hworks : ∀ x : Exchange, Solo.works ⟨seenOp x.op, ⟨Memory.boot 0, .fresh []⟩, x.choice,
        x.drift⟩ = Solo.works x := by
      rintro ⟨op, s, c, t⟩
      cases op <;> first | rfl | (cases c <;> rfl)
    simpa only [Function.comp_def, Async.Exchange.said, hworks] using hall

/-- An action that restarts nothing goes on with the same object. -/
theorem act_eq {a : Action} (ha : a.restarts = false) {job : Job} (hjob : run.current = some job) :
    act o a run = (exec (W := world) clockTo (a.prog o run.job job) a.answers run.st).map fun out =>
      ⟨run.log ++ [⟨a, run.st, run.job, out.calls, out.res⟩], out.st, run.job⟩ := by
  unfold act
  rw [hjob]
  simp only [Option.bind_eq_bind, Option.bind_some, Action.next, ha, Bool.false_eq_true, if_false]
  cases exec (W := world) clockTo (a.prog o run.job job) a.answers run.st <;> rfl

/-- **An action without a restart**: twins stay twins, and either of them can act when the other
one can. -/
theorem Twins.act (h : Twins xrplTxId account run run') {a : Action} (ha : a.restarts = false) :
    Option.Rel (Twins xrplTxId account) (act o a run) (act o a run') := by
  obtain ⟨job, htracks, hfile⟩ := h.saved
  obtain ⟨job', hjob', -⟩ := h.renamed.current htracks.current
  change run'.current = some job' at hjob'
  have hact := act_eq (o := o) ha htracks.current
  have hrel := same_action (o := o) ha job job' run.st run'.st h.renamed a.answers
  rw [hact, act_eq ha hjob']
  generalize hexec : exec clockTo (a.prog o run.job job) a.answers run.st = found at hrel hact ⊢
  generalize exec clockTo (a.prog o run'.job job') a.answers run'.st = found' at hrel ⊢
  cases hrel with
  | none => exact .none
  | @some out out' hm =>
    obtain ⟨job₁, -, htracks₁, -, -⟩ := htracks.act hact
    obtain ⟨hops, hworks⟩ := said_op hm.calls
    refine .some ⟨hm.st, ?_, ?_, job₁, htracks₁, fun hw => ?_⟩
    · have hasked : Session.asked ⟨run'.log, out'.st, run'.job⟩ =
        Session.asked ⟨run.log, out.st, run.job⟩ := h.asked
      simp only [asked_append, hasked, ha, Bool.false_eq_true, if_false, hops]
    · have hold : Session.works ⟨run'.log, out'.st, run'.job⟩ =
        Session.works ⟨run.log, out.st, run.job⟩ := h.works
      simp only [works_append, hold, hworks]
    · rw [works_append, Bool.and_eq_true] at hw
      obtain ⟨job₂, old, hj₂, hold, hsame⟩ := runs_upToDate (o := o) ha htracks.current
        (hfile hw.1) _ _ hexec (fun _ _ => trivial) (List.all_eq_true.mp hw.2)
      have heq : job₂ = job₁ := Option.some.inj (hj₂.symm.trans htracks₁.current)
      exact heq ▸ ⟨old, hold, hsame⟩

/-- **A restart** that reads the file, beside the same time passing in the session that is not
restarted: on a working disk the two stay twins. -/
theorem Twins.restart (h : Twins xrplTxId account run run') (hworks : run.works = true) {a : Action} {t : Int}
    (ha : a.readAt = some t)
    (hsame : ∀ p as, a = .create p as → normalizeXrplTxId p.xrplTxId = .ok xrplTxId) :
    Option.Rel (Twins xrplTxId account) (Solo.act o a run) (Solo.act o (.wait t) run') := by
  obtain ⟨job, htracks, hfile⟩ := h.saved
  have hfile := hfile hworks
  have hrestarts : a.restarts = true := by
    unfold Action.readAt at ha
    split at ha <;> first | rfl | cases ha
  have htx : job.id = job.xrplTxId.drop 2 := by rw [htracks.id, htracks.tx]
  have hact := act_restart (o := o) ha htracks.current htx (htracks.tx.symm ▸ hsame) hfile
  obtain ⟨job₁, -, htracks₁, -, -⟩ := htracks.act hact
  obtain ⟨job', hjob', hsame'⟩ := h.renamed.current htracks.current
  change run'.current = some job' at hjob'
  rw [hact, act_wait t hjob']
  refine .some ⟨⟨h.renamed.world, ?_, ?_⟩, ?_, ?_, job₁, htracks₁, fun _ => ?_⟩
  · dsimp only
    rw [h.renamed.mem]
    rfl
  · change Option.Rel (SameJob account) (run.st.mem.heap ++ [job.stored])[_]? run'.current
    rw [List.getElem?_concat_length, hjob']
    exact .some ⟨hsame'.account, Or.inr hsame'.stored⟩
  · have hasked : Session.asked ⟨run'.log, run'.st, run'.job⟩ =
      Session.asked ⟨run.log, run.st, run.job⟩ := h.asked
    simp only [asked_append, hrestarts, if_true]
    simp only [Action.restarts, Bool.false_eq_true, if_false, List.map_nil, List.append_nil]
    exact hasked
  · have hold : Session.works ⟨run'.log, run'.st, run'.job⟩ =
      Session.works ⟨run.log, run.st, run.job⟩ := h.works
    simp only [works_append]
    exact congrArg (· && true) hold
  · have heq : job.stored = job₁ :=
      Option.some.inj (List.getElem?_concat_length.symm.trans htracks₁.current)
    obtain ⟨old, hold, hsame⟩ := hfile
    exact heq ▸ ⟨old, hold, hsame.trans job.stored_stored.symm⟩

theorem Twins.observed (h : Twins xrplTxId account run run') :
    Invisible account run.observed run'.observed :=
  ⟨h.asked.symm, h.renamed.job⟩

/-- A disk that failed has failed. -/
theorem Session.works_of_drive {script : List Action} (hdrive : drive o script run = some run')
    (hworks : run'.works = true) : run.works = true := by
  induction script generalizing run with
  | nil =>
    cases hdrive
    exact hworks
  | cons a script ih =>
    obtain ⟨run₁, hact, hrest⟩ := Option.bind_eq_some_iff.mp hdrive
    obtain ⟨-, turn, -, hlog, -⟩ := act_acted Clock.any hact
    have h₁ := ih hrest
    rw [Session.works, hlog, List.all_append, Bool.and_eq_true] at h₁
    exact h₁.1

theorem drive_filter_none {script : List Action} (hworks : ¬run.works = true) :
    (drive o script run).filter Session.works = none := by
  rw [Option.filter_eq_none_iff]
  intro run' hdrive hworks'
  exact hworks (Session.works_of_drive hdrive hworks')

theorem Action.uninterrupted_of_none {a : Action} (ha : a.readAt = none) : a.uninterrupted = a := by
  rw [Action.uninterrupted, ha]

theorem Action.uninterrupted_of_some {a : Action} {t : Int} (ha : a.readAt = some t) :
    a.uninterrupted = .wait t := by
  rw [Action.uninterrupted, ha]

/-- What is seen of a session as long as the disk works. -/
def seen (run : Option Session) : Option (List Op × Option Job) :=
  (run.filter Session.works).map Session.observed

/-- **Twins are seen to do the same**, with restarts and without, as long as every restart is for
their payment and reads its file. -/
theorem Twins.drive (h : Twins xrplTxId account run run') {script : List Action}
    (hreads : ∀ a ∈ script, a.restarts = true → a.readAt.isSome = true)
    (hsame : ∀ p as, .create p as ∈ script → normalizeXrplTxId p.xrplTxId = .ok xrplTxId) :
    Option.Rel (Invisible account) (seen (Solo.drive o script run))
      (seen (Solo.drive o (script.map Action.uninterrupted) run')) := by
  induction script generalizing run run' with
  | nil =>
    simp only [List.map_nil, Solo.drive, seen, Option.filter_some, h.works]
    split
    · exact .some h.observed
    · exact .none
  | cons a script ih =>
    by_cases hworks : run.works = true
    case neg =>
      have hworks' : ¬run'.works = true := h.works ▸ hworks
      rw [seen, seen, drive_filter_none hworks, drive_filter_none hworks']
      exact .none
    case pos =>
      have hrel : Option.Rel (Twins xrplTxId account) (Solo.act o a run)
          (Solo.act o a.uninterrupted run') := by
        cases hread : a.readAt with
        | none =>
          have ha : a.restarts = false := by
            by_contra hne
            have hsome := hreads a (List.mem_cons_self ..) (eq_true_of_ne_false hne)
            rw [hread] at hsome
            cases hsome
          rw [Action.uninterrupted_of_none hread]
          exact h.act ha
        | some t =>
          rw [Action.uninterrupted_of_some hread]
          exact h.restart hworks hread fun p as hcreate =>
            hsame p as (hcreate ▸ List.mem_cons_self ..)
      simp only [List.map_cons, Solo.drive]
      generalize Solo.act o a run = next at hrel
      generalize Solo.act o a.uninterrupted run' = next' at hrel
      cases hrel with
      | none => exact .none
      | some h₁ =>
        exact ih h₁ (fun b hb => hreads b (List.mem_cons_of_mem _ hb))
          fun p as hcreate => hsame p as (List.mem_cons_of_mem _ hcreate)

/-- A job that has been created is in its file, with the account it was created with. -/
theorem start_inFile (o : Options) {params : CreateParams} {answers : List (Choice × Int)} {s : St}
    (hnone : ∀ id, normalizeXrplTxId params.xrplTxId = .ok id → s.world.jobs (id.drop 2) = none)
    (h : start params answers s = some run) {job : Job} (hjob : run.current = some job)
    (hid : normalizeXrplTxId params.xrplTxId = .ok xrplTxId) :
    job.personalAccount = params.personalAccount ∧ InFile run.st.world job := by
  obtain ⟨out, hexec, hout⟩ := Option.bind_eq_some_iff.mp h
  obtain ⟨-, -, hcreated⟩ := runs_create Clock.any o params answers out hexec
    fun _ _ => trivial
  cases hres : out.res with
  | error e =>
    rw [hres] at hout
    cases hout
  | ok r =>
    rw [hres] at hout
    cases hout
    obtain ⟨id', hid', hcr⟩ := hcreated r hres
    obtain rfl := Except.ok.inj (hid.symm.trans hid')
    rw [Session.current] at hjob
    rw [InFile]
    generalize out.st.mem.heap = heap at hcr hjob
    generalize out.st.world.jobs = files at hcr
    cases hcr with
    | existing hfile =>
      rw [hnone _ hid] at hfile
      cases hfile
    | @fresh now time job' hjob' =>
      rw [List.getElem?_concat_length] at hjob
      obtain rfl : job' = job := Option.some.inj hjob
      rw [hjob']
      exact ⟨rfl, _, Function.update_self .., rfl⟩

/-- A session beside itself, from the creation of its job on. -/
theorem Twins.start (o : Options) {params : CreateParams} {answers : List (Choice × Int)} {s : St}
    (hnone : ∀ id, normalizeXrplTxId params.xrplTxId = .ok id → s.world.jobs (id.drop 2) = none)
    (h : start params answers s = some run) :
    ∃ id, normalizeXrplTxId params.xrplTxId = .ok id ∧
      Twins id params.personalAccount run run := by
  obtain ⟨id, job, hid, htracks⟩ := Tracks.start o hnone h
  obtain ⟨haccount, hinFile⟩ := start_inFile o hnone h htracks.current hid
  refine ⟨id, hid, ⟨rfl, rfl, ?_⟩, rfl, rfl, job, htracks, fun _ => hinFile⟩
  change Option.Rel _ run.current run.current
  rw [htracks.current]
  exact .some ⟨haccount, Or.inl rfl⟩

end Twins

end Solo

/-- **Restarts between steps are invisible**, up to what a text can hold of the account.  As long as
the disk works, a session in which the job is dropped and loaded back, or created again for the
same transaction, makes the same calls with the same arguments as the session in which nothing is
restarted, and ends in the same job, or in the one that the file of that job gives back.  If the
numbers in the account are finite, the two sessions end in the same job. -/
theorem restarts_invisible {o : Options} {params : CreateParams} {answers : List (Choice × Int)}
    {s : St} (hnone : ∀ id, normalizeXrplTxId params.xrplTxId = .ok id →
      s.world.jobs (id.drop 2) = none)
    {run₀ : Solo.Session} (hstart : Solo.start params answers s = some run₀)
    {script : List Solo.Action}
    (hreads : ∀ a ∈ script, a.restarts = true → a.readAt.isSome = true)
    (hsame : ∀ p as, .create p as ∈ script →
      normalizeXrplTxId p.xrplTxId = normalizeXrplTxId params.xrplTxId) :
    Option.Rel (Solo.Invisible params.personalAccount) (Solo.seen (Solo.drive o script run₀))
        (Solo.seen (Solo.drive o (script.map Solo.Action.uninterrupted) run₀)) ∧
      (params.personalAccount.finite = true → Solo.seen (Solo.drive o script run₀) =
        Solo.seen (Solo.drive o (script.map Solo.Action.uninterrupted) run₀)) := by
  obtain ⟨id, hid, htwins⟩ := Solo.Twins.start o hnone hstart
  have hrel := htwins.drive (o := o) hreads fun p as hcreate => (hsame p as hcreate).trans hid
  refine ⟨hrel, fun hfinite => ?_⟩
  generalize Solo.seen (Solo.drive o script run₀) = with' at hrel ⊢
  generalize Solo.seen (Solo.drive o (script.map _) run₀) = without at hrel ⊢
  cases hrel with
  | none => rfl
  | some h => exact congrArg some (h.eq_of_finite hfinite)

namespace Sample

/-- The same payment again, in another spelling. -/
def again : CreateParams := { params with xrplTxId := hexPrefix ++ List.replicate 64 'a' }

/-- A round that is looked up after its contracts: first the call fails, then the round is not
finalized yet, then it is. -/
def restarting : List Solo.Action :=
  [.step (timed 2 preparing), .load (timed 3 [.done]), .step (timed 4 submitting),
    .step (timed 5 [address, address, .nat 200, .fail (.error []) .nothing, .done, .done]),
    .create again (timed 6 [.done]), .step (timed 7 [.nat 200, .bool false]),
    .load (timed 8 [.done]), .step (timed 9 [.nat 200, .bool true, .done, .done]),
    .step (timed 10 fetching), .create params (timed 11 [.done]), .step (timed 12 minting)]

end Sample

/-- A session with four restarts, and the same one without. -/
theorem restarts_invisible_sample :
    ∃ run₀ what, Sample.created = some run₀ ∧
      what.map (Job.state ·) = some .executed ∧
      (Solo.seen (Solo.drive (Sample.options Sample.tables) Sample.restarting run₀)).map Prod.snd =
        some what ∧
      Solo.seen (Solo.drive (Sample.options Sample.tables) Sample.restarting run₀) =
        Solo.seen (Solo.drive (Sample.options Sample.tables)
          (Sample.restarting.map Solo.Action.uninterrupted) run₀) := by
  have hrun : Sample.created.bind (fun run₀ =>
      (Solo.seen (Solo.drive (Sample.options Sample.tables) Sample.restarting run₀)).map
        fun what => what.2.map Job.state) = some (some .executed) := by
    decide +kernel
  obtain ⟨run₀, hstart, hseen⟩ := Option.bind_eq_some_iff.mp hrun
  obtain ⟨what, hwhat, hstate⟩ := Option.map_eq_some_iff.mp hseen
  refine ⟨run₀, what.2, hstart, hstate, by rw [hwhat, Option.map_some], ?_⟩
  refine (restarts_invisible (fun _ _ => rfl) hstart ?_ ?_).2 rfl
  · simp [Sample.restarting, Sample.timed, Solo.Action.restarts, Solo.Action.readAt]
  · intro p as hcreate
    simp only [Sample.restarting, List.mem_cons, Solo.Action.create.injEq, List.not_mem_nil,
      or_false, reduceCtorEq, false_or] at hcreate
    rcases hcreate with ⟨rfl, -⟩ | ⟨rfl, -⟩
    · decide +kernel
    · rfl

namespace Sample

/-- A payment whose registration sent `1e400` for the account. -/
def infiniteParams : CreateParams := { params with personalAccount := .infinite false }

/-- One step, and a restart after it. -/
def stepAndLoad : List Solo.Action := [.step (timed 2 preparing), .load (timed 3 [.done])]

end Sample

/-- A job with an infinite account is not the same after a restart, also up to `updatedAt`: its
account has become `null`. -/
theorem infinite_account_changes :
    ∃ run₀ run run' job job',
      Solo.start Sample.infiniteParams (Sample.timed 1 Sample.creating) Sample.emptyState =
        some run₀ ∧
      Solo.drive (Sample.options Sample.tables) Sample.stepAndLoad run₀ = some run ∧
      Solo.drive (Sample.options Sample.tables)
        (Sample.stepAndLoad.map Solo.Action.uninterrupted) run₀ = some run' ∧
      run.works = true ∧ run.current = some job ∧ run'.current = some job' ∧
      { job with updatedAt := 0 } ≠ { job' with updatedAt := 0 } := by
  have hrun : (Solo.start Sample.infiniteParams (Sample.timed 1 Sample.creating)
      Sample.emptyState).bind (fun run₀ =>
        (Solo.drive (Sample.options Sample.tables) Sample.stepAndLoad run₀).bind fun run =>
          (Solo.drive (Sample.options Sample.tables)
            (Sample.stepAndLoad.map Solo.Action.uninterrupted) run₀).bind fun run' =>
              run.current.bind fun job => run'.current.map fun job' =>
                (run.works, job.personalAccount.finite, job'.personalAccount.finite)) =
      some (true, true, false) := by
    decide +kernel
  obtain ⟨run₀, hstart, hrun⟩ := Option.bind_eq_some_iff.mp hrun
  obtain ⟨run, hdrive, hrun⟩ := Option.bind_eq_some_iff.mp hrun
  obtain ⟨run', hdrive', hrun⟩ := Option.bind_eq_some_iff.mp hrun
  obtain ⟨job, hjob, hrun⟩ := Option.bind_eq_some_iff.mp hrun
  obtain ⟨job', hjob', hrun⟩ := Option.map_eq_some_iff.mp hrun
  simp only [Prod.mk.injEq] at hrun
  obtain ⟨hworks, hfinite, hinfinite⟩ := hrun
  refine ⟨run₀, run, run', job, job', hstart, hdrive, hdrive', hworks, hjob, hjob', fun hsame => ?_⟩
  have haccount : job.personalAccount = job'.personalAccount := congrArg (·.personalAccount) hsame
  rw [haccount, hinfinite] at hfinite
  cases hfinite

end OneSig.Executor
