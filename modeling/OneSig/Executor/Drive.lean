/-
# Driving one job

The caller of the pipeline: it creates a job for a payment and then steps it, saves it, drops it
and loads it back from disk, or creates it again, one call at a time and in any order.  The ticks
of the service are such a caller, and so is `resume`.  `drive` computes a whole session from what
the caller does and the answers it gets, and keeps a log of it: for every turn what was done, in
which state, which calls were made and how it ended.  The results about one job, here and in the
modules that import this one, are about such sessions.

A restart drops the object and gives another one, whatever its file holds: the job as it was saved
last, an older text when the last save was rejected, or nothing at all when the file is torn.

The first of the results is proved here: the state machine of a job.  The source reads
`job.abiEncodedRequest!`, `job.roundId!` and the like without a check, and relies on the order of
the states.  `Shaped` says which optional fields a job has in which state, and `Becomes` what a
job keeps when it becomes another; both are kept by each call, so they hold along every session,
with any number of failed calls and of restarts.  The job that is loaded is the one that was saved
up to what its file gives back of it (`Job.stored`), and `Becomes` is stated up to that.

* `act_acted`: what one action makes of the job and the files, from `runs_step` and `runs_create`.
* `Switched.shaped`, `Stepped.shaped`: one step; `Tracks.act`, `Tracks.drive`: one action and a
  session.
* `job_state_machine`: the fields the non-null assertions need, and forward moves from any moment
  on.
-/
import OneSig.Executor.Solo
import OneSig.Executor.Overlap

namespace OneSig.Executor

open OneSig Async ExecutorPipeline

namespace Solo

/-! ## 1. `load` and `create` on their own -/

/-- What `load` finds: nothing, or a job that its file holds. -/
inductive Found (s : St) (id : Str) : Option Ref → List Job → Prop
  | nothing : Found s id none s.mem.heap
  | job {job : Job} : s.world.jobs id = some (.whole job) →
      Found s id (some s.mem.heap.length) (s.mem.heap ++ [job.stored])

/-- What `create` returns: a job from disk, or a fresh one that has been saved. -/
inductive Created (s : St) (params : CreateParams) (id : Hex) :
    Ref → List Job → (Str → Option (Text Job)) → Prop
  | existing {job : Job} : s.world.jobs (id.drop 2) = some (.whole job) →
      Created s params id s.mem.heap.length (s.mem.heap ++ [job.stored]) s.world.jobs
  | fresh (now time : Int) {job : Job} : job = { params.job id now with updatedAt := time } →
      Created s params id s.mem.heap.length (s.mem.heap ++ [job])
        (Function.update s.world.jobs (id.drop 2) (some (.whole job)))

section Rules

variable {later : Int → Int → Prop} (hl : Clock later) (o : Options) {s : St}

include hl

theorem runs_newJob {job : Job} {Q : List Exchange → Except JsError Ref → St → Prop}
    (hQ : ∀ s', s'.mem.heap = s.mem.heap ++ [job] → s'.world.jobs = s.world.jobs →
      later s.mem.now s'.mem.now → Q [] (.ok s.mem.heap.length) s') :
    Runs later (newJob job) Q s := by
  unfold newJob
  refine alone_then (alone_gets ⟨rfl, _, rfl, ?_⟩)
  refine alone_then (alone_modify ⟨rfl, _, rfl, ?_⟩)
  exact alone_pure (hQ _ rfl rfl (hl.refl _))

theorem runs_load (id : Str) :
    Runs later (load id) (fun calls res s' => deeds o.viem calls = [] ∧
      s'.world.jobs = s.world.jobs ∧ later s.mem.now s'.mem.now ∧
      ∃ found, res = .ok found ∧ Found s id found s'.mem.heap) s := by
  unfold load
  refine alone_tryCatch (R := fun calls res s' => deeds o.viem calls = [] ∧
    s'.world.jobs = s.world.jobs ∧ later s.mem.now s'.mem.now ∧
    match res with
    | .ok found => Found s id found s'.mem.heap
    | .error _ => s'.mem.heap = s.mem.heap) ?_ ?_ ?_
  · refine alone_seq (runs_call rfl) ?_ ?_
    · rintro calls raw s₁ ⟨hb, c, t, rfl, w, hper⟩
      have hfile := perform_readJob hper
      refine alone_lift_seq (fun job hparse => ?_) fun e _ => ⟨rfl, hb.jobs, hb.now, hb.heap⟩
      obtain ⟨written, rfl, rfl⟩ := Text.parse_ok hparse
      refine alone_then (runs_newJob hl fun s₂ hheap hjobs hnow => ⟨rfl, _, rfl, ?_⟩)
      refine alone_pure ⟨rfl, hjobs.trans hb.jobs, hl.trans _ _ _ hb.now hnow, ?_⟩
      rw [hheap, hb.heap]
      exact .job hfile
    · rintro calls e s₁ ⟨hb, c, t, rfl, -⟩
      exact ⟨rfl, hb.jobs, hb.now, hb.heap⟩
  · rintro calls found s₁ ⟨hd, hjobs, hnow, hfound⟩
    exact ⟨hd, hjobs, hnow, found, rfl, hfound⟩
  · rintro calls e s₁ ⟨hd, hjobs, hnow, hheap⟩
    refine alone_pure ⟨by rw [List.append_nil, hd], hjobs, hnow, none, rfl, ?_⟩
    rw [hheap]
    exact .nothing

theorem runs_create (params : CreateParams) :
    Runs later (create params) (fun calls res s' => deeds o.viem calls = [] ∧
      later s.mem.now s'.mem.now ∧ ∀ r, res = .ok r → ∃ id,
        normalizeXrplTxId params.xrplTxId = .ok id ∧
        Created s params id r s'.mem.heap s'.world.jobs) s := by
  unfold create
  refine alone_lift_seq (fun id hid => ?_) fun e _ => ⟨rfl, hl.refl _, nofun⟩
  refine alone_seq (runs_load hl o _) ?_ ?_
  case refine_2 =>
    rintro calls e s₁ ⟨-, -, -, found, hfound, -⟩
    cases hfound
  rintro calls found s₁ ⟨hd, hjobs, hnow, found', hres, hfound⟩
  cases hres
  generalize hheap : s₁.mem.heap = heap at hfound
  cases hfound with
  | job hfile =>
    refine alone_pure ⟨by rw [List.append_nil, hd], hnow, ?_⟩
    rintro r hr
    cases hr
    exact ⟨id, hid, by rw [hheap, hjobs]; exact .existing hfile⟩
  | nothing =>
    refine alone_then (alone_gets ⟨rfl, _, rfl, ?_⟩)
    refine alone_then (runs_newJob hl fun s₂ hheap₂ hjobs₂ hnow₂ => ⟨rfl, _, rfl, ?_⟩)
    have hnow₂ := hl.trans _ _ _ hnow hnow₂
    have hr : s₂.mem.heap[s₁.mem.heap.length]? = some (params.job id s₁.mem.now) := by
      rw [hheap₂, List.getElem?_concat_length]
    refine alone_seq (runs_save hl o hr) ?_ ?_
    case refine_2 =>
      rintro calls' e s₃ ⟨hd', -, time, hnow₃, -, -⟩
      exact ⟨by rw [deeds_append, hd, hd']; rfl, hl.trans _ _ _ hnow₂ hnow₃, nofun⟩
    rintro calls' u s₃ ⟨hd', -, time, hnow₃, hheap₃, hfiles⟩
    refine alone_pure ⟨?_, hl.trans _ _ _ hnow₂ hnow₃, ?_⟩
    · rw [List.append_nil, deeds_append, hd, hd']
      rfl
    · rintro r hr
      cases hr
      refine ⟨id, hid, ?_⟩
      rw [hheap₂, hheap, List.set_append_right _ _ (Nat.le_refl _), Nat.sub_self] at hheap₃
      rw [hjobs₂, hjobs] at hfiles
      generalize hjobs₃ : s₃.world.jobs = files at hfiles ⊢
      cases hfiles with
      | written =>
        rw [hheap₃, hheap]
        exact .fresh s₁.mem.now time rfl

end Rules

/-! ## 2. Sessions -/

/-- What the caller does next; the answers are those of the calls this leads to. -/
inductive Action
  /-- Nothing, until the clock shows this. -/
  | wait (now : Int)
  | step (answers : List (Choice × Int))
  | save (answers : List (Choice × Int))
  /-- Drop the job and load it from disk. -/
  | load (answers : List (Choice × Int))
  /-- Drop the job and create it again, for the same transaction. -/
  | create (params : CreateParams) (answers : List (Choice × Int))

/-- The job object is dropped. -/
def Action.restarts : Action → Bool
  | .load _ | .create _ _ => true
  | _ => false

/-- An entry of the log: what was done, in which state and to which object, the calls it made,
and how it ended. -/
structure Turn where
  action : Action
  before : St
  job : Ref
  calls : List Exchange
  res : Except JsError (Option Ref)

/-- A session: its log, and where it has come to. -/
structure Session where
  log : List Turn
  st : St
  job : Ref

/-- All calls of a session. -/
def Session.calls (run : Session) : List Exchange := run.log.flatMap Turn.calls

/-- The current job. -/
def Session.current (run : Session) : Option Job := run.st.mem.heap[run.job]?

/-- The call an action makes: a restart gives another job, if there is one. -/
def Action.prog (o : Options) (r : Ref) (job : Job) : Action → Prog (Option Ref)
  | .wait now => do
    Prog.modify (clockTo now)
    return none
  | .step _ => do
    ExecutorPipeline.step o r
    return none
  | .save _ => do
    ExecutorPipeline.save r
    return none
  | .load _ => ExecutorPipeline.load job.id
  | .create params _ =>
    -- only for the same transaction
    if normalizeXrplTxId params.xrplTxId = .ok job.xrplTxId then do
      let r' ← ExecutorPipeline.create params
      return some r'
    else return none

def Action.answers : Action → List (Choice × Int)
  | .wait _ => []
  | .step answers | .save answers | .load answers | .create _ answers => answers

/-- Where an action leaves the session: a step or a save that throws leaves the job as it is; a
session ends when there is no job. -/
def Action.next (r : Ref) (a : Action) (res : Except JsError (Option Ref)) : Option Ref :=
  if a.restarts = true then
    match res with
    | .ok found => found
    | .error _ => none
  else some r

/-- One action. -/
def act (o : Options) (a : Action) (run : Session) : Option Session := do
  let job ← run.current
  let out ← exec clockTo (a.prog o run.job job) a.answers run.st
  let r ← a.next run.job out.res
  return ⟨run.log ++ [⟨a, run.st, run.job, out.calls, out.res⟩], out.st, r⟩

/-- A whole session. -/
def drive (o : Options) : List Action → Session → Option Session
  | [], run => some run
  | a :: script, run => (act o a run).bind (drive o script)

/-- A session begins with a job that has been created. -/
def start (params : CreateParams) (answers : List (Choice × Int)) (s : St) : Option Session :=
  (exec clockTo (ExecutorPipeline.create params) answers s).bind fun out =>
    match out.res with
    | .ok r => some ⟨[], out.st, r⟩
    | .error _ => none

/-! ## 3. What one action does -/

/-- What an action makes of the job and the files, and what it does outside. -/
inductive Acted (later : Int → Int → Prop) (now : Int) (job : Job)
    (files : Str → Option (Text Job)) : Action → List Deed → Job → (Str → Option (Text Job)) → Prop
  | waited (t : Int) : Acted later now job files (.wait t) [] job files
  | stepped {answers : List (Choice × Int)} {ds : List Deed} {e : Option JsError}
      {res : Except JsError Unit} {job' : Job} {files' : Str → Option (Text Job)} :
      Stepped later now job files ds e res job' files' →
      Acted later now job files (.step answers) ds job' files'
  | saved {answers : List (Choice × Int)} (time : Int) {res : Except JsError Unit}
      {files' : Str → Option (Text Job)} : Files files { job with updatedAt := time } res files' →
      Acted later now job files (.save answers) [] { job with updatedAt := time } files'
  | loaded {answers : List (Choice × Int)} {job' : Job} : files job.id = some (.whole job') →
      Acted later now job files (.load answers) [] job'.stored files
  | existing {params : CreateParams} {answers : List (Choice × Int)} {job' : Job} :
      normalizeXrplTxId params.xrplTxId = .ok job.xrplTxId →
      files (job.xrplTxId.drop 2) = some (.whole job') →
      Acted later now job files (.create params answers) [] job'.stored files
  | fresh {params : CreateParams} {answers : List (Choice × Int)} (now' time : Int) {job' : Job} :
      normalizeXrplTxId params.xrplTxId = .ok job.xrplTxId →
      job' = { params.job job.xrplTxId now' with updatedAt := time } →
      Acted later now job files (.create params answers) [] job'
        (Function.update files (job.xrplTxId.drop 2) (some (.whole job')))

section Act

variable {later : Int → Int → Prop} (hl : Clock later) {o : Options}

/-- A program that gives no other job. -/
theorem runs_keeping {p : Prog Unit} {s : St}
    {Q : List Exchange → Except JsError Unit → St → Prop} (hp : Runs later p Q s) :
    Runs later (do
      p
      return (none : Option Ref)) (fun calls _ s' => ∃ res, Q calls res s') s := by
  refine alone_seq hp ?_ ?_
  · rintro calls u s₁ hQ
    refine alone_pure ⟨.ok (), ?_⟩
    rw [List.append_nil]
    exact hQ
  · rintro calls e s₁ hQ
    exact ⟨.error e, hQ⟩

include hl

/-- The program of an action, and where it leaves the session. -/
theorem runs_action {a : Action} {s : St} {r : Ref} {job : Job} (hj : s.mem.heap[r]? = some job) :
    Runs later (a.prog o r job) (fun calls res s' => ∀ r', a.next r res = some r' →
      ∃ job', s'.mem.heap[r']? = some job' ∧
        Acted later s.mem.now job s.world.jobs a (deeds o.viem calls) job' s'.world.jobs ∧
        ((∃ t, a = .wait t ∧ s'.mem.now = t) ∨ later s.mem.now s'.mem.now)) s := by
  have hlt : r < s.mem.heap.length := (List.getElem?_eq_some_iff.mp hj).1
  cases a with
  | wait t =>
    refine alone_then (alone_modify ⟨rfl, _, rfl, alone_pure ?_⟩)
    rintro r' hr'
    cases hr'
    exact ⟨job, hj, .waited t, Or.inl ⟨t, rfl, rfl⟩⟩
  | step answers =>
    refine alone_mono (runs_keeping (runs_step hl o hj)) ?_
    rintro calls _ s' ⟨res, -, hnow, e, job', hheap, hstepped⟩ r' hr'
    cases hr'
    refine ⟨job', ?_, .stepped hstepped, Or.inr hnow⟩
    rw [hheap, List.getElem?_set_self hlt]
  | save answers =>
    refine alone_mono (runs_keeping (runs_save hl o hj)) ?_
    rintro calls _ s' ⟨res, hd, -, time, hnow, hheap, hfiles⟩ r' hr'
    cases hr'
    refine ⟨{ job with updatedAt := time }, ?_, ?_, Or.inr hnow⟩
    · rw [hheap, List.getElem?_set_self hlt]
    · rw [hd]
      exact .saved time hfiles
  | load answers =>
    refine alone_mono (runs_load hl o job.id) ?_
    rintro calls _ s' ⟨hd, hjobs, hnow, found, rfl, hfound⟩ r' hr'
    obtain rfl : found = some r' := hr'
    generalize hheap : s'.mem.heap = heap at hfound
    cases hfound with
    | job hfile =>
      refine ⟨_, List.getElem?_concat_length, ?_, Or.inr hnow⟩
      rw [hd, hjobs]
      exact .loaded hfile
  | create params answers =>
    by_cases hid : normalizeXrplTxId params.xrplTxId = .ok job.xrplTxId
    case neg =>
      simp only [Action.prog, if_neg hid]
      exact alone_pure nofun
    case pos =>
      simp only [Action.prog, if_pos hid]
      refine alone_seq (runs_create hl o params) ?_ ?_
      · rintro calls r' s' ⟨hd, hnow, hcreated⟩
        refine alone_pure ?_
        rintro r'' hr''
        cases hr''
        obtain ⟨id, hid', hcr⟩ := hcreated r' rfl
        obtain rfl := Except.ok.inj (hid.symm.trans hid')
        rw [List.append_nil, hd]
        generalize hheap : s'.mem.heap = heap at hcr
        generalize s'.world.jobs = files at hcr
        cases hcr with
        | existing hfile =>
          exact ⟨_, List.getElem?_concat_length, .existing hid hfile, Or.inr hnow⟩
        | fresh now time hjob =>
          exact ⟨_, List.getElem?_concat_length, .fresh now time hid hjob, Or.inr hnow⟩
      · rintro calls e s' -
        exact nofun

/-- **One action of a session**: it adds one turn to the log, in which the job and the files have
become what `Acted` says, and which the clock agrees with. -/
theorem act_acted {a : Action} {run run' : Session} (h : act o a run = some run') :
    ∃ job turn, run.current = some job ∧ run'.log = run.log ++ [turn] ∧ turn.action = a ∧
      turn.before = run.st ∧ turn.job = run.job ∧ ((∀ x ∈ turn.calls, Timed later x) →
        ∃ job', run'.current = some job' ∧
          Acted later run.st.mem.now job run.st.world.jobs a (deeds o.viem turn.calls) job'
            run'.st.world.jobs ∧
          ((∃ t, a = .wait t ∧ run'.st.mem.now = t) ∨
            later run.st.mem.now run'.st.mem.now)) := by
  unfold act at h
  obtain ⟨job, hj, h⟩ := Option.bind_eq_some_iff.mp h
  obtain ⟨out, hexec, h⟩ := Option.bind_eq_some_iff.mp h
  obtain ⟨r, hr, h⟩ := Option.bind_eq_some_iff.mp h
  cases h
  exact ⟨job, _, hj, rfl, rfl, rfl, rfl, fun htimed =>
    runs_action hl hj _ _ hexec htimed r hr⟩

end Act

/-! ## 4. The state machine of a job -/

/-- Which of the optional fields a job has. -/
def Shaped (job : Job) : Prop :=
  match job.state with
  | .observed => job.abiEncodedRequest = none ∧ job.roundId = none
  | .request_prepared => job.abiEncodedRequest.isSome = true ∧ job.roundId = none
  | .failed => True
  | _ => job.abiEncodedRequest.isSome = true ∧ job.roundId.isSome = true

/-- Jobs for the same thing are for the same thing when their files give them back. -/
theorem stored_core {job job' : Job} (h : job'.core = job.core) :
    job'.stored.core = job.stored.core := by
  simp only [Job.core, Prod.mk.injEq] at h
  obtain ⟨hid, htx, hdata, hvalue, haccount, hnonce⟩ := h
  simp only [Job.stored, Job.core, hid, htx, hdata, hvalue, haccount, hnonce]

/-- What a job keeps when it becomes another, also through its file. -/
structure Becomes (job job' : Job) : Prop where
  core : job'.stored.core = job.stored.core
  state : Forward job.state job'.state
  request : job.abiEncodedRequest.isSome = true → job'.abiEncodedRequest = job.abiEncodedRequest
  round : job.roundId.isSome = true → job'.roundId = job.roundId

theorem Becomes.refl (job : Job) : Becomes job job := ⟨rfl, .refl, fun _ => rfl, fun _ => rfl⟩

theorem Becomes.trans {job job' job'' : Job} (h : Becomes job job') (h' : Becomes job' job'') :
    Becomes job job'' := by
  refine ⟨h'.core.trans h.core, h.state.trans h'.state, fun hq => ?_, fun hn => ?_⟩
  · have hsame := h.request hq
    exact (h'.request (hsame ▸ hq)).trans hsame
  · have hsame := h.round hn
    exact (h'.round (hsame ▸ hn)).trans hsame

/-- A change of the state, and of fields that say nothing of the request. -/
theorem Becomes.of_state {job job' : Job} (hcore : job'.core = job.core)
    (hadv : Advances job.state job'.state) (hrequest : job'.abiEncodedRequest = job.abiEncodedRequest)
    (hround : job'.roundId = job.roundId) : Becomes job job' :=
  ⟨stored_core hcore, .single hadv, fun _ => hrequest, fun _ => hround⟩

/-- A job that goes through its file. -/
theorem Becomes.ofStored (job : Job) : Becomes job job.stored :=
  ⟨congrArg Job.core job.stored_stored, .refl, fun _ => rfl, fun _ => rfl⟩

theorem Shaped.of_same {job job' : Job} (h : Shaped job) (hstate : job'.state = job.state)
    (hrequest : job'.abiEncodedRequest = job.abiEncodedRequest) (hround : job'.roundId = job.roundId) :
    Shaped job' := by
  unfold Shaped
  rw [hstate, hrequest, hround]
  exact h

section Step

variable {later : Int → Int → Prop} {now : Int} {job job' : Job} {ds : List Deed}

/-- **The switch** keeps the shape: a branch that moves the job on has just set the fields that
the next state is to have, and leaves the others. -/
theorem Switched.shaped {res : Except JsError Flow} (hs : Shaped job)
    (h : Switched later now job ds res job') : Shaped job' ∧ Becomes job job' := by
  cases h with
  | returned => exact ⟨hs, .refl job⟩
  | prepared request hst =>
    simp only [Shaped, hst] at hs
    refine ⟨⟨rfl, hs.2⟩, stored_core rfl, .single (hst ▸ .next .prepared), ?_, fun _ => rfl⟩
    rw [hs.1]
    nofun
  | submitted ds roundId hst =>
    simp only [Shaped, hst] at hs
    refine ⟨⟨hs.1, rfl⟩, rfl, .single (hst ▸ .next .submitted), fun _ => rfl, ?_⟩
    rw [hs.2]
    nofun
  | finalized hst =>
    simp only [Shaped, hst] at hs
    exact ⟨hs, .of_state rfl (hst ▸ .next .finalized) rfl rfl⟩
  | fetched hst =>
    simp only [Shaped, hst] at hs
    exact ⟨hs, .of_state rfl (hst ▸ .next .fetched) rfl rfl⟩
  | resumed hst =>
    simp only [Shaped, hst] at hs
    exact ⟨hs, .of_state rfl (hst ▸ .next .resumed) rfl rfl⟩
  | executed time hash hst =>
    simp only [Shaped, hst] at hs
    exact ⟨hs, .of_state rfl (hst ▸ .next .executed) rfl rfl⟩
  | delayed time hash t res hst =>
    simp only [Shaped, hst] at hs
    exact ⟨hs, .of_state rfl (hst ▸ .next .delayed) rfl rfl⟩
  | threw ds e flareTxHash hn =>
    exact ⟨hs.of_same rfl rfl rfl, .of_state rfl (.refl _) rfl rfl⟩

/-- A switch that throws leaves a state that is not terminal. -/
theorem Switched.open_of_error {e : JsError} (h : Switched later now job ds (.error e) job') :
    job'.state.terminal = false := by
  cases h with
  | delayed => rfl
  | threw ds e flareTxHash hn => exact hn

theorem Ended.shaped {e : Option JsError} (hs : Shaped job) (h : Ended later now job ds e job') :
    Shaped job' ∧ Becomes job job' := by
  cases h with
  | moved hsw =>
    obtain ⟨hs', hb⟩ := hsw.shaped hs
    exact ⟨hs'.of_same rfl rfl rfl, hb.trans (.of_state rfl (.refl _) rfl rfl)⟩
  | lost hsw hst =>
    obtain ⟨hs', hb⟩ := hsw.shaped hs
    simp only [Shaped, hst] at hs'
    exact ⟨hs', hb.trans (.of_state rfl (hst ▸ .next .executed) rfl rfl)⟩
  | @counted e job₁ hsw =>
    obtain ⟨hs', hb⟩ := hsw.shaped hs
    have hmove := countAttempt_advances e hsw.open_of_error
    refine ⟨?_, hb.trans (.of_state hmove.core hmove.state rfl rfl)⟩
    by_cases hfail : retryable e = false ∧ 5 ≤ job₁.attempts + 1
    · simp only [Shaped, countAttempt, if_pos hfail]
    · refine hs'.of_same ?_ rfl rfl
      simp only [countAttempt, if_neg hfail]

/-- A file that parses after a save parsed before it, or holds what was saved. -/
theorem Files.old {files files' : Str → Option (Text Job)} {res : Except JsError Unit}
    (h : Files files job res files') {id : Str} {old : Job} (hold : files' id = some (.whole old)) :
    files id = some (.whole old) ∨ id = job.id ∧ old = job := by
  cases h with
  | written => exact whole_of_write (e := .full) hold
  | failed e part => exact whole_of_write hold

/-- **The step lemma**: a step keeps the shape and moves the job on, and a file that parses
afterwards parsed before or holds the job as it now is. -/
theorem Stepped.shaped {files files' : Str → Option (Text Job)} {e : Option JsError}
    {res : Except JsError Unit} (hs : Shaped job)
    (h : Stepped later now job files ds e res job' files') :
    Shaped job' ∧ Becomes job job' ∧ ∀ id old, files' id = some (.whole old) →
      files id = some (.whole old) ∨ id = job.id ∧ old = job' := by
  cases h with
  | idle => exact ⟨hs, .refl job, fun _ _ => Or.inl⟩
  | saved time hended hfiles =>
    obtain ⟨hs', hb⟩ := hended.shaped hs
    refine ⟨hs'.of_same rfl rfl rfl, hb.trans (.of_state rfl (.refl _) rfl rfl), ?_⟩
    intro id old hold
    rcases hfiles.old hold with h | ⟨rfl, rfl⟩
    · exact Or.inl h
    · exact Or.inr ⟨congrArg Prod.fst hb.core, rfl⟩

end Step

/-- The file of a job holds the text of the job as it is in memory. -/
def UpToDate (s : St) (r : Ref) : Prop :=
  ∃ job old, s.mem.heap[r]? = some job ∧ s.world.jobs job.id = some (.whole old) ∧
    old.stored = job.stored

/-- A job that has been written as it is. -/
theorem Files.upToDate {s s' : St} {r : Ref} {job : Job} (hr : r < s.mem.heap.length)
    (hheap : s'.mem.heap = s.mem.heap.set r job)
    (hfiles : Files s.world.jobs job (.ok ()) s'.world.jobs) : UpToDate s' r := by
  refine ⟨job, job, by rw [hheap, List.getElem?_set_self hr], ?_, rfl⟩
  generalize s'.world.jobs = files at hfiles
  cases hfiles
  exact Function.update_self ..

/-- A job that is loaded was saved as it was. -/
def Turn.RoundTrip (turn : Turn) : Prop :=
  match turn.action with
  | .load _ => UpToDate turn.before turn.job
  | .create _ _ => False
  | _ => True

/-- The session is about one transaction, and its job and the file of it are in shape. -/
structure Tracks (xrplTxId : Hex) (run : Session) (job : Job) : Prop where
  current : run.current = some job
  shaped : Shaped job
  tx : job.xrplTxId = xrplTxId
  id : job.id = xrplTxId.drop 2
  file : ∀ old, run.st.world.jobs (xrplTxId.drop 2) = some (.whole old) →
    Shaped old ∧ old.xrplTxId = xrplTxId ∧ old.id = xrplTxId.drop 2

section Session

variable {o : Options} {xrplTxId : Hex} {run run' : Session} {job : Job}

/-- The fields that tie a job to its transaction. -/
theorem Becomes.tied {job job' : Job} (h : Becomes job job') :
    job'.xrplTxId = job.xrplTxId ∧ job'.id = job.id :=
  ⟨congrArg (fun c => c.2.1) h.core, congrArg Prod.fst h.core⟩

theorem params_shaped (params : CreateParams) (id : Hex) (now time : Int) :
    Shaped { params.job id now with updatedAt := time } := ⟨rfl, rfl⟩

/-- **One action** keeps the shape; unless a stale file is loaded, the job goes on from what it
was. -/
theorem Tracks.act (h : Tracks xrplTxId run job) {a : Action} (hact : act o a run = some run') :
    ∃ job' turn, Tracks xrplTxId run' job' ∧ run'.log = run.log ++ [turn] ∧
      (turn.RoundTrip → Becomes job job') := by
  obtain ⟨job₀, turn, hj, hlog, rfl, hbefore, hturn, hacted⟩ := act_acted Clock.any hact
  obtain rfl : job = job₀ := Option.some.inj (h.current.symm.trans hj)
  obtain ⟨job', hcurrent, hacted, -⟩ := hacted fun _ _ => trivial
  refine ⟨job', turn, ?_, hlog, ?_⟩
  all_goals
    generalize hfiles' : run'.st.world.jobs = files' at hacted
    generalize hds : deeds o.viem turn.calls = ds at hacted
    generalize haction : turn.action = a at hacted
  · cases hacted with
    | waited => exact ⟨hcurrent, h.shaped, h.tx, h.id, hfiles' ▸ h.file⟩
    | stepped hstepped =>
      obtain ⟨hs, hb, hold⟩ := hstepped.shaped h.shaped
      obtain ⟨htx, hid⟩ := hb.tied
      refine ⟨hcurrent, hs, htx.trans h.tx, hid.trans h.id, fun old hfile => ?_⟩
      rcases hold _ old (hfiles' ▸ hfile) with hsame | ⟨-, rfl⟩
      · exact h.file old hsame
      · exact ⟨hs, htx.trans h.tx, hid.trans h.id⟩
    | saved time hsaved =>
      have hs : Shaped { job with updatedAt := time } := h.shaped.of_same rfl rfl rfl
      refine ⟨hcurrent, hs, h.tx, h.id, fun old hfile => ?_⟩
      rcases hsaved.old (hfiles' ▸ hfile) with hsame | ⟨-, rfl⟩
      · exact h.file old hsame
      · exact ⟨hs, h.tx, h.id⟩
    | @loaded _ old hfile =>
      obtain ⟨hs, htx, hid⟩ := h.file old (h.id ▸ hfile)
      exact ⟨hcurrent, hs.of_same rfl rfl rfl, htx, hid, hfiles' ▸ h.file⟩
    | @existing _ _ old hnorm hfile =>
      obtain ⟨hs, htx, hid⟩ := h.file old (h.tx ▸ hfile)
      exact ⟨hcurrent, hs.of_same rfl rfl rfl, htx, hid, hfiles' ▸ h.file⟩
    | fresh now time hnorm hjob =>
      have hs : Shaped job' := hjob ▸ params_shaped _ _ now time
      have htx : job'.xrplTxId = xrplTxId := by
        rw [hjob]
        exact h.tx
      have hid : job'.id = xrplTxId.drop 2 := by
        rw [hjob]
        exact congrArg (·.drop 2) h.tx
      refine ⟨hcurrent, hs, htx, hid, fun old hfile => ?_⟩
      rw [hfiles', h.tx, Function.update_self, Option.some.injEq, Text.whole.injEq] at hfile
      exact hfile ▸ ⟨hs, htx, hid⟩
  · intro hround
    rw [Turn.RoundTrip, haction, hbefore, hturn] at hround
    cases hacted with
    | waited => exact .refl job
    | stepped hstepped => exact (hstepped.shaped h.shaped).2.1
    | saved time hsaved => exact .of_state rfl (.refl _) rfl rfl
    | @loaded _ old hfile =>
      -- what was saved is what the file gives back
      obtain ⟨job₁, saved, hj₁, hsaved, hsame⟩ := hround
      obtain rfl : job = job₁ := Option.some.inj (hj.symm.trans hj₁)
      rw [hfile, Option.some.injEq, Text.whole.injEq] at hsaved
      rw [hsaved, hsame]
      exact .ofStored job
    | existing => exact hround.elim
    | fresh => exact hround.elim

/-- **A session** keeps the shape of its job, and without stale files its job only goes on. -/
theorem Tracks.drive (h : Tracks xrplTxId run job) {script : List Action}
    (hdrive : drive o script run = some run') :
    ∃ job' log, Tracks xrplTxId run' job' ∧ run'.log = run.log ++ log ∧
      ((∀ turn ∈ log, turn.RoundTrip) → Becomes job job') := by
  induction script generalizing run job with
  | nil =>
    cases hdrive
    exact ⟨job, [], h, (List.append_nil _).symm, fun _ => .refl job⟩
  | cons a script ih =>
    obtain ⟨run₁, hact, hrest⟩ := Option.bind_eq_some_iff.mp hdrive
    obtain ⟨job₁, turn, h₁, hlog₁, hb₁⟩ := h.act hact
    obtain ⟨job', log, h', hlog, hb⟩ := ih h₁ hrest
    refine ⟨job', turn :: log, h', ?_, fun hround => ?_⟩
    · rw [hlog, hlog₁, List.append_assoc]
      rfl
    · exact (hb₁ (hround turn (List.mem_cons_self ..))).trans
        (hb fun t ht => hround t (List.mem_cons_of_mem _ ht))

/-- A session that begins, with a payment that has no file yet. -/
theorem Tracks.start (o : Options) {params : CreateParams} {answers : List (Choice × Int)} {s : St}
    (hnone : ∀ id, normalizeXrplTxId params.xrplTxId = .ok id → s.world.jobs (id.drop 2) = none)
    (h : start params answers s = some run) :
    ∃ id job, normalizeXrplTxId params.xrplTxId = .ok id ∧ Tracks id run job := by
  obtain ⟨out, hexec, hout⟩ := Option.bind_eq_some_iff.mp h
  obtain ⟨-, -, hcreated⟩ := runs_create Clock.any o params answers out hexec fun _ _ => trivial
  cases hres : out.res with
  | error e =>
    rw [hres] at hout
    cases hout
  | ok r =>
    rw [hres] at hout
    cases hout
    obtain ⟨id, hid, hcr⟩ := hcreated r hres
    generalize hheap : out.st.mem.heap = heap at hcr
    generalize hjobs : out.st.world.jobs = files at hcr
    cases hcr with
    | existing hfile =>
      rw [hnone id hid] at hfile
      cases hfile
    | @fresh now time job hjob =>
      have hs : Shaped job := hjob ▸ params_shaped params id now time
      have htied : job.xrplTxId = id ∧ job.id = id.drop 2 := by
        rw [hjob]
        exact ⟨rfl, rfl⟩
      refine ⟨id, job, hid, ?_, hs, htied.1, htied.2, fun old hfile => ?_⟩
      · rw [Session.current, hheap]
        exact List.getElem?_concat_length
      · rw [hjobs, Function.update_self, Option.some.injEq, Text.whole.injEq] at hfile
        exact hfile ▸ ⟨hs, htied⟩

end Session

end Solo

/-- An executed or failed job stays what it is. -/
theorem Forward.of_terminal {st st' : JobState} (h : Forward st st') (hst : st.terminal = true) :
    st' = st := by
  induction h with
  | refl => rfl
  | tail _ hadv ih =>
    subst ih
    cases hadv with
    | refl => rfl
    | next hnext => exact absurd hst (by simp [hnext.not_terminal])
    | fail hopen => exact absurd hst (by simp [hopen])

/-- **The state machine of a job.**  However a job that is created for a payment is stepped,
saved, dropped and loaded again, it has the fields that the non-null assertions of `step` need;
and from any moment on, as long as it is loaded as it was saved, it only moves forward, stays
executed or failed once it is, and keeps what has been set. -/
theorem job_state_machine {o : Options} {params : CreateParams} {answers : List (Choice × Int)}
    {s : St} (hnone : ∀ id, normalizeXrplTxId params.xrplTxId = .ok id →
      s.world.jobs (id.drop 2) = none)
    {run₀ run : Solo.Session} (hstart : Solo.start params answers s = some run₀)
    {script : List Solo.Action} (hrun : Solo.drive o script run₀ = some run) :
    ∃ job, run.current = some job ∧
      (job.state ≠ .failed → JobState.rank .request_prepared ≤ job.state.rank →
        job.abiEncodedRequest.isSome = true) ∧
      (job.state ≠ .failed → JobState.rank .request_submitted ≤ job.state.rank →
        job.roundId.isSome = true) ∧
      ∀ script' run', Solo.drive o script' ⟨[], run.st, run.job⟩ = some run' →
        (∀ turn ∈ run'.log, turn.RoundTrip) → ∃ job', run'.current = some job' ∧
          job'.id = job.id ∧ job'.xrplTxId = job.xrplTxId ∧ job'.userOpData = job.userOpData ∧
          job'.totalCallValue = job.totalCallValue ∧
          (∀ request, job.abiEncodedRequest = some request →
            job'.abiEncodedRequest = some request) ∧
          (∀ roundId, job.roundId = some roundId → job'.roundId = some roundId) ∧
          Forward job.state job'.state ∧ JobState.NotBack job.state job'.state ∧
          (job.state.terminal = true → job'.state = job.state) := by
  obtain ⟨id, job₀, -, htracks₀⟩ := Solo.Tracks.start o hnone hstart
  obtain ⟨job, -, htracks, -⟩ := htracks₀.drive hrun
  have hshaped := htracks.shaped
  refine ⟨job, htracks.current, ?_, ?_, ?_⟩
  · intro hne hrank
    simp only [Solo.Shaped] at hshaped
    split at hshaped <;> simp_all [JobState.rank]
  · intro hne hrank
    simp only [Solo.Shaped] at hshaped
    split at hshaped <;> simp_all [JobState.rank]
  intro script' run' hrun' hround
  have hagain : Solo.Tracks id ⟨[], run.st, run.job⟩ job :=
    ⟨htracks.current, hshaped, htracks.tx, htracks.id, htracks.file⟩
  obtain ⟨job', log, htracks', hlog, hb⟩ := hagain.drive hrun'
  have hbecomes := hb ((List.nil_append log ▸ hlog) ▸ hround)
  have hcore := hbecomes.core
  simp only [Job.core, Prod.mk.injEq] at hcore
  obtain ⟨hid, htx, hdata, hvalue, -⟩ := hcore
  refine ⟨job', htracks'.current, hid, htx, hdata, hvalue, ?_, ?_, hbecomes.state,
    hbecomes.state.notBack, hbecomes.state.of_terminal⟩
  · intro request hrequest
    rw [hbecomes.request (hrequest ▸ rfl), hrequest]
  · intro roundId hround
    rw [hbecomes.round (hround ▸ rfl), hround]

/-! ## 5. A session from the creation to the mint -/

namespace Solo

variable {o : Options}

/-- A save on a disk that works makes the file up to date. -/
theorem act_save {answers : List (Choice × Int)} {run run' : Session}
    (h : act o (.save answers) run = some run')
    (hworks : ∀ turn ∈ run'.log, ∀ x ∈ turn.calls, works x = true) : UpToDate run'.st run'.job := by
  obtain ⟨job, hj, h⟩ := Option.bind_eq_some_iff.mp h
  obtain ⟨out, hexec, h⟩ := Option.bind_eq_some_iff.mp h
  obtain ⟨r, hr, h⟩ := Option.bind_eq_some_iff.mp h
  cases h
  cases hr
  have hsaved : Runs (fun _ _ => True) ((Action.save answers).prog o run.job job)
      (fun calls _ s' => (∀ x ∈ calls, works x = true) → UpToDate s' run.job) run.st := by
    refine alone_seq (runs_save .any o hj) ?_ ?_
    · rintro calls u s' ⟨-, -, time, -, hheap, hfiles⟩
      exact alone_pure fun _ => hfiles.upToDate (List.getElem?_eq_some_iff.mp hj).1 hheap
    · rintro calls e s' ⟨-, hok, -⟩ hcalls
      cases hok hcalls
  refine hsaved _ _ hexec (fun _ _ => trivial) fun x hx => ?_
  exact hworks _ (List.mem_append_right _ (List.mem_singleton_self _)) x hx

/-- The log of a session has its actions in order. -/
theorem drive_log {script : List Action} {run run' : Session} (h : drive o script run = some run') :
    ∃ log, run'.log = run.log ++ log ∧ log.map Turn.action = script := by
  induction script generalizing run with
  | nil =>
    cases h
    exact ⟨[], (List.append_nil _).symm, rfl⟩
  | cons a script ih =>
    obtain ⟨run₁, hact, hdrive⟩ := Option.bind_eq_some_iff.mp h
    obtain ⟨-, turn, -, hlog, haction, -⟩ := act_acted Clock.any hact
    obtain ⟨log, hrest, hscript⟩ := ih hdrive
    refine ⟨turn :: log, ?_, ?_⟩
    · rw [hrest, hlog, List.append_assoc, List.singleton_append]
    · rw [List.map_cons, haction, hscript]

end Solo

namespace Sample

/-- Answers that all come at one time. -/
def timed (now : Int) (cs : List Choice) : List (Choice × Int) := cs.map fun c => (c, now)

def params : CreateParams where
  xrplTxId := txId
  userOpData := userOpData
  totalCallValue := 5
  personalAccount := .null
  nonce := 7

/-- A process that has just started over empty directories. -/
def emptyState : St := ⟨Memory.boot 0, .fresh []⟩

/-- The job has been created. -/
def created : Option Solo.Session := Solo.start params (timed 1 creating) emptyState

/-- The first two steps, after which the fee has been paid, and a save. -/
def halfway : Option Solo.Session :=
  created.bind (Solo.drive (options tables) [.step (timed 2 preparing), .step (timed 3 submitting),
    .save (timed 4 [.done, .done])])

/-- The other three steps. -/
def threeSteps : List Solo.Action :=
  [.step (timed 6 finalizing), .save (timed 7 [.done, .done]), .step (timed 8 fetching),
    .step (timed 9 minting)]

/-- A restart, and these. -/
def onward (run : Solo.Session) : Option Solo.Session :=
  Solo.drive (options tables) (.load (timed 5 [.done]) :: threeSteps) ⟨[], run.st, run.job⟩

end Sample

/-- A job that is submitted and saved is loaded again by a new process, which executes it: it is
the same job, with the request and the round it had. -/
theorem job_state_machine_sample : ∃ run run' job job',
    Sample.halfway = some run ∧ Sample.onward run = some run' ∧ run.current = some job ∧
    run'.current = some job' ∧ job.state = .request_submitted ∧ job'.state = .executed ∧
    job'.id = job.id ∧ job.roundId.isSome = true ∧ job'.roundId = job.roundId ∧
    Forward job.state job'.state := by
  have hvalues : (Sample.halfway.bind fun run => (Sample.onward run).map fun run' =>
      (run.current.map Job.state, run'.current.map Job.state,
        run.log.all fun turn => turn.calls.all Solo.works)) =
      some (some .request_submitted, some .executed, true) := by
    decide +kernel
  obtain ⟨run, hhalfway, hvalues⟩ := Option.bind_eq_some_iff.mp hvalues
  obtain ⟨run', honward, hvalues⟩ := Option.map_eq_some_iff.mp hvalues
  simp only [Prod.mk.injEq, List.all_eq_true] at hvalues
  obtain ⟨hstate, hstate', hworks⟩ := hvalues
  obtain ⟨run₀, hstart, hdrive⟩ := Option.bind_eq_some_iff.mp hhalfway
  obtain ⟨job, hjob, -, hround, honwards⟩ := job_state_machine (fun _ _ => rfl) hstart hdrive
  -- the last of the three actions has written the file
  have hup : Solo.UpToDate run.st run.job := by
    obtain ⟨run₁, -, hdrive⟩ := Option.bind_eq_some_iff.mp hdrive
    obtain ⟨run₂, -, hdrive⟩ := Option.bind_eq_some_iff.mp hdrive
    obtain ⟨run₃, hsave, hdrive⟩ := Option.bind_eq_some_iff.mp hdrive
    cases hdrive
    exact Solo.act_save hsave hworks
  have htrips : ∀ turn ∈ run'.log, turn.RoundTrip := by
    obtain ⟨run₂, hload, hlater⟩ := Option.bind_eq_some_iff.mp honward
    obtain ⟨-, turn, -, hlog, haction, hbefore, hturn, -⟩ :=
      Solo.act_acted Solo.Clock.any hload
    obtain ⟨log, hlater, hscript⟩ := Solo.drive_log hlater
    intro turn' hmem
    rw [hlater, hlog, List.mem_append, List.nil_append, List.mem_singleton] at hmem
    rcases hmem with rfl | hmem
    · rw [Solo.Turn.RoundTrip, haction, hbefore, hturn]
      exact hup
    · have haction' : turn'.action ∈ Sample.threeSteps := hscript ▸ List.mem_map_of_mem hmem
      simp only [Sample.threeSteps, List.mem_cons, List.not_mem_nil, or_false] at haction'
      rcases haction' with h | h | h | h <;> simp only [Solo.Turn.RoundTrip, h]
  obtain ⟨job', hjob', hid, -, -, -, -, hkept, hforward, -⟩ := honwards _ run' honward htrips
  rw [hjob, Option.map_some, Option.some.injEq] at hstate
  rw [hjob', Option.map_some, Option.some.injEq] at hstate'
  have hround' : job.roundId.isSome = true := hround (by simp [hstate]) (by simp [hstate])
  obtain ⟨roundId, hroundId⟩ := Option.isSome_iff_exists.mp hround'
  exact ⟨run, run', job, job', hhalfway, honward, hjob, hjob', hstate, hstate', hid, hround',
    (hkept roundId hroundId).trans hroundId.symm, hforward⟩

end OneSig.Executor
