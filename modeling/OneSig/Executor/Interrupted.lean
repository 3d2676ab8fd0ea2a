/-
# A save that is cut off

`save` truncates the file and then writes it, so a crash in between leaves a prefix that does not
parse.  `load` takes every failure for "no job", and `create` makes a fresh one of that and saves
it.  So a job whose last save was cut off is lost by the next `create` for its payment, together
with the request that has been paid for.

When exactly that happens is settled here for one call of `create`: `runs_create_calls` lists the
calls it can make, and the rest follows from their answers.  The job survives if its file is read
whole, which it can be when the write never began or went through.  It also survives, in its file,
when `create` throws before it overwrites anything: the directory is refused, or the write of the
fresh job is rejected before the file is truncated (`interrupted_save_survives_iff`).

To survive is stated of both places in which the progress can be (`KeepsProgress`): what `create`
returns, if it returns, is the old or the new job as its file gives it back, and no call of it
overwrites the file.

`readsWhole` and `refused` look at the answers alone, so that the condition does not speak of what
`create` computes.  Answers of a kind a call does not take end the run early, and then there is
nothing to show.

* `Saving`, `Creating`: the calls of a save and of `create`, with what they end in.
* `Saving.refused_iff`, `Saving.error`: a save overwrites nothing exactly if it fails early
  enough.
* section 3: a save that went through, one that was cut off, and the job that starts over.
-/
import OneSig.Executor.Drive

namespace OneSig.Executor

open OneSig Async ExecutorPipeline

namespace Solo

/-! ## 1. The calls of `create` -/

/-- The call was rejected. -/
def Choice.failed : Choice → Bool
  | .fail _ _ => true
  | _ => false

/-- A rejected write that has not touched its file. -/
def Choice.spares : Choice → Bool
  | .fail _ .nothing => true
  | _ => false

/-- The exchange has truncated the file of a job, or written it. -/
def overwrites (x : Exchange) : Bool :=
  match x.op with
  | .writeJob _ _ => !Choice.spares x.choice
  | _ => false

/-- The calls of a save: without the directory there is no write. -/
inductive Saving : List Exchange → Except JsError Unit → Prop
  | noDirectory {x : Exchange} {e : JsError} : x.op = .mkdirState → Choice.failed x.choice = true →
      Saving [x] (.error e)
  | wrote {x y : Exchange} {id : Str} {job : Job} {res : Except JsError Unit} :
      x.op = .mkdirState → Choice.failed x.choice = false → y.op = .writeJob id job →
      (Choice.failed y.choice = false → res = .ok ()) →
      (Choice.failed y.choice = true → ∃ e, res = .error e) → Saving [x, y] res

/-- The calls of `create`: it reads a job, or saves a fresh one. -/
inductive Creating (s : St) (id : Str) : List Exchange → Except JsError Ref → List Job → Prop
  | read {x : Exchange} {job : Job} : x.op = .readJob id → Choice.failed x.choice = false →
      s.world.jobs id = some (.whole job) →
      Creating s id [x] (.ok s.mem.heap.length) (s.mem.heap ++ [job.stored])
  | made {x : Exchange} {calls : List Exchange} {saved : Except JsError Unit}
      {res : Except JsError Ref} {heap : List Job} : x.op = .readJob id →
      (Choice.failed x.choice = true ∨ ∀ job, s.world.jobs id ≠ some (.whole job)) →
      Saving calls saved → (∀ e, saved = .error e → res = .error e) →
      Creating s id (x :: calls) res heap

section Rules

variable {later : Int → Int → Prop} (hl : Clock later) {s : St} {r : Ref} {job : Job}

theorem not_failed_of_ok {op : Op} {c : Choice} {w w' : Outside} {a : Res op}
    (h : perform op c w = some (.ok a, w')) : Choice.failed c = false := by
  cases c with
  | fail e part => cases h
  | _ => rfl

include hl

theorem runs_save_calls (hj : s.mem.heap[r]? = some job) :
    Runs later (save r) (fun calls res _ => Saving calls res) s := by
  unfold save
  refine alone_then (alone_gets ⟨rfl, _, rfl, ?_⟩)
  refine alone_then (runs_update hl hj fun s₁ hs₁ => ⟨rfl, _, rfl, ?_⟩)
  have hj₁ := hs₁.get hj
  refine alone_then (runs_deref hj₁ ⟨rfl, _, rfl, ?_⟩)
  refine alone_seq (@runs_call later _ _ rfl) ?_ ?_
  case refine_2 =>
    rintro calls e s₂ ⟨-, c, t, rfl, w, hper⟩
    obtain ⟨part, rfl⟩ := perform_error rfl hper
    exact .noDirectory rfl rfl
  rintro calls _ s₂ ⟨hb, c, t, rfl, w, hper⟩
  have hj₂ := (Leaves.of_beside hj₁ hb).get hj₁
  refine alone_then (runs_deref hj₂ ⟨rfl, _, rfl, ?_⟩)
  refine alone_call ?_
  intro c' t' res w' _ hper'
  refine .wrote rfl (not_failed_of_ok hper) rfl (fun hc => ?_) fun hc => ?_
  · cases res with
    | ok u => rfl
    | error e =>
      obtain ⟨part, rfl⟩ := perform_error rfl hper'
      cases hc
  · cases res with
    | ok u => exact absurd hc (by simp [not_failed_of_ok hper'])
    | error e => exact ⟨e, rfl⟩

/-- What `load` reads: the job of a file that parses, or nothing. -/
theorem runs_load_calls (id : Str) :
    Runs later (load id) (fun calls res s' => ∃ x found, calls = [x] ∧ x.op = .readJob id ∧
      res = .ok found ∧ match found with
        | some r => Choice.failed x.choice = false ∧ r = s.mem.heap.length ∧
          ∃ job, s.world.jobs id = some (.whole job) ∧ s'.mem.heap = s.mem.heap ++ [job.stored]
        | none => Choice.failed x.choice = true ∨
          ∀ job, s.world.jobs id ≠ some (.whole job)) s := by
  unfold load
  refine alone_tryCatch (R := fun calls res s' => ∃ x, calls = [x] ∧ x.op = .readJob id ∧
    match res with
    | .ok found => Choice.failed x.choice = false ∧ found = some s.mem.heap.length ∧
      ∃ job, s.world.jobs id = some (.whole job) ∧ s'.mem.heap = s.mem.heap ++ [job.stored]
    | .error _ => Choice.failed x.choice = true ∨
      ∀ job, s.world.jobs id ≠ some (.whole job)) ?_ ?_ ?_
  · refine alone_seq (@runs_call later _ _ rfl) ?_ ?_
    · rintro calls raw s₁ ⟨hb, c, t, rfl, w, hper⟩
      have hfile := perform_readJob hper
      refine alone_lift_seq (fun job hparse => ?_) fun e hparse => ⟨_, rfl, rfl, Or.inr ?_⟩
      · obtain ⟨saved, rfl, rfl⟩ := Text.parse_ok hparse
        refine alone_then (runs_newJob hl fun s₂ hheap _ _ => ⟨rfl, _, rfl, ?_⟩)
        refine alone_pure ⟨_, rfl, rfl, not_failed_of_ok hper, by rw [hb.heap], saved, hfile, ?_⟩
        rw [hheap, hb.heap]
      · rintro job hwhole
        obtain rfl : raw = .whole job := Option.some.inj (hfile.symm.trans hwhole)
        cases hparse
    · rintro calls e s₁ ⟨-, c, t, rfl, w, hper⟩
      refine ⟨_, rfl, rfl, ?_⟩
      by_cases hc : Choice.failed c = true
      · exact Or.inl hc
      · -- a read that is not made to fail fails because there is no file
        refine Or.inr fun job hwhole => ?_
        cases c with
        | fail e' part => exact hc rfl
        | done =>
          simp only [perform, reply, readFile, hwhole] at hper
          cases hper
        | _ => cases hper
  · rintro calls found s₁ ⟨x, rfl, hop, hc, rfl, hjob⟩
    exact ⟨x, _, rfl, hop, rfl, hc, rfl, hjob⟩
  · rintro calls e s₁ ⟨x, rfl, hop, hnone⟩
    exact alone_pure ⟨x, none, rfl, hop, rfl, hnone⟩

theorem runs_create_calls {params : CreateParams} {id : Hex}
    (hid : normalizeXrplTxId params.xrplTxId = .ok id) :
    Runs later (create params) (fun calls res s' => Creating s (id.drop 2) calls res s'.mem.heap)
      s := by
  unfold create
  rw [hid]
  refine alone_lift_seq (fun id' hid' => ?_) nofun
  obtain rfl := Except.ok.inj hid'
  refine alone_seq (runs_load_calls hl _) ?_ ?_
  case refine_2 =>
    rintro calls e s₁ ⟨x, found, -, -, hres, -⟩
    cases hres
  rintro calls found s₁ ⟨x, found', rfl, hop, hres, hfound⟩
  cases hres
  cases found with
  | some r =>
    obtain ⟨hc, rfl, job, hfile, hheap⟩ := hfound
    refine alone_pure ?_
    rw [hheap]
    exact .read hop hc hfile
  | none =>
    refine alone_then (alone_gets ⟨rfl, _, rfl, ?_⟩)
    refine alone_then (runs_newJob hl fun s₂ hheap _ _ => ⟨rfl, _, rfl, ?_⟩)
    have hr : s₂.mem.heap[s₁.mem.heap.length]? = some (params.job id s₁.mem.now) := by
      rw [hheap, List.getElem?_concat_length]
    refine alone_seq (runs_save_calls hl hr) ?_ ?_
    · rintro calls' u s₃ hsaving
      refine alone_pure ?_
      rw [List.append_nil]
      exact .made hop hfound hsaving nofun
    · rintro calls' e s₃ hsaving
      refine .made hop hfound hsaving ?_
      rintro e' he
      cases he
      rfl

end Rules

/-! ## 2. Interrupted saves -/

/-- The outside when a save has been cut off after so much of the write. -/
def interrupted (e : Effect) (job : Job) (w : Outside) : Outside := effect e w (.writeJob job.id job)

/-- What was recorded before or after the interrupted save is returned, as the file gives it back,
if anything is, and the file is not overwritten. -/
structure KeepsProgress (old new : Job) (out : Outcome sig world Int Ref) : Prop where
  recorded : ∀ r, out.res = .ok r →
    out.st.mem.heap[r]? = some old.stored ∨ out.st.mem.heap[r]? = some new.stored
  untouched : ∀ x ∈ out.calls, overwrites x = false

/-- The first answer reads a whole file. -/
def readsWhole (e : Effect) : List (Choice × Int) → Bool
  | (c, _) :: _ => !Choice.failed c && e ≠ .torn
  | [] => false

/-- The directory is refused, or the write before it truncates the file. -/
def refused : List (Choice × Int) → Bool
  | _ :: (c, _) :: rest => Choice.failed c || match rest with
    | (c', _) :: _ => Choice.spares c'
    | [] => false
  | _ => false

section Kept

variable {old new : Job} {e : Effect} {w : Outside} {out : Outcome sig world Int Ref}

theorem readsWhole_cons (x : Exchange) (rest : List (Choice × Int)) :
    readsWhole e ((x.choice, x.drift) :: rest) = true ↔
      Choice.failed x.choice = false ∧ e ≠ .torn := by
  simp [readsWhole]

/-- A save that fails before the file is truncated overwrites nothing. -/
theorem Saving.refused_iff {calls : List Exchange} {res : Except JsError Unit}
    (h : Saving calls res) (x : Exchange) (rest : List (Choice × Int)) :
    refused ((x.choice, x.drift) :: (calls.map (fun x => (x.choice, x.drift)) ++ rest)) = true ↔
      ∀ y ∈ calls, overwrites y = false := by
  cases h with
  | @noDirectory y e hop hc => simp [refused, overwrites, hop, hc]
  | @wrote y z id job res hop hc hop' hok herr => simp [refused, overwrites, hop, hop', hc]

theorem Choice.failed_of_spares {c : Choice} (h : Choice.spares c = true) :
    Choice.failed c = true := by
  cases c <;> first | rfl | cases h

/-- A save that overwrites nothing has failed. -/
theorem Saving.error {calls : List Exchange} {res : Except JsError Unit} (h : Saving calls res)
    (hover : ∀ y ∈ calls, overwrites y = false) : ∃ e, res = .error e := by
  cases h with
  | noDirectory => exact ⟨_, rfl⟩
  | @wrote y z id job res hop hc hop' hok herr =>
    have hz := hover z (by simp)
    simp only [overwrites, hop', Bool.not_eq_false'] at hz
    exact herr (Choice.failed_of_spares hz)

/-- The file of a job after an interrupted save. -/
theorem interrupted_jobs (hold : w.jobs new.id = some (.whole old)) :
    (interrupted e new w).jobs new.id = match e with
      | .nothing => some (.whole old)
      | .torn => some .torn
      | .full => some (.whole new) := by
  simp only [interrupted, effect_writeJob, Function.update_self]
  cases e <;> first | exact hold | rfl

end Kept

end Solo

/-- **A job survives an interrupted save exactly if** its file is whole and is read, or the save
of the fresh job fails before it touches the file. -/
theorem interrupted_save_survives_iff {params : CreateParams} {id : Hex} {old new : Job}
    (hid : normalizeXrplTxId params.xrplTxId = .ok id) (hnew : new.id = id.drop 2) {w : Outside}
    (hold : w.jobs new.id = some (.whole old)) (e : Effect) {m : Memory}
    {answers : List (Choice × Int)} {out : Outcome sig world Int Ref}
    (hcreate : exec clockTo (ExecutorPipeline.create params) answers
      ⟨m, Solo.interrupted e new w⟩ = some out) :
    Solo.KeepsProgress old new out ↔
      Solo.readsWhole e answers = true ∨ Solo.refused answers = true := by
  have hcalls := Solo.runs_create_calls Solo.Clock.any hid answers out hcreate fun _ _ => trivial
  have hanswers := exec_answers hcreate
  have hfile := Solo.interrupted_jobs (e := e) hold
  obtain ⟨res, st, calls, rest⟩ := out
  dsimp only at hcalls hanswers
  rw [← hnew] at hcalls
  generalize hheap : st.mem.heap = heap at hcalls
  cases hcalls with
  | @read x job hop hc hwhole =>
    have hrecorded : e ≠ .torn ∧ (job.stored = old.stored ∨ job.stored = new.stored) := by
      dsimp only at hwhole
      rw [hfile] at hwhole
      cases e with
      | nothing =>
        cases hwhole
        exact ⟨nofun, Or.inl rfl⟩
      | torn => cases hwhole
      | full =>
        cases hwhole
        exact ⟨nofun, Or.inr rfl⟩
    refine iff_of_true ⟨?_, ?_⟩ (Or.inl ?_)
    · rintro r hr
      cases hr
      dsimp only at hheap ⊢
      rw [hheap, List.getElem?_concat_length, Option.some.injEq, Option.some.injEq]
      exact hrecorded.2
    · intro y hy
      obtain rfl := List.mem_singleton.mp hy
      rw [Solo.overwrites, hop]
    · rw [hanswers]
      exact (Solo.readsWhole_cons x rest).mpr ⟨hc, hrecorded.1⟩
  | @made x calls saved res heap hop hnone hsaving herror =>
    have hwhole : Solo.readsWhole e answers ≠ true := by
      rw [hanswers, List.map_cons, List.cons_append]
      rw [ne_eq, Solo.readsWhole_cons]
      rintro ⟨hc, he⟩
      rcases hnone with hfail | hnot
      · rw [hc] at hfail
        cases hfail
      · cases e with
        | nothing => exact hnot old hfile
        | torn => exact he rfl
        | full => exact hnot new hfile
    have hover : Solo.overwrites x = false := by
      rw [Solo.overwrites, hop]
    rw [or_iff_right hwhole, hanswers, List.map_cons, List.cons_append, hsaving.refused_iff]
    constructor
    · intro h y hy
      exact h.untouched y (List.mem_cons_of_mem _ hy)
    · intro h
      obtain ⟨e', he'⟩ := hsaving.error h
      refine ⟨fun r hr => ?_, ?_⟩
      · rw [herror e' he'] at hr
        cases hr
      · rintro y (- | ⟨-, hy⟩)
        · exact hover
        · exact h y hy

/-! ## 3. A job that starts over -/

namespace Sample

def paymentId : Hex := hexPrefix ++ txId

/-- The job of the payment, before and after its request has been submitted. -/
def jobPrepared : Job :=
  { params.job paymentId 1 with state := .request_prepared, abiEncodedRequest := some "0x08".toList }

def jobSubmitted : Job :=
  { jobPrepared with state := .request_submitted, roundId := some 10 }

/-- Its file is up to date. -/
def onDisk : Outside :=
  effect .full (.fresh []) (.writeJob jobPrepared.id jobPrepared)

/-- A job is prepared and its request is submitted, but the save after that is cut off. -/
def cutOff : List Solo.Action :=
  [.step (timed 2 preparing), .step (timed 3 (submitting.dropLast ++ [.fail (.error []) .torn]))]

/-- The state a file records; `some none` when it does not parse. -/
def recorded : Option (Text Job) → Option (Option JobState)
  | some (.whole job) => some (some job.state)
  | some .torn => some none
  | none => none

end Sample

/-- A save that went through, and one that was cut off, before the job is created again. -/
theorem interrupted_save_survives_iff_sample :
    (∃ out, exec clockTo (ExecutorPipeline.create Sample.params) (Sample.timed 9 Sample.creating)
        ⟨Memory.boot 8, Solo.interrupted .full Sample.jobSubmitted Sample.onDisk⟩ = some out ∧
      Solo.KeepsProgress Sample.jobPrepared Sample.jobSubmitted out) ∧
    ∃ out, exec clockTo (ExecutorPipeline.create Sample.params) (Sample.timed 9 Sample.creating)
        ⟨Memory.boot 8, Solo.interrupted .torn Sample.jobSubmitted Sample.onDisk⟩ = some out ∧
      ¬Solo.KeepsProgress Sample.jobPrepared Sample.jobSubmitted out := by
  have hid : normalizeXrplTxId Sample.params.xrplTxId = .ok Sample.paymentId := by decide +kernel
  have hrun : ∀ e, e ≠ .nothing → (exec (W := world) clockTo (ExecutorPipeline.create Sample.params)
      (Sample.timed 9 Sample.creating)
      ⟨Memory.boot 8, Solo.interrupted e Sample.jobSubmitted Sample.onDisk⟩).isSome = true := by
    rintro (- | - | -) he
    · exact absurd rfl he
    · decide +kernel
    · decide +kernel
  constructor
  · obtain ⟨out, hout⟩ := Option.isSome_iff_exists.mp (hrun .full nofun)
    exact ⟨out, hout, (interrupted_save_survives_iff hid rfl rfl .full hout).mpr (Or.inl rfl)⟩
  · obtain ⟨out, hout⟩ := Option.isSome_iff_exists.mp (hrun .torn nofun)
    refine ⟨out, hout, fun hkeeps => ?_⟩
    rcases (interrupted_save_survives_iff hid rfl rfl .torn hout).mp hkeeps with h | h <;> cases h

/-- A job whose request has been paid for is cut off in the save after that: `create` returns a
fresh job for the payment, and the file says so. -/
theorem interrupted_save_starts_over :
    ∃ run₁ run old new out, Sample.created.bind
        (Solo.drive (Sample.options Sample.tables) (Sample.cutOff.take 1)) = some run₁ ∧
      run₁.current = some old ∧ old.state = .request_prepared ∧
      Sample.recorded (run₁.st.world.jobs old.id) = some (some .request_prepared) ∧
      Sample.created.bind (Solo.drive (Sample.options Sample.tables) Sample.cutOff) = some run ∧
      run.current = some new ∧ new.state = .request_submitted ∧
      Sample.recorded (run.st.world.jobs old.id) = some none ∧
      exec clockTo (ExecutorPipeline.create Sample.params) (Sample.timed 9 Sample.creating)
        ⟨Memory.boot 8, run.st.world⟩ = some out ∧
      Sample.recorded (out.st.world.jobs old.id) = some (some .observed) ∧
      ¬Solo.KeepsProgress old new out := by
  have hbefore : (Sample.created.bind (Solo.drive (Sample.options Sample.tables)
      (Sample.cutOff.take 1))).bind (fun run => run.current.map fun job =>
        (job.id, job.state, Sample.recorded (run.st.world.jobs job.id))) =
      some (Sample.txId, .request_prepared, some (some .request_prepared)) := by
    decide +kernel
  have hafter : (Sample.created.bind (Solo.drive (Sample.options Sample.tables)
      Sample.cutOff)).bind (fun run => (run.current.map Job.state).bind fun state =>
        (exec clockTo (ExecutorPipeline.create Sample.params) (Sample.timed 9 Sample.creating)
          ⟨Memory.boot 8, run.st.world⟩).map fun out =>
            (state, Sample.recorded (run.st.world.jobs Sample.txId),
              Sample.recorded (out.st.world.jobs Sample.txId), out.calls.any Solo.overwrites)) =
      some (.request_submitted, some none, some (some .observed), true) := by
    decide +kernel
  obtain ⟨run₁, hrun₁, hbefore⟩ := Option.bind_eq_some_iff.mp hbefore
  obtain ⟨old, hold, hbefore⟩ := Option.map_eq_some_iff.mp hbefore
  obtain ⟨hid, hst, hfile⟩ := by simpa only [Prod.mk.injEq] using hbefore
  obtain ⟨run, hrun, hafter⟩ := Option.bind_eq_some_iff.mp hafter
  obtain ⟨state, hstate, hafter⟩ := Option.bind_eq_some_iff.mp hafter
  obtain ⟨new, hnew, rfl⟩ := Option.map_eq_some_iff.mp hstate
  obtain ⟨out, hout, hafter⟩ := Option.map_eq_some_iff.mp hafter
  obtain ⟨hst', htorn, hfresh, hover⟩ := by simpa only [Prod.mk.injEq] using hafter
  rw [hid] at hfile
  refine ⟨run₁, run, old, new, out, hrun₁, hold, hst, ?_, hrun, hnew, hst', ?_, hout, ?_, ?_⟩
  · rw [hid, hfile]
  · rw [hid, htorn]
  · rw [hid, hfresh]
  · intro hkeeps
    obtain ⟨x, hx, hxover⟩ := List.any_eq_true.mp hover
    rw [hkeeps.untouched x hx] at hxover
    cases hxover

end OneSig.Executor
