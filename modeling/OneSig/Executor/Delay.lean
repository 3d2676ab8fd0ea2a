/-
# Delayed mints

The asset manager may put off a mint until some second.  The receipt of the mint then carries an
event with that time and nothing is minted; `step` records the time in the job, and goes on only
when it has come.  The next attempt fetches the same proof again from the DA layer, with the
request and the round that the job has kept, and no second attestation is requested.

`Watch` is what an observer of the deeds of a job remembers, the newest delay and the first proof,
and `Disciplined` what it accepts: no mint before the newest delay is over, one and the same
proof, and no request for another.  `Heeds` ties its memory to the job: as long as a proof can
have been fetched, the job has the arguments of that proof, and as long as the mint is still to
come, it has the delay.

The time is kept in memory and in the file, and the step that records it saves the job.  But a
step that finds the job delayed returns without a save.  So if the save after the receipt has
failed, the file still reads `proof_fetched` with no delay; a job loaded from it does not wait
(`unsaved_delay_is_forgotten`), although every transition is meant to be persisted before `step`
returns.  The discipline therefore holds in the sessions in which a restart reads the job as it
was in memory (`delay_discipline`), which every session on a working disk is
(`fromDisk_of_works`).

* `Switched.disciplined`, `Stepped.disciplined`: one step.  `act_disciplined`,
  `drive_disciplined`: one action and a session.
-/
import OneSig.Executor.Restart

namespace OneSig.Executor

open OneSig Async ExecutorPipeline

namespace Solo

/-! ## 1. What is observed -/

/-- What an observer of a job remembers. -/
structure Watch where
  /-- The last transaction is a mint. -/
  minting : Bool := false
  /-- The newest delay, in seconds. -/
  delay : Option Int := none
  /-- What the proof has been asked for with. -/
  proof : Option (Option Int × Option Hex) := none

/-- The deed is no breach of discipline. -/
def Watch.allows (w : Watch) : Deed → Prop
  | .requestAttestation _ => w.proof = none
  | .fetchProof roundId request => ∀ proof ∈ w.proof, proof = (roundId, request)
  | .mint time => ∀ t ∈ w.delay, t * 1000 ≤ time
  | .delayed _ => True

instance (w : Watch) : (d : Deed) → Decidable (w.allows d)
  | .requestAttestation _ => inferInstanceAs (Decidable (w.proof = none))
  | .fetchProof roundId request =>
    inferInstanceAs (Decidable (∀ proof ∈ w.proof, proof = (roundId, request)))
  | .mint time => inferInstanceAs (Decidable (∀ t ∈ w.delay, t * 1000 ≤ time))
  | .delayed _ => inferInstanceAs (Decidable True)

/-- A receipt that reports a delay counts if it is that of a mint. -/
def Watch.observe (w : Watch) : Deed → Watch
  | .requestAttestation _ => { w with minting := false }
  | .fetchProof roundId request => { w with minting := false, proof := some (roundId, request) }
  | .mint _ => { w with minting := true }
  | .delayed t => if w.minting = true then { w with minting := false, delay := some t } else w

/-- **Discipline**: after a delay there is no mint before it is over, until a newer delay
replaces it; every proof is fetched with the same arguments, and after the first one no
attestation is requested. -/
def Disciplined (w : Watch) : List Deed → Prop
  | [] => True
  | d :: ds => w.allows d ∧ Disciplined (w.observe d) ds

instance decidableDisciplined : (w : Watch) → (ds : List Deed) → Decidable (Disciplined w ds)
  | _, [] => inferInstanceAs (Decidable True)
  | w, d :: ds =>
    have := decidableDisciplined (w.observe d) ds
    inferInstanceAs (Decidable (w.allows d ∧ Disciplined (w.observe d) ds))

theorem disciplined_append {w : Watch} {ds ds' : List Deed} :
    Disciplined w (ds ++ ds') ↔
      Disciplined w ds ∧ Disciplined (ds.foldl Watch.observe w) ds' := by
  induction ds generalizing w with
  | nil => simp [Disciplined]
  | cons d ds ih => simp only [List.cons_append, Disciplined, List.foldl_cons, ih, and_assoc]

/-! ## 2. What the job remembers of it -/

/-- A proof can have been fetched in this state. -/
def proven : JobState → Bool
  | .observed | .request_prepared | .request_submitted => false
  | _ => true

/-- The job remembers what the observer does. -/
structure Heeds (w : Watch) (job : Job) (now : Int) : Prop where
  proof : ∀ proof ∈ w.proof,
    proof = (job.roundId, job.abiEncodedRequest) ∧ proven job.state = true
  delay : ∀ t ∈ w.delay, match job.state with
    | .delayed => job.executionAllowedAt = some (t * 1000)
    | .proof_fetched => t * 1000 ≤ now
    | .executed | .failed => True
    | _ => False

section Heeds

variable {w : Watch} {job job' : Job} {now now' : Int} {ds : List Deed}

theorem Heeds.later (h : Heeds w job now) (hnow : now ≤ now') : Heeds w job now' := by
  refine ⟨h.proof, fun t ht => ?_⟩
  have hd := h.delay t ht
  revert hd
  cases job.state <;> first | exact fun hd => hd | exact fun hd => Int.le_trans hd hnow

/-- A job with the same fields, as far as a delay is concerned. -/
theorem Heeds.of_same (h : Heeds w job now) (hstate : job'.state = job.state)
    (hrequest : job'.abiEncodedRequest = job.abiEncodedRequest) (hround : job'.roundId = job.roundId)
    (hallowed : job'.executionAllowedAt = job.executionAllowedAt) : Heeds w job' now := by
  constructor
  · rw [hstate, hrequest, hround]
    exact h.proof
  · rw [hstate, hallowed]
    exact h.delay

/-- A job that has ended need not remember the delay. -/
theorem Heeds.of_terminal (h : Heeds w job now) (hstate : job'.state.terminal = true)
    (hrequest : job'.abiEncodedRequest = job.abiEncodedRequest)
    (hround : job'.roundId = job.roundId) : Heeds w job' now := by
  constructor
  · intro proof hproof
    rw [hrequest, hround]
    refine ⟨(h.proof proof hproof).1, ?_⟩
    cases hst : job'.state <;> first | rfl | simp [hst, JobState.terminal] at hstate
  · intro t _
    cases hst : job'.state <;> first | trivial | simp [hst, JobState.terminal] at hstate

/-- An observer that has seen neither a proof nor a delay. -/
theorem Heeds.blank (hproof : w.proof = none) (hdelay : w.delay = none) : Heeds w job now := by
  constructor
  · rw [hproof]
    nofun
  · rw [hdelay]
    nofun

/-- Before the round is finalized there is nothing to remember. -/
theorem Heeds.unproven (h : Heeds w job now) (hst : proven job.state = false) :
    w.proof = none ∧ w.delay = none := by
  constructor
  · cases hp : w.proof with
    | none => rfl
    | some proof => exact absurd (h.proof proof hp).2 (by simp [hst])
  · cases hd : w.delay with
    | none => rfl
    | some t =>
      have hf := h.delay t hd
      cases hs : job.state <;> rw [hs] at hf hst <;> first | exact hf.elim | cases hst

/-- The proof is fetched with the job's arguments. -/
theorem Heeds.fetch (h : Heeds w job now) (hst : proven job.state = true) :
    w.allows (.fetchProof job.roundId job.abiEncodedRequest) ∧
      Heeds (w.observe (.fetchProof job.roundId job.abiEncodedRequest)) job now := by
  refine ⟨fun proof hproof => (h.proof proof hproof).1, ?_, h.delay⟩
  intro proof hproof
  cases hproof
  exact ⟨rfl, hst⟩

/-- The delay of a job that has its proof is over. -/
theorem Heeds.mint (h : Heeds w job now) (hst : job.state = .proof_fetched) {time : Int}
    (htime : now ≤ time) :
    w.allows (.mint time) ∧ Heeds (w.observe (.mint time)) job now := by
  refine ⟨fun t ht => ?_, h.proof, h.delay⟩
  have hover := h.delay t ht
  rw [hst] at hover
  exact Int.le_trans hover htime

/-- A new request, as long as there has been no proof. -/
theorem Submits.disciplined {request : Option Hex} (h : Submits request ds) (hproof : w.proof = none)
    (hdelay : w.delay = none) : Disciplined w ds ∧
      (ds.foldl Watch.observe w).proof = none ∧ (ds.foldl Watch.observe w).delay = none := by
  cases h with
  | nothing => exact ⟨trivial, hproof, hdelay⟩
  | sent => exact ⟨⟨hproof, trivial⟩, hproof, hdelay⟩
  | noted t => exact ⟨⟨hproof, trivial, trivial⟩, hproof, hdelay⟩

/-- What a step does before it throws. -/
theorem Tries.disciplined (htries : Tries (· ≤ ·) now job ds) (h : Heeds w job now) :
    Disciplined w ds ∧ Heeds (ds.foldl Watch.observe w) job now := by
  unfold Tries at htries
  split at htries
  case h_1 hst =>
    obtain ⟨hproof, hdelay⟩ := h.unproven (hst ▸ rfl)
    obtain ⟨hd, hproof', hdelay'⟩ := htries.disciplined hproof hdelay
    exact ⟨hd, .blank hproof' hdelay'⟩
  case h_2 hst =>
    subst htries
    obtain ⟨hallows, h'⟩ := h.fetch (hst ▸ rfl)
    exact ⟨⟨hallows, trivial⟩, h'⟩
  case h_3 hst =>
    obtain ⟨hallows, h'⟩ := h.fetch (hst ▸ rfl)
    rcases htries with rfl | ⟨time, htime, rfl⟩
    · exact ⟨⟨hallows, trivial⟩, h'⟩
    · obtain ⟨hallows', h''⟩ := h'.mint hst htime
      exact ⟨⟨hallows, hallows', trivial⟩, h''⟩
  case h_4 =>
    subst htries
    exact ⟨trivial, h⟩

/-- **The switch** keeps discipline: no branch of it mints before the delay is over or asks for
another proof, and afterwards the job remembers what was observed. -/
theorem Switched.disciplined {res : Except JsError Flow} (h : Heeds w job now) (hnow : 0 ≤ now)
    (hsw : Switched (· ≤ ·) now job ds res job') :
    Disciplined w ds ∧ Heeds (ds.foldl Watch.observe w) job' now := by
  cases hsw with
  | returned => exact ⟨trivial, h⟩
  | prepared request hst =>
    obtain ⟨hproof, hdelay⟩ := h.unproven (hst ▸ rfl)
    exact ⟨trivial, .blank hproof hdelay⟩
  | submitted ds roundId hst hsub =>
    obtain ⟨hproof, hdelay⟩ := h.unproven (hst ▸ rfl)
    obtain ⟨hd, hproof', hdelay'⟩ := hsub.disciplined hproof hdelay
    exact ⟨hd, .blank hproof' hdelay'⟩
  | finalized hst =>
    obtain ⟨hproof, hdelay⟩ := h.unproven (hst ▸ rfl)
    exact ⟨trivial, .blank hproof hdelay⟩
  | fetched hst =>
    obtain ⟨hallows, h'⟩ := h.fetch (hst ▸ rfl)
    refine ⟨⟨hallows, trivial⟩, fun proof hproof => ⟨(h'.proof proof hproof).1, rfl⟩, ?_⟩
    intro t ht
    have hnever := h'.delay t ht
    rw [hst] at hnever
    exact hnever.elim
  | resumed hst hover =>
    refine ⟨trivial, fun proof hproof => ⟨(h.proof proof hproof).1, rfl⟩, fun t ht => ?_⟩
    have hallowed := h.delay t ht
    rw [hst] at hallowed
    -- a delay until 1970 is none to the code
    simp only [stillDelayed, hallowed, Bool.and_eq_false_iff, decide_eq_false_iff_not] at hover
    rcases hover with hzero | hlate
    · dsimp only
      omega
    · exact Int.not_lt.mp hlate
  | executed time hash hst htime =>
    obtain ⟨hallows, h'⟩ := h.fetch (hst ▸ rfl)
    obtain ⟨hallows', h''⟩ := h'.mint hst htime
    exact ⟨⟨hallows, hallows', trivial⟩, h''.of_terminal rfl rfl rfl⟩
  | delayed time hash t res hst htime hres =>
    obtain ⟨hallows, h'⟩ := h.fetch (hst ▸ rfl)
    obtain ⟨hallows', h''⟩ := h'.mint hst htime
    refine ⟨⟨hallows, hallows', trivial, trivial⟩, fun proof hproof => ?_, fun t' ht' => ?_⟩
    · exact ⟨(h''.proof proof hproof).1, rfl⟩
    · cases ht'
      rfl
  | threw ds e flareTxHash hst htries =>
    obtain ⟨hd, h'⟩ := htries.disciplined h
    exact ⟨hd, h'.of_same rfl rfl rfl rfl⟩

theorem Ended.disciplined {e : Option JsError} (h : Heeds w job now) (hnow : 0 ≤ now)
    (hended : Ended (· ≤ ·) now job ds e job') :
    Disciplined w ds ∧ Heeds (ds.foldl Watch.observe w) job' now := by
  cases hended with
  | moved hsw =>
    obtain ⟨hd, h'⟩ := hsw.disciplined h hnow
    exact ⟨hd, h'.of_same rfl rfl rfl rfl⟩
  | lost hsw hst =>
    obtain ⟨hd, h'⟩ := hsw.disciplined h hnow
    exact ⟨hd, h'.of_terminal rfl rfl rfl⟩
  | @counted e job₁ hsw =>
    obtain ⟨hd, h'⟩ := hsw.disciplined h hnow
    refine ⟨hd, ?_⟩
    by_cases hfail : retryable e = false ∧ 5 ≤ job₁.attempts + 1
    · refine h'.of_terminal ?_ rfl rfl
      simp only [countAttempt, if_pos hfail]
      rfl
    · refine h'.of_same ?_ rfl rfl rfl
      simp only [countAttempt, if_neg hfail]

/-- **The step lemma**: a whole step keeps discipline as the switch does, since counting a failed
attempt and saving are not observed. -/
theorem Stepped.disciplined {files files' : Str → Option (Text Job)} {e : Option JsError}
    {res : Except JsError Unit} (h : Heeds w job now) (hnow : 0 ≤ now)
    (hstepped : Stepped (· ≤ ·) now job files ds e res job' files') :
    Disciplined w ds ∧ Heeds (ds.foldl Watch.observe w) job' now := by
  cases hstepped with
  | idle => exact ⟨trivial, h⟩
  | saved time hended hfiles =>
    obtain ⟨hd, h'⟩ := hended.disciplined h hnow
    exact ⟨hd, h'.of_same rfl rfl rfl rfl⟩

end Heeds

/-! ## 3. Sessions -/

/-- The time an action waits for. -/
def Action.until : Action → Option Int
  | .wait t => some t
  | _ => none

/-- The clock is not set back. -/
def Turn.Timely (turn : Turn) : Prop :=
  (∀ x ∈ turn.calls, x.before.mem.now ≤ x.drift) ∧
    ∀ t ∈ turn.action.until, turn.before.mem.now ≤ t

/-- A restart reads the job as it was in memory. -/
def Turn.FromDisk (turn : Turn) : Prop :=
  turn.action.restarts = true →
    UpToDate turn.before turn.job ∧ turn.action.readAt.isSome = true

instance (turn : Turn) : Decidable turn.Timely :=
  inferInstanceAs (Decidable ((∀ x ∈ turn.calls, x.before.mem.now ≤ x.drift) ∧
    ∀ t ∈ turn.action.until, turn.before.mem.now ≤ t))

section Session

variable {o : Options} {xrplTxId : Hex} {account : Json} {run run' : Session} {job : Job}
  {w : Watch}

theorem start_log {params : CreateParams} {answers : List (Choice × Int)} {s : St}
    (h : start params answers s = some run) : run.log = [] := by
  obtain ⟨out, -, hout⟩ := Option.bind_eq_some_iff.mp h
  split at hout
  · cases hout
    rfl
  · cases hout

/-- A restart of a session that goes on is for its transaction. -/
theorem create_same {params : CreateParams} {answers : List (Choice × Int)}
    (hjob : run.current = some job) (hact : act o (.create params answers) run = some run') :
    normalizeXrplTxId params.xrplTxId = .ok job.xrplTxId := by
  by_contra hne
  simp only [act, hjob, Action.prog, if_neg hne, Option.bind_eq_bind, Option.bind_some] at hact
  cases hact

/-- **A restart** that reads the job as it was in memory does nothing that is observed, and the
session goes on with the same job. -/
theorem restart_heeds (htracks : Tracks xrplTxId run job) {a : Action} (ha : a.restarts = true)
    (hact : act o a run = some run') {turn : Turn} (hlog : run'.log = run.log ++ [turn])
    (htimely : turn.Timely) (hdisk : turn.FromDisk) :
    run'.current = some job.stored ∧ deeds o.viem turn.calls = [] ∧
      run.st.mem.now ≤ run'.st.mem.now := by
  obtain ⟨job₀, turn₀, hj, hlog₀, haction, hbefore, hturn, -⟩ := act_acted Clock.any hact
  obtain rfl : turn = turn₀ := by
    rw [hlog, List.append_right_inj] at hlog₀
    exact (List.cons.inj hlog₀).1
  obtain ⟨⟨job₁, old, hj₁, hfile, hsame⟩, hread⟩ := hdisk (haction ▸ ha)
  rw [haction] at hread
  obtain ⟨t, ht⟩ := Option.isSome_iff_exists.mp hread
  rw [hbefore, hturn] at hj₁
  rw [hbefore] at hfile
  obtain rfl : job = job₁ := Option.some.inj (htracks.current.symm.trans hj₁)
  have htx : job.id = job.xrplTxId.drop 2 := by rw [htracks.id, htracks.tx]
  have hexact := act_restart (o := o) ht htracks.current htx
    (fun p as hcreate => create_same htracks.current (hcreate ▸ hact)) ⟨old, hfile, hsame⟩
  cases hact.symm.trans hexact
  obtain rfl := (List.cons.inj (List.append_cancel_left hlog)).1
  refine ⟨List.getElem?_concat_length, rfl, ?_⟩
  exact htimely.1 _ (List.mem_singleton.mpr rfl)

/-- **One action** keeps discipline, be it a step, a save, a wait or a restart that reads the job
as it was in memory. -/
theorem act_disciplined (htracks : Tracks xrplTxId run job) (hnow : 0 ≤ run.st.mem.now)
    (h : Heeds w job run.st.mem.now) {a : Action} (hact : act o a run = some run') {turn : Turn}
    (hlog : run'.log = run.log ++ [turn]) (htimely : turn.Timely) (hdisk : turn.FromDisk) :
    0 ≤ run'.st.mem.now ∧ Disciplined w (deeds o.viem turn.calls) ∧
      ∃ job', Tracks xrplTxId run' job' ∧
        Heeds ((deeds o.viem turn.calls).foldl Watch.observe w) job' run'.st.mem.now := by
  obtain ⟨job', -, htracks', -, -⟩ := htracks.act hact
  by_cases ha : a.restarts = true
  · obtain ⟨hcurrent, hdeeds, hlater⟩ := restart_heeds htracks ha hact hlog htimely hdisk
    obtain rfl : job.stored = job' := Option.some.inj (hcurrent.symm.trans htracks'.current)
    have hstored : Heeds w job.stored run.st.mem.now := h.of_same rfl rfl rfl rfl
    rw [hdeeds]
    exact ⟨Int.le_trans hnow hlater, trivial, job.stored, htracks', hstored.later hlater⟩
  · obtain ⟨job₀, turn₀, hj, hlog₀, haction, hbefore, -, hacted⟩ := act_acted Clock.le hact
    obtain rfl : turn = turn₀ := (List.cons.inj (List.append_cancel_left (hlog.symm.trans hlog₀))).1
    obtain rfl : job = job₀ := Option.some.inj (htracks.current.symm.trans hj)
    obtain ⟨job₁, hcurrent, hacted, hclock⟩ := hacted htimely.1
    obtain rfl : job' = job₁ := Option.some.inj (htracks'.current.symm.trans hcurrent)
    have hlater : run.st.mem.now ≤ run'.st.mem.now := by
      rcases hclock with ⟨t, rfl, rfl⟩ | hlater
      · exact hbefore ▸ htimely.2 _ (haction ▸ rfl)
      · exact hlater
    refine ⟨Int.le_trans hnow hlater, ?_⟩
    generalize run'.st.world.jobs = files' at hacted
    generalize deeds o.viem turn.calls = ds at hacted ⊢
    cases hacted with
    | waited => exact ⟨trivial, job, htracks', h.later hlater⟩
    | stepped hstepped =>
      obtain ⟨hd, h'⟩ := hstepped.disciplined h hnow
      exact ⟨hd, job', htracks', h'.later hlater⟩
    | saved time =>
      have h' : Heeds w { job with updatedAt := time } run.st.mem.now := h.of_same rfl rfl rfl rfl
      exact ⟨trivial, _, htracks', h'.later hlater⟩
    | loaded => exact absurd rfl ha
    | existing => exact absurd rfl ha
    | fresh => exact absurd rfl ha

/-- **A session** keeps discipline, by induction over what the caller does, as long as the clock
is not set back and no stale file is read. -/
theorem drive_disciplined (htracks : Tracks xrplTxId run job) (hnow : 0 ≤ run.st.mem.now)
    (h : Heeds w job run.st.mem.now) {script : List Action}
    (hdrive : drive o script run = some run') {log : List Turn} (hlog : run'.log = run.log ++ log)
    (htimely : ∀ turn ∈ log, turn.Timely) (hdisk : ∀ turn ∈ log, turn.FromDisk) :
    Disciplined w (deeds o.viem (log.flatMap Turn.calls)) := by
  induction script generalizing run job w log with
  | nil =>
    cases hdrive
    obtain rfl := List.append_right_eq_self.mp hlog.symm
    trivial
  | cons a script ih =>
    obtain ⟨run₁, hact, hrest⟩ := Option.bind_eq_some_iff.mp hdrive
    obtain ⟨job₁, turn, htracks₁, hlog₁, -⟩ := htracks.act hact
    obtain ⟨-, log', -, hlog', -⟩ := htracks₁.drive hrest
    obtain rfl : log = turn :: log' := by
      rw [hlog', hlog₁, List.append_assoc] at hlog
      exact (List.append_cancel_left hlog).symm
    obtain ⟨hnow', hd, job', htracks', h'⟩ := act_disciplined htracks hnow h hact hlog₁
      (htimely turn (List.mem_cons_self ..)) (hdisk turn (List.mem_cons_self ..))
    rw [List.flatMap_cons, deeds_append, disciplined_append]
    exact ⟨hd, ih htracks' hnow' h' hrest hlog'
      (fun t ht => htimely t (List.mem_cons_of_mem _ ht))
      fun t ht => hdisk t (List.mem_cons_of_mem _ ht)⟩

/-- A session beside itself. -/
theorem Twins.self (h : Twins xrplTxId account run run') :
    ∃ account', Twins xrplTxId account' run run := by
  obtain ⟨job, htracks, hfile⟩ := h.saved
  refine ⟨job.personalAccount, ⟨rfl, rfl, ?_⟩, rfl, rfl, job, htracks, hfile⟩
  change Option.Rel _ run.current run.current
  rw [htracks.current]
  exact .some ⟨rfl, Or.inl rfl⟩

/-- As long as the disk works, what a restart reads is the job as it was. -/
theorem fromDisk_of_works (h : Twins xrplTxId account run run) {script : List Action}
    (hreads : ∀ a ∈ script, a.restarts = true → a.readAt.isSome = true)
    (hdrive : drive o script run = some run') (hworks : run'.works = true) {log : List Turn}
    (hlog : run'.log = run.log ++ log) : ∀ turn ∈ log, turn.FromDisk := by
  induction script generalizing run log account with
  | nil =>
    cases hdrive
    obtain rfl := List.append_right_eq_self.mp hlog.symm
    nofun
  | cons a script ih =>
    have hworks₀ := Session.works_of_drive hdrive hworks
    obtain ⟨run₁, hact, hrest⟩ := Option.bind_eq_some_iff.mp hdrive
    obtain ⟨job, htracks, hfile⟩ := h.saved
    obtain ⟨-, turn, hj, hlog₁, haction, hbefore, hturn, -⟩ := act_acted Clock.any hact
    obtain ⟨_, _, htracks₁, -, -⟩ := htracks.act hact
    obtain ⟨-, log', -, hlog', -⟩ := htracks₁.drive hrest
    obtain rfl : log = turn :: log' := by
      rw [hlog', hlog₁, List.append_assoc] at hlog
      exact (List.append_cancel_left hlog).symm
    have hread := hreads a (List.mem_cons_self ..)
    have h₁ : ∃ account', Twins xrplTxId account' run₁ run₁ := by
      by_cases ha : a.restarts = true
      · obtain ⟨t, ht⟩ := Option.isSome_iff_exists.mp (hread ha)
        have hrel := h.restart (o := o) hworks₀ ht fun p as hcreate => by
          rw [create_same htracks.current (hcreate ▸ hact), htracks.tx]
        rw [hact] at hrel
        generalize act o (.wait t) run = beside at hrel
        cases hrel with
        | some h₁ => exact h₁.self
      · have hrel := h.act (o := o) (eq_false_of_ne_true ha)
        rw [hact] at hrel
        cases hrel with
        | some h₁ => exact h₁.self
    obtain ⟨account', h₁⟩ := h₁
    rintro turn' (- | ⟨-, hturn'⟩)
    · rintro hrestarts
      rw [haction] at hrestarts ⊢
      rw [hbefore, hturn]
      obtain ⟨old, hold, hsame⟩ := hfile hworks₀
      exact ⟨⟨job, old, htracks.current, hold, hsame⟩, hread hrestarts⟩
    · exact ih h₁ (fun b hb => hreads b (List.mem_cons_of_mem _ hb)) hrest hlog' turn' hturn'

end Session

end Solo

/-- **Delay discipline**, in every session on a job, with any answers and any number of steps and
restarts, in which every restart reads the job as it was in memory. -/
theorem delay_discipline {o : Options} {params : CreateParams} {answers : List (Choice × Int)}
    {s : St} (hnone : ∀ id, normalizeXrplTxId params.xrplTxId = .ok id →
      s.world.jobs (id.drop 2) = none)
    {run₀ run : Solo.Session} (hstart : Solo.start params answers s = some run₀)
    (hnow : 0 ≤ run₀.st.mem.now) {script : List Solo.Action}
    (hrun : Solo.drive o script run₀ = some run) (htimely : ∀ turn ∈ run.log, turn.Timely)
    (hdisk : ∀ turn ∈ run.log, turn.FromDisk) :
    Solo.Disciplined {} (Solo.deeds o.viem run.calls) := by
  obtain ⟨id, job, -, htracks⟩ := Solo.Tracks.start o hnone hstart
  have hlog : run.log = run₀.log ++ run.log := by
    rw [Solo.start_log hstart, List.nil_append]
  exact Solo.drive_disciplined htracks hnow (.blank rfl rfl) hrun hlog htimely hdisk

namespace Sample

/-- The receipt of a mint that is put off until second 1000. -/
def delayEvent : Log := ⟨"0xaaaaaaaaaaaaaaaaaaaaaaaaaaaaaaaaaaaaaaaa".toList, [], []⟩

def delayTables : ViemTables :=
  { tables with events := [(delayEvent, ⟨"DirectMintingDelayed".toList, some 1000⟩)] }

def delaying : List Choice := [proof, txHash, .receipt ⟨false, 1, [delayEvent]⟩]

/-- The mint is put off; a step, a restart and another step before it may be made, and two steps
after that. -/
def waiting (saved : Choice) : List Solo.Action :=
  [.step (timed 2 preparing), .step (timed 3 submitting), .step (timed 4 finalizing),
    .step (timed 5 fetching), .step (timed 6 (delaying ++ [.done, saved])), .step [],
    .load (timed 7 [.done])]

def waited : List Solo.Action :=
  [.step [], .wait 1000000, .step (timed 1000000 [.done, .done]), .step (timed 1000001 minting)]

end Sample

/-- A mint that is put off, with a restart in between, and then goes through. -/
theorem delay_discipline_sample :
    ∃ run, Sample.created.bind (Solo.drive (Sample.options Sample.delayTables)
        (Sample.waiting .done ++ Sample.waited)) = some run ∧
      run.current.map Job.state = some .executed ∧
      Solo.Disciplined {} (Solo.deeds (Sample.options Sample.delayTables).viem run.calls) := by
  have hrun : (Sample.created.bind fun run₀ => (Solo.drive (Sample.options Sample.delayTables)
      (Sample.waiting .done ++ Sample.waited) run₀).map fun run =>
        (decide (0 ≤ run₀.st.mem.now), run.current.map Job.state,
          decide (∀ turn ∈ run.log, turn.Timely), run.works)) =
      some (true, some .executed, true, true) := by
    decide +kernel
  obtain ⟨run₀, hstart, hrun⟩ := Option.bind_eq_some_iff.mp hrun
  obtain ⟨run, hdrive, hrun⟩ := Option.map_eq_some_iff.mp hrun
  simp only [Prod.mk.injEq, decide_eq_true_eq] at hrun
  obtain ⟨hnow, hstate, htimely, hworks⟩ := hrun
  refine ⟨run, by rw [hstart, Option.bind_some, hdrive], hstate, ?_⟩
  refine delay_discipline (fun _ _ => rfl) hstart hnow hdrive htimely ?_
  obtain ⟨id, -, htwins⟩ := Solo.Twins.start (Sample.options Sample.delayTables) (fun _ _ => rfl) hstart
  refine Solo.fromDisk_of_works htwins ?_ hdrive hworks (Solo.start_log hstart ▸ rfl)
  simp [Sample.waiting, Sample.waited, Sample.timed, Solo.Action.restarts, Solo.Action.readAt]

/-- The save after the receipt fails, the next step returns early, and the job is loaded: the mint
is sent again at once. -/
theorem unsaved_delay_is_forgotten :
    ∃ run, Sample.created.bind (Solo.drive (Sample.options Sample.delayTables)
        (Sample.waiting (.fail (.error []) .nothing) ++ [.step (Sample.timed 8 Sample.minting)])) =
          some run ∧
      (∀ turn ∈ run.log, turn.Timely) ∧
      ¬Solo.Disciplined {} (Solo.deeds (Sample.options Sample.delayTables).viem run.calls) := by
  have hrun : ((Sample.created.bind (Solo.drive (Sample.options Sample.delayTables)
      (Sample.waiting (.fail (.error []) .nothing) ++ [.step (Sample.timed 8 Sample.minting)]))).map
        fun run => (decide (∀ turn ∈ run.log, turn.Timely), decide (Solo.Disciplined {}
          (Solo.deeds (Sample.options Sample.delayTables).viem run.calls)))) =
      some (true, false) := by
    decide +kernel
  obtain ⟨run, hrun, hbreach⟩ := Option.map_eq_some_iff.mp hrun
  simp only [Prod.mk.injEq, decide_eq_true_eq, decide_eq_false_iff_not] at hbreach
  exact ⟨run, hrun, hbreach⟩

end OneSig.Executor
