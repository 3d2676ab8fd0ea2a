/-
# When a job fails

Errors are meant to be of two sorts.  A verifier or a DA layer that lags behind is waited for as
long as it takes; any other error is genuine, and five of them fail the job.  A step that raises
an error counts it.  But the counter goes up on lag as well, and only a step that completes puts
it back to zero: an early return leaves it as it is.  An error that is no lag fails the job when
it is the fifth that is counted, so four misses of a lagging verifier and one genuine error are
enough (`one_error_after_lag_fails`).

What a run of steps tells of its errors is a list of endings, one for each step.  `misses` is the
counter, read off that list, and `Claimed` is what is meant: a job fails exactly at the fifth
genuine error in a row.  It holds of every step of a run exactly if the run is `Paced`: no genuine
error finds four errors counted that are not four genuine ones in a row, and a retryable one comes
only when four are counted already, for before that it brings the failure closer.

A lost race that is settled is no error, and one that is not counts as genuine; the `Ending`s have
a case for each.  Between two steps the job may be saved and loaded again, which keeps the
counter.

* `runs_settle`, `caught_counts`: the `catch` block and what it leaves to the save.
* `step_counts`: one step.  `Run.attempts`: a run, by induction over its steps.
* `retry_classification_iff`: the equivalence, for every run and every step of it.
-/
import Mathlib.Logic.Function.Iterate
import OneSig.Executor.Solo

namespace OneSig.Executor

open OneSig Async ExecutorPipeline Solo

namespace Retry

/-! ## 1. How a step ends -/

/-- What comes of the `try` block of a step. -/
inductive Ending
  /-- It went through. -/
  | completed
  /-- It returned early: the round is not finalised, the execution still delayed, the job done. -/
  | waited
  /-- It raised an error that is to be retried. -/
  | lag
  /-- It raised any other error. -/
  | fatal
  /-- It raised the error of a race lost to a relayer who has settled the payment. -/
  | settled
  deriving DecidableEq, Repr

/-- How a step ends that is given these answers. -/
def ending (o : Options) (r : Ref) (answers : List (Choice × Int)) (s : St) : Option Ending :=
  (exec (W := world) clockTo (tryBlock o r) answers s).bind fun tried =>
    match tried.res with
    | .ok .save => some .completed
    | .ok .returned => some .waited
    | .error e => (exec (W := world) clockTo (lostRace r e) tried.rest tried.st).map fun race =>
      match race.res with
      | .ok true => .settled
      | _ => if retryable e = true then .lag else .fatal

/-- What an ending makes of the state and of the counter of a job. -/
inductive Counts (job job' : Job) : Ending → Prop
  | completed : job.state ≠ .failed → job'.attempts = 0 → job'.state ≠ .failed →
      Counts job job' .completed
  | waited : job'.attempts = job.attempts → job'.state = job.state → Counts job job' .waited
  | lag : job.state ≠ .failed → job'.attempts = job.attempts + 1 → job'.state ≠ .failed →
      Counts job job' .lag
  | fatal : job.state ≠ .failed → job'.attempts = job.attempts + 1 →
      (job'.state = .failed ↔ 5 ≤ job'.attempts) → Counts job job' .fatal
  | settled : job.state ≠ .failed → job'.attempts = job.attempts → job'.state ≠ .failed →
      Counts job job' .settled

/-! ## 2. One step -/

/-- The switch never makes a job failed, and leaves the counter alone. -/
theorem switched_attempts {later : Int → Int → Prop} {now : Int} {job job' : Job} {ds : List Deed}
    {res : Except JsError Flow} (h : Switched later now job ds res job') :
    job'.attempts = job.attempts ∧ (res = .ok .returned → job'.state = job.state) ∧
      (res ≠ .ok .returned → job.state ≠ .failed ∧ job'.state ≠ .failed) := by
  cases h with
  | returned => exact ⟨rfl, fun _ => rfl, fun hne => absurd rfl hne⟩
  | prepared request hst => simp [hst]
  | submitted ds roundId hst => simp [hst]
  | finalized hst => simp [hst]
  | fetched hst => simp [hst]
  | resumed hst => simp [hst]
  | executed time hash hst => simp [hst]
  | delayed time hash t res hst _ hres => simp [hst, hres]
  | threw ds e flareTxHash hst =>
    refine ⟨rfl, nofun, fun _ => ?_⟩
    have hne : job.state ≠ .failed := by
      intro hfailed
      rw [hfailed] at hst
      cases hst
    exact ⟨hne, hne⟩

theorem countAttempt_counts {e : JsError} {job job' : Job} (hst : job.state ≠ .failed)
    (hst' : job'.state ≠ .failed) (hattempts : job'.attempts = job.attempts) (time : Int) :
    Counts job { countAttempt e job' with updatedAt := time }
      (if retryable e = true then .lag else .fatal) := by
  by_cases he : retryable e = true
  · rw [if_pos he]
    exact .lag hst (by simp [countAttempt, hattempts]) (by simp [countAttempt, he, hst'])
  · rw [if_neg he]
    rw [Bool.not_eq_true] at he
    refine .fatal hst (by simp [countAttempt, hattempts]) ?_
    simp only [countAttempt, he, true_and]
    split
    case isTrue h => simp [h]
    case isFalse h => simp [h, hst']

/-- The rest of the `catch` block, once it is known whether the race was lost. -/
def settle (r : Ref) (error : JsError) (lost : Bool) : Prog Flow :=
  if lost = true then do
    Prog.modify (Memory.updateJob r fun job => { job with state := .executed, lastError := none })
    save r
    return .returned
  else do
    Prog.modify (Memory.updateJob r (countAttempt error))
    return .save

/-- The job object at a reference, up to the time of its last save. -/
def Leads (r : Ref) (job : Job) (s : St) : Prop :=
  ∃ time, s.mem.heap[r]? = some { job with updatedAt := time }

section Step

variable (o : Options) {r : Ref} {s : St} {job : Job}

include o in
theorem runs_saved (hj : s.mem.heap[r]? = some job) :
    Runs (fun _ _ => True) (save r) (fun _ _ s' => Leads r job s') s := by
  refine alone_mono (runs_save .any o hj) ?_
  rintro calls res s' ⟨-, -, time, -, hheap, -⟩
  refine ⟨time, ?_⟩
  rw [hheap, List.getElem?_set_self (List.getElem?_eq_some_iff.mp hj).1]

include o in
/-- A lost race that is settled saves at once; otherwise the save is left to the step. -/
theorem runs_settle (hj : s.mem.heap[r]? = some job) (e : JsError) (lost : Bool) :
    Runs (fun _ _ => True) (settle r e lost) (fun _ res s' =>
      if lost = true then res ≠ .ok .save ∧
        Leads r { job with state := .executed, lastError := none } s'
      else res = .ok .save ∧ s'.mem.heap[r]? = some (countAttempt e job)) s := by
  unfold settle
  cases lost with
  | true =>
    rw [if_pos rfl]
    refine alone_then (runs_update .any hj fun s₁ hs₁ => ⟨rfl, _, rfl, ?_⟩)
    refine alone_seq (runs_saved o (hs₁.get hj)) ?_ ?_
    · intro calls u s₂ hleads
      exact alone_pure ⟨nofun, hleads⟩
    · intro calls e' s₂ hleads
      exact ⟨nofun, hleads⟩
  | false =>
    rw [if_neg (by decide)]
    refine alone_then (runs_update .any hj fun s₁ hs₁ => ⟨rfl, _, rfl, ?_⟩)
    exact alone_pure ⟨rfl, hs₁.get hj⟩

/-- What a step does after the `catch`. -/
def finish (r : Ref) : Flow → Prog Unit
  | .returned => return ()
  | .save => save r

include o in
/-- The `catch` block and the save, after an error that is no error of the save itself. -/
theorem caught_counts {job₁ : Job} {st : St} (hj : st.mem.heap[r]? = some job₁)
    (hst : job.state ≠ .failed) (hst₁ : job₁.state ≠ .failed)
    (hattempts : job₁.attempts = job.attempts) (e : JsError) {answers : List (Choice × Int)}
    {race : Async.Outcome sig world Int Bool}
    (hrace : exec (W := world) clockTo (lostRace r e) answers st = some race)
    {out : Async.Outcome sig world Int Unit}
    (hexec : exec (W := world) clockTo (catchBlock r e >>= finish r) answers st = some out) :
    ∃ job', out.st.mem.heap[r]? = some job' ∧ Counts job job' (match race.res with
      | .ok true => .settled
      | _ => if retryable e = true then .lag else .fatal) := by
  have hcatch : catchBlock r e = lostRace r e >>= settle r e := rfl
  obtain ⟨-, hbeside, lost, hres, -⟩ := runs_lostRace .any o hj e _ _ hrace fun _ _ => trivial
  rw [hcatch, Prog.bind_assoc, exec_bind, hrace, Option.bind_some, thenExec, hres] at hexec
  obtain ⟨out', hout', rfl⟩ := Option.map_eq_some_iff.mp hexec
  have hj₁ : race.st.mem.heap[r]? = some job₁ := hbeside.heap ▸ hj
  rw [hres]
  -- the job after the save, by whether the race was lost
  have hleads : Runs (fun _ _ => True) (settle r e lost >>= finish r) (fun _ _ s' =>
      Leads r (if lost = true then { job₁ with state := .executed, lastError := none }
        else countAttempt e job₁) s') race.st := by
    refine alone_seq (runs_settle o hj₁ e lost) ?_ ?_
    · intro calls flow s₁ hsettle
      cases lost with
      | true =>
        cases flow with
        | returned => exact alone_pure hsettle.2
        | save => exact absurd rfl hsettle.1
      | false =>
        cases hsettle.1
        exact alone_mono (runs_saved o hsettle.2) fun _ _ _ h => h
    · intro calls e' s₁ hsettle
      cases lost with
      | true => exact hsettle.2
      | false => cases hsettle.1
  obtain ⟨time, hj₂⟩ := hleads _ _ hout' fun _ _ => trivial
  refine ⟨_, hj₂, ?_⟩
  cases lost with
  | true => exact .settled hst hattempts fun h => by cases h
  | false => exact countAttempt_counts hst hst₁ hattempts time

/-- **One step**: its ending alone says what becomes of the counter and of the state, whatever the
calls of the step were. -/
theorem step_counts (hj : s.mem.heap[r]? = some job) {answers : List (Choice × Int)}
    {out : Async.Outcome sig world Int Unit}
    (hexec : exec (W := world) clockTo (step o r) answers s = some out) {x : Ending}
    (hx : ending o r answers s = some x) :
    ∃ job', out.st.mem.heap[r]? = some job' ∧ Counts job job' x := by
  have hstep : step o r = (tryBlock o r).tryCatch (catchBlock r) >>= finish r := rfl
  obtain ⟨tried, htried, hx⟩ := Option.bind_eq_some_iff.mp hx
  obtain ⟨job₁, hsw, hleaves⟩ := runs_tryBlock .any o hj _ _ htried fun _ _ => trivial
  obtain ⟨hattempts, hback, hopen⟩ := switched_attempts hsw
  rw [hstep, exec_bind, exec_tryCatch, htried, Option.bind_some] at hexec
  obtain ⟨res, st, calls, rest⟩ := tried
  have hj₁ := hleaves.get hj
  cases res with
  | ok flow =>
    obtain ⟨out', hout', rfl⟩ := Option.map_eq_some_iff.mp hexec
    cases flow with
    | returned =>
      cases hx
      cases hout'
      exact ⟨job₁, hj₁, .waited hattempts (hback rfl)⟩
    | save =>
      cases hx
      obtain ⟨hne, hne'⟩ := hopen nofun
      rw [if_pos rfl] at hj₁
      obtain ⟨time, hj₂⟩ := runs_saved o hj₁ _ _ hout' fun _ _ => trivial
      exact ⟨_, hj₂, .completed hne rfl hne'⟩
  | error e =>
    obtain ⟨race, hrace, rfl⟩ := Option.map_eq_some_iff.mp hx
    rw [if_neg nofun] at hj₁
    obtain ⟨hne, hne'⟩ := hopen nofun
    have hcaught : ∃ out', exec (W := world) clockTo (catchBlock r e >>= finish r) rest st =
        some out' ∧ out'.st = out.st := by
      obtain ⟨mid, hmid, hthen⟩ := Option.bind_eq_some_iff.mp hexec
      obtain ⟨mid', hmid', rfl⟩ := Option.map_eq_some_iff.mp hmid
      rw [thenExec_after] at hthen
      obtain ⟨out', hout', rfl⟩ := Option.map_eq_some_iff.mp hthen
      exact ⟨out', by rw [exec_bind, hmid', Option.bind_some, hout'], rfl⟩
    obtain ⟨out', hout', hst⟩ := hcaught
    rw [← hst]
    exact caught_counts o hj₁ hne hne' hattempts e hrace hout'

end Step

/-! ## 3. Runs -/

/-- A step of a job, with the job before and after it. -/
structure Turn where
  before : Job
  ending : Ending
  after : Job

/-- The step was taken, in some state and with some answers. -/
def Taken (o : Options) (t : Turn) : Prop :=
  ∃ r s answers out, s.mem.heap[r]? = some t.before ∧
    exec (W := world) clockTo (step o r) answers s = some out ∧
    ending o r answers s = some t.ending ∧ out.st.mem.heap[r]? = some t.after

/-- The steps of a job, the latest first.  Between two of them anything may happen that leaves the
job as it is: it may be saved, and loaded again. -/
inductive Run (o : Options) : List Turn → Prop
  | nil : Run o []
  | first {t : Turn} : Taken o t → t.before.attempts = 0 → Run o [t]
  | next {t t' : Turn} {earlier : List Turn} : Taken o t → t.before = t'.after →
      Run o (t' :: earlier) → Run o (t :: t' :: earlier)

/-- The errors counted after some steps, the latest first. -/
def misses : List Ending → Nat
  | [] => 0
  | .completed :: _ => 0
  | .lag :: xs => misses xs + 1
  | .fatal :: xs => misses xs + 1
  | .waited :: xs => misses xs
  | .settled :: xs => misses xs

/-- The genuine errors in a row that are left until a job fails. -/
def errorsLeft (job : Job) : Nat := max 1 (5 - job.attempts)

/-- A job fails at the last of them. -/
theorem errorsLeft_spec {e : JsError} (he : retryable e = false) {job : Job}
    (hst : job.state ≠ .failed) (n : Nat) :
    (Nat.iterate (countAttempt e) n job).state = .failed ↔ errorsLeft job ≤ n := by
  have hcount : ∀ n, (Nat.iterate (countAttempt e) n job).attempts = job.attempts + n ∧
      ((Nat.iterate (countAttempt e) n job).state = .failed ↔ errorsLeft job ≤ n) := by
    intro n
    induction n with
    | zero =>
      refine ⟨rfl, iff_of_false hst ?_⟩
      unfold errorsLeft
      omega
    | succ n ih =>
      obtain ⟨hattempts, hfailed⟩ := ih
      rw [Function.iterate_succ_apply']
      refine ⟨by simp only [countAttempt, hattempts, Nat.add_assoc], ?_⟩
      simp only [countAttempt, he, true_and, hattempts]
      split
      case isTrue h =>
        refine iff_of_true rfl ?_
        unfold errorsLeft
        omega
      case isFalse h =>
        rw [hfailed]
        unfold errorsLeft
        omega
  exact (hcount n).2

/-- What is meant of a step after others with these endings: it fails the job exactly at the fifth
genuine error in a row, and nothing else brings the job closer to that. -/
structure Claimed (t : Turn) (xs : List Ending) : Prop where
  failed : (t.before.state ≠ .failed ∧ t.after.state = .failed) ↔
    t.ending = .fatal ∧ List.replicate 4 .fatal <+: xs
  closer : t.ending ≠ .fatal → errorsLeft t.before ≤ errorsLeft t.after

/-- A genuine error that finds four errors counted comes right after four genuine ones, and a
retryable one comes only then. -/
structure Paced (x : Ending) (xs : List Ending) : Prop where
  fatal : x = .fatal → 4 ≤ misses xs → List.replicate 4 .fatal <+: xs
  lag : x = .lag → 4 ≤ misses xs

theorem four_le_misses {xs : List Ending} (h : List.replicate 4 .fatal <+: xs) : 4 ≤ misses xs := by
  obtain ⟨rest, rfl⟩ := h
  simp only [List.replicate_succ, List.replicate_zero, List.cons_append, List.nil_append, misses]
  omega

theorem Taken.counts {o : Options} {t : Turn} (h : Taken o t) : Counts t.before t.after t.ending := by
  obtain ⟨r, s, answers, out, hbefore, hexec, hending, hafter⟩ := h
  obtain ⟨job', hjob', hcounts⟩ := step_counts o hbefore hexec hending
  rw [hafter] at hjob'
  cases hjob'
  exact hcounts

/-- The counter of a job after a step. -/
theorem Counts.attempts {job job' : Job} {x : Ending} (h : Counts job job' x) {xs : List Ending}
    (hjob : job.attempts = misses xs) : job'.attempts = misses (x :: xs) := by
  cases h with
  | completed _ h => exact h
  | waited h => exact h.trans hjob
  | lag _ h => rw [h, hjob, misses]
  | fatal _ h => rw [h, hjob, misses]
  | settled _ h => exact h.trans hjob

/-- **Along a run the counter is the number of misses**: the errors since a step has completed,
retryable ones among them. -/
theorem Run.attempts {o : Options} {t : Turn} {earlier : List Turn} (h : Run o (t :: earlier)) :
    t.before.attempts = misses (earlier.map Turn.ending) := by
  induction earlier generalizing t with
  | nil =>
    cases h with
    | first _ hnew => exact hnew
  | cons t' earlier ih =>
    cases h with
    | next _ hlink hrun =>
      have htaken : Taken o t' := by cases hrun <;> assumption
      rw [hlink]
      exact htaken.counts.attempts (ih hrun)

theorem Run.taken {o : Options} {t : Turn} {earlier : List Turn} (h : Run o (t :: earlier)) :
    Taken o t := by
  cases h <;> assumption

theorem Run.suffix {o : Options} {turns earlier : List Turn} (h : Run o turns)
    (hsuffix : earlier <:+ turns) : Run o earlier := by
  induction h with
  | nil =>
    rw [List.suffix_nil.mp hsuffix]
    exact .nil
  | @first t htaken hnew =>
    rcases List.suffix_cons_iff.mp hsuffix with rfl | hsuffix
    · exact .first htaken hnew
    · rw [List.suffix_nil.mp hsuffix]
      exact .nil
  | next htaken hlink hrun ih =>
    rcases List.suffix_cons_iff.mp hsuffix with rfl | hsuffix
    · exact .next htaken hlink hrun
    · exact ih hsuffix

/-- One step does what is claimed exactly when it is paced. -/
theorem claimed_iff_paced {t : Turn} {xs : List Ending}
    (hcounts : Counts t.before t.after t.ending) (hattempts : t.before.attempts = misses xs) :
    Claimed t xs ↔ Paced t.ending xs := by
  obtain ⟨before, x, after⟩ := t
  have hfour := @four_le_misses xs
  dsimp only at hcounts hattempts ⊢
  cases hcounts with
  | completed hst hzero hst' =>
    refine iff_of_true ⟨?_, fun _ => ?_⟩ ⟨nofun, nofun⟩
    · exact iff_of_false (fun h => hst' h.2) nofun
    · simp only [errorsLeft, hzero]
      omega
  | waited hsame hstate =>
    refine iff_of_true ⟨?_, fun _ => ?_⟩ ⟨nofun, nofun⟩
    · exact iff_of_false (fun h => h.1 (hstate ▸ h.2)) nofun
    · simp only [errorsLeft, hsame, le_refl]
  | settled hst hsame hst' =>
    refine iff_of_true ⟨?_, fun _ => ?_⟩ ⟨nofun, nofun⟩
    · exact iff_of_false (fun h => hst' h.2) nofun
    · simp only [errorsLeft, hsame, le_refl]
  | lag hst hnext hst' =>
    constructor
    · intro h
      have hcloser := h.closer nofun
      refine ⟨nofun, fun _ => ?_⟩
      simp only [errorsLeft, hnext, hattempts] at hcloser
      omega
    · intro h
      have hmisses := h.lag rfl
      refine ⟨iff_of_false (fun h => hst' h.2) nofun, fun _ => ?_⟩
      simp only [errorsLeft, hnext, hattempts]
      omega
  | fatal hst hnext hfails =>
    constructor
    · intro h
      refine ⟨fun _ hmisses => (h.failed.mp ⟨hst, hfails.mpr ?_⟩).2, nofun⟩
      omega
    · intro h
      refine ⟨⟨fun hmoved => ⟨rfl, h.fatal rfl ?_⟩, fun hrow => ⟨hst, hfails.mpr ?_⟩⟩,
        fun hne => absurd rfl hne⟩
      · have hfive := hfails.mp hmoved.2
        omega
      · have hmisses := hfour hrow.2
        omega

end Retry

/-- **Five genuine errors in a row, and nothing but these**, as long as no genuine error finds four
errors counted that are not all genuine and uninterrupted, and no retryable one finds fewer. -/
theorem retry_classification_iff (o : Options) {turns : List Retry.Turn}
    (hrun : Retry.Run o turns) :
    (∀ t earlier, t :: earlier <:+ turns → Retry.Claimed t (earlier.map Retry.Turn.ending)) ↔
      ∀ t earlier, t :: earlier <:+ turns →
        Retry.Paced t.ending (earlier.map Retry.Turn.ending) := by
  refine forall_congr' fun t => forall_congr' fun earlier => forall_congr' fun hsuffix => ?_
  have hrun' := hrun.suffix hsuffix
  exact Retry.claimed_iff_paced hrun'.taken.counts hrun'.attempts

namespace SampleRetry

def options : Options where
  viem := ViemTables.viem {}
  account := "0xef".toList
  assetManager := "0xaa".toList
  coreVaultAddress := "rVault".toList

/-- A job that waits for its attestation request, after so many errors. -/
def job (attempts : Nat) (lastError : Option Str) (state : JobState := .observed) : Job where
  id := "ab".toList
  state := state
  xrplTxId := "0xab".toList
  userOpData := "0x01".toList
  totalCallValue := 0
  personalAccount := .str "0xcd".toList
  nonce := 0
  attempts := attempts
  lastError := lastError
  updatedAt := 0

def st (job : Job) : St :=
  ⟨{ Memory.boot 0 with heap := [job] }, ⟨fun _ => none, fun _ => none, [], []⟩⟩

/-- The verifier has not seen the transaction yet. -/
def lagging : List (Choice × Int) :=
  [(.verifier ⟨true, 200, [], some { status := some "INVALID".toList }⟩, 0), (.done, 0), (.done, 0)]

/-- The verifier fails. -/
def exploding : List (Choice × Int) :=
  [(.verifier ⟨false, 500, "exploded".toList, none⟩, 0), (.done, 0), (.done, 0)]

def lagText : Str := (JsError.verifierNotReady "INVALID".toList none).message

def explodedText : Str := "verifier HTTP 500: exploded".toList

/-- The job after a step. -/
def stepped (answers : List (Choice × Int)) (job : Job) : Option Job :=
  (exec (W := world) clockTo (step options 0) answers (st job)).bind fun out => out.st.mem.heap[0]?

theorem taken {answers : List (Choice × Int)} {t : Retry.Turn}
    (hstep : stepped answers t.before = some t.after)
    (hending : Retry.ending options 0 answers (st t.before) = some t.ending) :
    Retry.Taken options t := by
  obtain ⟨out, hexec, hafter⟩ := Option.bind_eq_some_iff.mp hstep
  exact ⟨0, st t.before, answers, out, rfl, hexec, hending, hafter⟩

def lagTurn (before : Job) (attempts : Nat) : Retry.Turn :=
  ⟨before, .lag, job attempts (some lagText)⟩

def fatalTurn (before : Job) (attempts : Nat) (state : JobState := .observed) : Retry.Turn :=
  ⟨before, .fatal, job attempts (some explodedText) state⟩

/-- Four times the verifier lags, then it fails once. -/
def mixed : List Retry.Turn :=
  [fatalTurn (job 4 (some lagText)) 5 .failed, lagTurn (job 3 (some lagText)) 4,
    lagTurn (job 2 (some lagText)) 3, lagTurn (job 1 (some lagText)) 2, lagTurn (job 0 none) 1]

theorem mixed_run : Retry.Run options mixed :=
  .next (@taken exploding _ rfl rfl) rfl (.next (@taken lagging _ rfl rfl) rfl
    (.next (@taken lagging _ rfl rfl) rfl (.next (@taken lagging _ rfl rfl) rfl
      (.first (@taken lagging _ rfl rfl) rfl))))

/-- Five times it fails. -/
def genuine : List Retry.Turn :=
  [fatalTurn (job 4 (some explodedText)) 5 .failed, fatalTurn (job 3 (some explodedText)) 4,
    fatalTurn (job 2 (some explodedText)) 3, fatalTurn (job 1 (some explodedText)) 2,
    fatalTurn (job 0 none) 1]

theorem genuine_run : Retry.Run options genuine :=
  .next (@taken exploding _ rfl rfl) rfl (.next (@taken exploding _ rfl rfl) rfl
    (.next (@taken exploding _ rfl rfl) rfl (.next (@taken exploding _ rfl rfl) rfl
      (.first (@taken exploding _ rfl rfl) rfl))))

theorem genuine_paced (t : Retry.Turn) (earlier : List Retry.Turn) (h : t :: earlier <:+ genuine) :
    Retry.Paced t.ending (earlier.map Retry.Turn.ending) := by
  have hcases : ∀ t earlier, t :: earlier <:+ genuine →
      t.ending = .fatal ∧ (4 ≤ Retry.misses (earlier.map Retry.Turn.ending) →
        List.replicate 4 .fatal <+: earlier.map Retry.Turn.ending) := by
    intro t earlier h
    simp only [genuine, List.suffix_cons_iff, List.cons.injEq, List.suffix_nil, reduceCtorEq,
      or_false] at h
    rcases h with ⟨rfl, rfl⟩ | ⟨rfl, rfl⟩ | ⟨rfl, rfl⟩ | ⟨rfl, rfl⟩ | ⟨rfl, rfl⟩
    all_goals exact ⟨rfl, by decide⟩
  obtain ⟨hfatal, hrow⟩ := hcases t earlier h
  refine ⟨fun _ => hrow, fun hlag => ?_⟩
  rw [hfatal] at hlag
  cases hlag

end SampleRetry

open SampleRetry in
/-- Five genuine errors fail the job, and each step does what is claimed. -/
theorem retry_classification_genuine :
    (∀ t earlier, t :: earlier <:+ genuine → Retry.Claimed t (earlier.map Retry.Turn.ending)) ∧
      (genuine.head?.map fun t => t.after.state) = some .failed :=
  ⟨(retry_classification_iff options genuine_run).mpr genuine_paced, rfl⟩

open SampleRetry in
/-- **One genuine error after four misses of a lagging verifier** fails the job, although it is
the first genuine error that the job has met. -/
theorem one_error_after_lag_fails : Retry.Run options mixed ∧
    mixed.map Retry.Turn.ending = [.fatal, .lag, .lag, .lag, .lag] ∧
    (mixed.head?.map fun t => t.after.state) = some .failed ∧
    ¬∀ t earlier, t :: earlier <:+ mixed → Retry.Claimed t (earlier.map Retry.Turn.ending) := by
  refine ⟨mixed_run, rfl, rfl, fun h => ?_⟩
  have hlast := (h _ _ (List.suffix_refl mixed)).failed.mp ⟨nofun, rfl⟩
  have hrow := hlast.2
  revert hrow
  decide

end OneSig.Executor
