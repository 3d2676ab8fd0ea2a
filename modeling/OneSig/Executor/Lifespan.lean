/-
# How long a job can take

A step that gets nowhere is harmless as long as there are not too many of them.  A job has five
steps before it, and every delay that a receipt reports costs two more.  Between two steps that
complete, at most four genuine errors leave it open, and the fifth fails it; so what can go on for
ever is waiting, for a round, for a delay or for a service that lags, and nothing else
(`job_ends`).  An operator who puts a failed job back to `observed`, as the two scripts do, starts
the count again.

`Life` is what happens to one job object: steps with any answers, and between two of them a save,
a restart or a script that puts it back.  `Ending` sorts the steps by how they end, with the cases
of `Retry`, and the bound is on their number without those that wait and those that meet a lag.

`ExecutorPipeline.run` drives one job to its end and has a deadline.  It sleeps only after a step
that left the state as it was, and looks at the clock before every step, so it comes back after as
many sleeps as fit, and those steps (`run_ends`).  A step takes time, and the clock does not go
back; nothing else is assumed of it.  `run` saves after each step and does not catch what that
throws, so a write that fails ends it too.

* `toGo`: the steps that are still before a job in some state; `toGo_changed`: every change of
  state lowers it or is a delay.
* `Taken.toGo`, `Taken.errors`: one step against that measure and against the counter of attempts.
* `Life.completed`, `Life.errors`: the sums over a life, by induction over its steps.
* `Laps.moved`, `Laps.sleeps`: the same for the loop of `run`.
-/
import OneSig.Executor.Drive
import OneSig.Executor.Retry

namespace OneSig.Executor

open OneSig Async ExecutorPipeline Solo

/-! ## 1. What is still before a job -/

/-- The steps that are still to complete, if no delay is reported. -/
def JobState.toGo : JobState → Nat
  | .observed => 5
  | .request_prepared => 4
  | .request_submitted => 3
  | .round_finalized => 2
  | .proof_fetched => 1
  | .delayed => 2
  | .executed => 0
  | .failed => 0

/-- A receipt has reported a delay. -/
def delays (before after : JobState) : Nat :=
  if before = .proof_fetched ∧ after = .delayed then 1 else 0

theorem JobState.toGo_le (st : JobState) : st.toGo ≤ 5 := by
  cases st <;> decide

theorem Next.toGo {st st' : JobState} (h : Next st st') :
    st'.toGo + 1 ≤ st.toGo + 2 * delays st st' := by
  cases h <;> decide

namespace Advances

variable {st st' : JobState}

theorem toGo (h : Advances st st') : st'.toGo ≤ st.toGo + 2 * delays st st' := by
  cases h with
  | refl => exact Nat.le_add_right _ _
  | next hnext => exact (Nat.le_succ _).trans hnext.toGo
  | fail => exact Nat.zero_le _

/-- A change of the state brings the end closer. -/
theorem toGo_changed (h : Advances st st') (hne : st' ≠ st) :
    st'.toGo + 1 ≤ st.toGo + 2 * delays st st' := by
  cases h with
  | refl => exact absurd rfl hne
  | next hnext => exact hnext.toGo
  | fail hopen =>
    cases st with
    | executed | failed => cases hopen
    | _ => exact Nat.succ_le_of_lt (Nat.lt_add_right _ (by decide))

end Advances

/-! ## 2. One step -/

namespace Solo

variable {later : Int → Int → Prop} {now : Int} {job job' : Job} {ds : List Deed}

theorem Switched.next {later : Int → Int → Prop} (h : Switched later now job ds (.ok .save) job') :
    Next job.state job'.state := by
  cases h with
  | prepared request hst => exact hst ▸ .prepared
  | submitted ds roundId hst => exact hst ▸ .submitted
  | finalized hst => exact hst ▸ .finalized
  | fetched hst => exact hst ▸ .fetched
  | resumed hst => exact hst ▸ .resumed
  | executed time hash hst => exact hst ▸ .executed
  | delayed time hash t res hst => exact hst ▸ .delayed

/-- A step that throws leaves the state, unless the delay it has just noted cannot be logged. -/
theorem Switched.thrown {e : JsError} (h : Switched later now job ds (.error e) job') :
    job.state.terminal = false ∧ Advances job.state job'.state ∧
      (job'.state = .proof_fetched → job.state = .proof_fetched) := by
  cases h with
  | delayed time hash t res hst => exact ⟨by rw [hst]; rfl, hst ▸ .next .delayed, nofun⟩
  | threw ds e flareTxHash hst => exact ⟨hst, .refl _, id⟩

theorem Switched.idle {res : Except JsError Flow} (h : Switched later now job ds res job')
    (hover : job.state.terminal = true) : res = .ok .returned := by
  cases h with
  | returned => rfl
  | prepared _ hst | submitted _ _ hst | finalized hst | fetched hst | resumed hst
  | executed _ _ hst | delayed _ _ _ _ hst =>
    rw [hst] at hover
    cases hover
  | threw ds e flareTxHash hst =>
    rw [hst] at hover
    cases hover

theorem countAttempt_state (e : JsError) (job : Job) :
    (countAttempt e job).state = .failed ∨ (countAttempt e job).state = job.state := by
  unfold countAttempt
  dsimp only
  split
  · exact Or.inl rfl
  · exact Or.inr rfl

theorem Ended.advances {e : Option JsError} (h : Ended later now job ds e job') :
    Advances job.state job'.state := by
  cases h with
  | moved hsw => exact .next hsw.next
  | lost hsw hst =>
    obtain ⟨-, -, hback⟩ := hsw.thrown
    exact (hback hst) ▸ .next .executed
  | counted hsw =>
    obtain ⟨hopen, hadv, -⟩ := hsw.thrown
    rcases countAttempt_state _ _ with hfailed | hsame
    · exact hfailed ▸ .fail hopen
    · exact hsame ▸ hadv

theorem Stepped.advances {files files' : Str → Option (Text Job)} {e : Option JsError}
    {res : Except JsError Unit} (h : Stepped later now job files ds e res job' files') :
    Advances job.state job'.state := by
  cases h with
  | idle => exact .refl _
  | saved time hended => exact hended.advances

end Solo

namespace Retry

section Step

variable (o : Options) {r : Ref} {s : St} {job : Job} {answers : List (Choice × Int)}
  {out : Async.Outcome sig world Int Unit}

theorem step_advances (hj : s.mem.heap[r]? = some job)
    (hexec : exec (W := world) clockTo (step o r) answers s = some out) :
    ∃ job', out.st.mem.heap[r]? = some job' ∧ Advances job.state job'.state := by
  obtain ⟨-, -, e, job', hheap, hstepped⟩ := runs_step .any o hj _ _ hexec fun _ _ => trivial
  refine ⟨job', ?_, hstepped.advances⟩
  rw [hheap, List.getElem?_set_self (List.getElem?_eq_some_iff.mp hj).1]

/-- A step that goes through moves its job on. -/
theorem step_completed (hj : s.mem.heap[r]? = some job)
    (hexec : exec (W := world) clockTo (step o r) answers s = some out)
    (hx : ending o r answers s = some .completed) :
    ∃ job', out.st.mem.heap[r]? = some job' ∧ Next job.state job'.state := by
  have hstep : step o r = (tryBlock o r).tryCatch (catchBlock r) >>= finish r := rfl
  obtain ⟨tried, htried, hx⟩ := Option.bind_eq_some_iff.mp hx
  obtain ⟨job₁, hsw, hleaves⟩ := runs_tryBlock .any o hj _ _ htried fun _ _ => trivial
  rw [hstep, exec_bind, exec_tryCatch, htried, Option.bind_some] at hexec
  obtain ⟨res, st, calls, rest⟩ := tried
  have hj₁ := hleaves.get hj
  cases res with
  | ok flow =>
    cases flow with
    | returned => cases hx
    | save =>
      obtain ⟨out', hout', rfl⟩ := Option.map_eq_some_iff.mp hexec
      rw [if_pos rfl] at hj₁
      obtain ⟨time, hj₂⟩ := runs_saved o hj₁ _ _ hout' fun _ _ => trivial
      exact ⟨_, hj₂, hsw.next⟩
  | error e =>
    obtain ⟨race, -, hrace⟩ := Option.map_eq_some_iff.mp hx
    dsimp only at hrace
    split at hrace
    · cases hrace
    · split at hrace <;> cases hrace

/-- Nothing happens to a job that is over. -/
theorem step_over (hj : s.mem.heap[r]? = some job) (hover : job.state.terminal = true) {x : Ending}
    (hx : ending o r answers s = some x) : x = .waited := by
  obtain ⟨tried, htried, hx⟩ := Option.bind_eq_some_iff.mp hx
  obtain ⟨job₁, hsw, -⟩ := runs_tryBlock .any o hj _ _ htried fun _ _ => trivial
  have hres := hsw.idle hover
  rw [hres] at hx
  exact (Option.some.inj hx).symm

/-- A lost race that is settled ends its job. -/
theorem step_settled (hj : s.mem.heap[r]? = some job)
    (hexec : exec (W := world) clockTo (step o r) answers s = some out)
    (hx : ending o r answers s = some .settled) :
    ∃ job', out.st.mem.heap[r]? = some job' ∧ job'.state = .executed := by
  have hstep : step o r = (tryBlock o r).tryCatch (catchBlock r) >>= finish r := rfl
  obtain ⟨tried, htried, hx⟩ := Option.bind_eq_some_iff.mp hx
  obtain ⟨job₁, -, hleaves⟩ := runs_tryBlock .any o hj _ _ htried fun _ _ => trivial
  rw [hstep, exec_bind, exec_tryCatch, htried, Option.bind_some] at hexec
  obtain ⟨res, st, calls, rest⟩ := tried
  have hj₁ := hleaves.get hj
  cases res with
  | ok flow =>
    cases flow with
    | returned => cases hx
    | save => cases hx
  | error e =>
    rw [if_neg nofun] at hj₁
    obtain ⟨race, hrace, hlost⟩ := Option.map_eq_some_iff.mp hx
    have hok : race.res = .ok true := by
      dsimp only at hlost
      split at hlost
      case h_1 h => exact h
      case h_2 => split at hlost <;> cases hlost
    obtain ⟨mid, hmid, hthen⟩ := Option.bind_eq_some_iff.mp hexec
    obtain ⟨caught, hcaught, rfl⟩ := Option.map_eq_some_iff.mp hmid
    rw [thenExec_after] at hthen
    obtain ⟨out', hout', rfl⟩ := Option.map_eq_some_iff.mp hthen
    -- the race was lost, so the catch block marks the job and returns
    have hcatch : catchBlock r e = lostRace r e >>= settle r e := rfl
    obtain ⟨-, hbeside, -⟩ := runs_lostRace .any o hj₁ e _ _ hrace fun _ _ => trivial
    rw [hcatch, exec_bind, hrace, Option.bind_some, thenExec, hok] at hcaught
    obtain ⟨settled, hsettled, rfl⟩ := Option.map_eq_some_iff.mp hcaught
    have hj₂ : race.st.mem.heap[r]? = some job₁ := hbeside.heap ▸ hj₁
    obtain ⟨hnot, time, hj₃⟩ := runs_settle o hj₂ e true _ _ hsettled fun _ _ => trivial
    refine ⟨{ job₁ with state := .executed, lastError := none, updatedAt := time }, ?_, rfl⟩
    rw [thenExec_after] at hout'
    obtain ⟨out'', hout'', rfl⟩ := Option.map_eq_some_iff.mp hout'
    obtain ⟨res, st', calls', rest'⟩ := settled
    cases res with
    | ok flow =>
      cases flow with
      | returned =>
        cases hout''
        exact hj₃
      | save => exact absurd rfl hnot
    | error e' =>
      cases hout''
      exact hj₃

end Step

/-! ## 3. The life of a job -/

/-- `scripts/resume-job.ts` and `scripts/recover-mint.ts` put a job back. -/
def reset (time : Int) (job : Job) : Job :=
  { job with state := .observed, attempts := 0, lastError := none, updatedAt := time }

/-- The steps of a job, the latest first, with the number of times it was put back.  Between two
steps it may be saved and loaded again. -/
inductive Life (o : Options) : Nat → List Turn → Prop
  | first {t : Turn} : Taken o t → Life o 0 [t]
  | next {n : Nat} {t t' : Turn} {earlier : List Turn} : Life o n (t' :: earlier) → Taken o t →
      t.before = t'.after → Life o n (t :: t' :: earlier)
  | again {n : Nat} {t t' : Turn} {earlier : List Turn} (time : Int) : Life o n (t' :: earlier) →
      Taken o t → t.before = reset time t'.after → Life o (n + 1) (t :: t' :: earlier)

/-- The steps with some ending. -/
def ended (x : Ending) (turns : List Turn) : Nat := turns.countP fun t => t.ending = x

/-- The delays that were reported. -/
def delayed (turns : List Turn) : Nat :=
  turns.foldr (fun t n => delays t.before.state t.after.state + n) 0

theorem ended_cons (x : Ending) (t : Turn) (turns : List Turn) :
    ended x (t :: turns) = ended x turns + if t.ending = x then 1 else 0 := by
  simp only [ended, List.countP_cons, decide_eq_true_eq]

theorem delayed_cons (t : Turn) (turns : List Turn) :
    delayed (t :: turns) = delays t.before.state t.after.state + delayed turns := rfl

theorem length_eq (turns : List Turn) : turns.length = ended .completed turns + ended .waited turns +
    ended .lag turns + ended .fatal turns + ended .settled turns := by
  induction turns with
  | nil => rfl
  | cons t turns ih =>
    simp only [ended_cons, List.length_cons, ih]
    cases t.ending with
    | completed | waited | lag | fatal | settled =>
      simp only [reduceCtorEq, if_true, if_false]
      omega

namespace Taken

variable {o : Options} {t : Turn}

theorem advances (h : Taken o t) : Advances t.before.state t.after.state := by
  obtain ⟨r, s, answers, out, hbefore, hexec, -, hafter⟩ := h
  obtain ⟨job', hjob', hadv⟩ := step_advances o hbefore hexec
  cases hafter.symm.trans hjob'
  exact hadv

theorem completed (h : Taken o t) (hx : t.ending = .completed) :
    Next t.before.state t.after.state := by
  obtain ⟨r, s, answers, out, hbefore, hexec, hending, hafter⟩ := h
  obtain ⟨job', hjob', hnext⟩ := step_completed o hbefore hexec (hx ▸ hending)
  cases hafter.symm.trans hjob'
  exact hnext

theorem idle (h : Taken o t) (hover : t.before.state.terminal = true) : t.ending = .waited := by
  obtain ⟨r, s, answers, out, hbefore, -, hending, -⟩ := h
  exact step_over o hbefore hover hending

theorem settled (h : Taken o t) (hx : t.ending = .settled) : t.after.state = .executed := by
  obtain ⟨r, s, answers, out, hbefore, hexec, hending, hafter⟩ := h
  obtain ⟨job', hjob', hstate⟩ := step_settled o hbefore hexec (hx ▸ hending)
  cases hafter.symm.trans hjob'
  exact hstate

/-- One step against the steps that are still to complete. -/
theorem toGo (h : Taken o t) : t.after.state.toGo + (if t.ending = .completed then 1 else 0) ≤
    t.before.state.toGo + 2 * delays t.before.state t.after.state := by
  by_cases hx : t.ending = .completed
  · rw [if_pos hx]
    exact (h.completed hx).toGo
  · rw [if_neg hx]
    exact h.advances.toGo

end Taken

/-- The errors of a step against the counter; the fifth fails the job. -/
theorem Taken.errors {o : Options} {t : Turn} (h : Taken o t) :
    (if t.ending = .fatal then 1 else 0) + (if t.ending = .settled then 1 else 0) +
        (min t.before.attempts 4 + if t.before.state.terminal = true then 1 else 0) ≤
      4 * (if t.ending = .completed then 1 else 0) +
        (min t.after.attempts 4 + if t.after.state.terminal = true then 1 else 0) := by
  have hcounts := h.counts
  have hsettled := h.settled
  have hover := h.idle
  obtain ⟨before, x, after⟩ := t
  dsimp only at hcounts hsettled hover ⊢
  by_cases hterminal : before.state.terminal = true
  · -- such a step waits
    cases hover hterminal
    cases hcounts with
    | waited hsame hstate =>
      simp only [reduceCtorEq, if_false, hsame, hstate]
      omega
  rw [if_neg hterminal]
  cases hcounts with
  | completed hst hzero =>
    simp only [reduceCtorEq, if_true, if_false]
    omega
  | waited hsame =>
    simp only [reduceCtorEq, if_false, hsame]
    omega
  | lag hst hnext =>
    simp only [reduceCtorEq, if_false, hnext]
    omega
  | fatal hst hnext hfails =>
    simp only [reduceCtorEq, if_true, if_false]
    by_cases hfive : 5 ≤ after.attempts
    · rw [hfails.mpr hfive, if_pos (show JobState.failed.terminal = true from rfl)]
      omega
    · omega
  | settled hst hsame =>
    rw [hsettled rfl, if_pos (show JobState.executed.terminal = true from rfl)]
    simp only [reduceCtorEq, if_true, if_false, hsame]
    omega

namespace Life

variable {o : Options} {n : Nat} {t : Turn} {earlier : List Turn}

theorem taken (h : Life o n (t :: earlier)) : Taken o t := by
  cases h <;> assumption

/-- The steps that completed, and those that are still to complete. -/
theorem completed (h : Life o n (t :: earlier)) :
    t.after.state.toGo + ended .completed (t :: earlier) ≤ 5 * (n + 1) + 2 * delayed (t :: earlier) := by
  induction earlier generalizing n t with
  | nil =>
    have hstep := h.taken.toGo
    have hstart := t.before.state.toGo_le
    rw [ended_cons, delayed_cons]
    cases h with
    | first =>
      rw [show ended .completed [] = 0 from rfl, show delayed [] = 0 from rfl]
      omega
  | cons t' earlier ih =>
    have hstep := h.taken.toGo
    rw [ended_cons, delayed_cons]
    cases h with
    | next hlife _ hlink =>
      have hbefore := ih hlife
      rw [hlink] at hstep ⊢
      omega
    | again time hlife _ hlink =>
      have hbefore := ih hlife
      have hstart : t.before.state.toGo = 5 := by
        rw [hlink]
        rfl
      omega

/-- The errors that count, against the steps that completed. -/
theorem errors (h : Life o n (t :: earlier)) :
    ended .fatal (t :: earlier) + ended .settled (t :: earlier) ≤
      4 * ended .completed (t :: earlier) + 5 * n +
        (min t.after.attempts 4 + if t.after.state.terminal = true then 1 else 0) := by
  induction earlier generalizing n t with
  | nil =>
    have hstep := h.taken.errors
    simp only [ended_cons]
    cases h with
    | first =>
      simp only [show ∀ x, ended x [] = 0 from fun _ => rfl]
      omega
  | cons t' earlier ih =>
    have hstep := h.taken.errors
    simp only [ended_cons _ t]
    cases h with
    | next hlife _ hlink =>
      have hbefore := ih hlife
      rw [hlink] at hstep
      omega
    | again time hlife _ hlink =>
      have hbefore := ih hlife
      have hfive : min t'.after.attempts 4 + (if t'.after.state.terminal = true then 1 else 0) ≤ 5 := by
        split <;> omega
      omega

end Life

end Retry

/-- **A job ends, or it waits.**  However the services answer, all steps of a job but 30 for every time
it is started and 10 for every delay that is reported returned early or met a service that lags. -/
theorem job_ends {o : Options} {n : Nat} {turns : List Retry.Turn} (h : Retry.Life o n turns) :
    turns.length ≤ Retry.ended .waited turns + Retry.ended .lag turns + 30 * (n + 1) +
      10 * Retry.delayed turns := by
  cases turns with
  | nil => exact Nat.zero_le _
  | cons t earlier =>
    have hcompleted := h.completed
    have herrors := h.errors
    have hlast : min t.after.attempts 4 + (if t.after.state.terminal = true then 1 else 0) ≤ 5 := by
      split <;> omega
    rw [Retry.length_eq]
    omega

namespace SampleRetry

/-- Five genuine errors, and one more try after the job is put back. -/
def revived : List Retry.Turn := lagTurn (job 0 none) 1 :: genuine

theorem revived_life : Retry.Life options 1 revived :=
  .again 0 (.next (.next (.next (.next (.first (@taken exploding _ rfl rfl))
    (@taken exploding _ rfl rfl) rfl) (@taken exploding _ rfl rfl) rfl)
    (@taken exploding _ rfl rfl) rfl) (@taken exploding _ rfl rfl) rfl)
    (@taken lagging _ rfl rfl) rfl

end SampleRetry

open SampleRetry in
theorem job_ends_revived :
    Retry.ended .fatal revived = 5 ∧ revived.length = 6 ∧
      revived.length ≤ Retry.ended .waited revived + Retry.ended .lag revived + 30 * 2 +
        10 * Retry.delayed revived :=
  ⟨rfl, rfl, job_ends revived_life⟩

/-! ## 4. `ExecutorPipeline.run` -/

namespace ExecutorPipeline

/-- What comes in while `run` goes round once: the answers to the step, and the time at which the
sleep after it is over. -/
structure Beat where
  answers : List (Choice × Int)
  wake : Int := 0

/-- One time round: the job before and after the step, and the calls of the step. -/
structure Lap where
  before : Job
  after : Job
  calls : List Exchange

inductive Status
  /-- It asks for another step. -/
  | running
  | returned (job : Job)
  | threw (e : JsError)

/-- The loop of `run`.  `none` when the answers do not fit, or a sleep is cut short. -/
def loop (o : Options) (r : Ref) (pollMs deadline : Int) (beats : List Beat) (s : St) :
    Option (List Lap × Status × St) := do
  let current ← s.mem.heap[r]?
  if current.state.terminal = true ∨ deadline < s.mem.now then
    return ([], .returned current, s)
  match beats with
  | [] => return ([], .running, s)
  | beat :: beats =>
    let out ← exec (W := world) clockTo (step o r) beat.answers s
    let job ← out.st.mem.heap[r]?
    let lap : Lap := ⟨current, job, out.calls⟩
    match out.res with
    | .error e => return ([lap], .threw e, out.st)
    | .ok () =>
      if job.state = current.state then
        if beat.wake < out.st.mem.now + pollMs then none
        else do
          let (laps, status, s') ← loop o r pollMs deadline beats
            ⟨clockTo beat.wake out.st.mem, out.st.world⟩
          return (lap :: laps, status, s')
      else do
        let (laps, status, s') ← loop o r pollMs deadline beats out.st
        return (lap :: laps, status, s')

def run (o : Options) (r : Ref) (pollMs timeoutMs : Int) (beats : List Beat) (s : St) :
    Option (List Lap × Status × St) :=
  loop o r pollMs (s.mem.now + timeoutMs) beats s

/-- What the loop does, lap by lap. -/
inductive Laps (o : Options) (r : Ref) (pollMs deadline : Int) :
    List Beat → St → List Lap → Status → St → Prop
  | home {beats : List Beat} {s : St} {current : Job} : s.mem.heap[r]? = some current →
      (current.state.terminal = true ∨ deadline < s.mem.now) →
      Laps o r pollMs deadline beats s [] (.returned current) s
  | asks {s : St} : Laps o r pollMs deadline [] s [] .running s
  | threw {beat : Beat} {beats : List Beat} {s : St} {lap : Lap}
      {out : Async.Outcome sig world Int Unit} {e : JsError} :
      s.mem.heap[r]? = some lap.before → s.mem.now ≤ deadline →
      exec (W := world) clockTo (step o r) beat.answers s = some out → out.res = .error e →
      out.st.mem.heap[r]? = some lap.after → lap.calls = out.calls →
      Laps o r pollMs deadline (beat :: beats) s [lap] (.threw e) out.st
  | lap {beat : Beat} {beats : List Beat} {s s₁ s' : St} {lap : Lap} {laps : List Lap}
      {status : Status} {out : Async.Outcome sig world Int Unit} :
      s.mem.heap[r]? = some lap.before → s.mem.now ≤ deadline →
      exec (W := world) clockTo (step o r) beat.answers s = some out →
      out.st.mem.heap[r]? = some lap.after → lap.calls = out.calls →
      s₁.mem.heap = out.st.mem.heap →
      (if lap.after.state = lap.before.state then out.st.mem.now + pollMs ≤ s₁.mem.now
        else s₁.mem.now = out.st.mem.now) →
      Laps o r pollMs deadline beats s₁ laps status s' →
      Laps o r pollMs deadline (beat :: beats) s (lap :: laps) status s'

theorem loop_laps {o : Options} {r : Ref} {pollMs deadline : Int} {beats : List Beat} {s s' : St}
    {laps : List Lap} {status : Status}
    (h : loop o r pollMs deadline beats s = some (laps, status, s')) :
    Laps o r pollMs deadline beats s laps status s' := by
  induction beats generalizing s laps with
  | nil =>
    unfold loop at h
    obtain ⟨current, hcurrent, h⟩ := Option.bind_eq_some_iff.mp h
    split at h
    case isTrue hover =>
      cases h
      exact .home hcurrent hover
    case isFalse =>
      cases h
      exact .asks
  | cons beat beats ih =>
    unfold loop at h
    obtain ⟨current, hcurrent, h⟩ := Option.bind_eq_some_iff.mp h
    split at h
    case isTrue hover =>
      cases h
      exact .home hcurrent hover
    case isFalse hopen =>
      have hnow : s.mem.now ≤ deadline := Int.not_lt.mp fun hlate => hopen (Or.inr hlate)
      obtain ⟨out, hexec, h⟩ := Option.bind_eq_some_iff.mp h
      obtain ⟨job, hjob, h⟩ := Option.bind_eq_some_iff.mp h
      dsimp only at h
      split at h
      case h_1 e hres =>
        cases h
        exact .threw hcurrent hnow hexec hres hjob rfl
      case h_2 hres =>
        split at h
        case isTrue hsame =>
          split at h
          case isTrue => cases h
          case isFalse hwake =>
            obtain ⟨⟨laps, status, s'⟩, hloop, h⟩ := Option.bind_eq_some_iff.mp h
            cases h
            refine .lap hcurrent hnow hexec hjob rfl ?_ ?_ (ih hloop)
            · rfl
            · rw [if_pos hsame]
              exact Int.not_lt.mp hwake
        case isFalse hmoved =>
          obtain ⟨⟨laps, status, s'⟩, hloop, h⟩ := Option.bind_eq_some_iff.mp h
          cases h
          refine .lap hcurrent hnow hexec hjob rfl rfl ?_ (ih hloop)
          rw [if_neg hmoved]

namespace Lap

/-- The laps after which `run` sleeps, or would. -/
def slept (laps : List Lap) : Nat := laps.countP fun lap => lap.after.state = lap.before.state

/-- The delays reported in some laps. -/
def delayed (laps : List Lap) : Nat :=
  laps.foldr (fun lap n => delays lap.before.state lap.after.state + n) 0

theorem slept_cons (lap : Lap) (laps : List Lap) :
    slept (lap :: laps) = slept laps + if lap.after.state = lap.before.state then 1 else 0 := by
  simp only [slept, List.countP_cons, decide_eq_true_eq]

theorem delayed_cons (lap : Lap) (laps : List Lap) :
    delayed (lap :: laps) = delays lap.before.state lap.after.state + delayed laps := rfl

/-- The clock does not go back during a lap. -/
def Timed (lap : Lap) : Prop := ∀ x ∈ lap.calls, Solo.Timed (· ≤ ·) x

/-- Some write of a lap has failed. -/
def Spoilt (lap : Lap) : Prop := ∃ x ∈ lap.calls, works x = false

end Lap

/-- How the loop has ended: it has used up its beats, or has returned a job that is over or late, or
the disk has failed. -/
def ComesTo (r : Ref) (deadline : Int) (beats : List Beat) (laps : List Lap) (s' : St) : Status → Prop
  | .running => laps.length = beats.length
  | .returned job => s'.mem.heap[r]? = some job ∧
      (job.state.terminal = true ∨ deadline < s'.mem.now)
  | .threw _ => ∃ lap ∈ laps, lap.Spoilt

namespace Laps

variable {o : Options} {r : Ref} {pollMs deadline : Int} {beats : List Beat} {s s' : St}
  {laps : List Lap} {status : Status} {job job' : Job} {lap : Lap} {answers : List (Choice × Int)}
  {out : Async.Outcome sig world Int Unit}

/-- The state after a step, against what is still before the job. -/
theorem toGo (hj : s.mem.heap[r]? = some lap.before)
    (hexec : exec (W := world) clockTo (step o r) answers s = some out)
    (hj' : out.st.mem.heap[r]? = some lap.after) :
    lap.after.state.toGo + 1 ≤ lap.before.state.toGo +
      2 * delays lap.before.state lap.after.state +
        if lap.after.state = lap.before.state then 1 else 0 := by
  obtain ⟨job, hjob, hadv⟩ := Retry.step_advances o hj hexec
  cases hj'.symm.trans hjob
  split
  case isTrue => exact Nat.succ_le_succ hadv.toGo
  case isFalse hne => exact hadv.toGo_changed hne

/-- Every lap but a few ends in sleep. -/
theorem moved (h : Laps o r pollMs deadline beats s laps status s')
    (hj : s.mem.heap[r]? = some job) :
    laps.length ≤ Lap.slept laps + job.state.toGo + 2 * Lap.delayed laps := by
  induction h generalizing job with
  | home | asks => exact Nat.zero_le _
  | threw hbefore _ hexec _ hafter _ =>
    cases hj.symm.trans hbefore
    have hstep := toGo hbefore hexec hafter
    rw [Lap.slept_cons, Lap.delayed_cons, List.length_singleton]
    omega
  | lap hbefore _ hexec hafter _ hheap _ _ ih =>
    cases hj.symm.trans hbefore
    have hstep := toGo hbefore hexec hafter
    have hrest := ih (hheap ▸ hafter)
    rw [Lap.slept_cons, Lap.delayed_cons, List.length_cons]
    omega

/-- A step takes its time. -/
theorem later (hj : s.mem.heap[r]? = some lap.before)
    (hexec : exec (W := world) clockTo (step o r) answers s = some out)
    (hcalls : lap.calls = out.calls) (htimed : lap.Timed) : s.mem.now ≤ out.st.mem.now := by
  obtain ⟨-, hnow, -⟩ := runs_step .le o hj _ _ hexec (hcalls ▸ htimed)
  exact hnow

/-- The sleeps but the last fit in before the deadline. -/
theorem sleeps (h : Laps o r pollMs deadline beats s laps status s')
    (hclock : ∀ lap ∈ laps, lap.Timed) :
    Lap.slept laps = 0 ∨ ∃ n : Nat, Lap.slept laps = n + 1 ∧ n * pollMs ≤ deadline - s.mem.now := by
  induction h with
  | home | asks => exact Or.inl rfl
  | @threw _ _ s lap _ _ _ hnow =>
    by_cases hsame : lap.after.state = lap.before.state
    · refine Or.inr ⟨0, ?_, ?_⟩
      · rw [Lap.slept_cons, if_pos hsame]
        rfl
      · rw [Int.natCast_zero, Int.zero_mul]
        omega
    · refine Or.inl ?_
      rw [Lap.slept_cons, if_neg hsame]
      rfl
  | lap hbefore hnow hexec _ hcalls _ hwake _ ih =>
    have hlater := later hbefore hexec hcalls (hclock _ List.mem_cons_self)
    have hrest := ih fun lap hlap => hclock lap (List.mem_cons_of_mem _ hlap)
    rw [Lap.slept_cons]
    split at hwake
    case isTrue hsame =>
      rw [if_pos hsame]
      rcases hrest with hnone | ⟨n, hn, hfits⟩
      · refine Or.inr ⟨0, by rw [hnone], ?_⟩
        rw [Int.natCast_zero, Int.zero_mul]
        omega
      · refine Or.inr ⟨n + 1, by rw [hn], ?_⟩
        rw [Int.natCast_succ, Int.add_mul, Int.one_mul]
        omega
    case isFalse hmoved =>
      rw [if_neg hmoved]
      rcases hrest with hnone | ⟨n, hn, hfits⟩
      · exact Or.inl hnone
      · exact Or.inr ⟨n, hn, by omega⟩

theorem ends (h : Laps o r pollMs deadline beats s laps status s') :
    ComesTo r deadline beats laps s' status := by
  induction h with
  | home hcurrent hover => exact ⟨hcurrent, hover⟩
  | asks => rfl
  | @threw beat _ _ lap out e hbefore _ hexec hres _ hcalls =>
    obtain ⟨hworks, -⟩ := runs_step .any o hbefore _ _ hexec fun _ _ => trivial
    refine ⟨lap, List.mem_cons_self, ?_⟩
    by_contra hnot
    have hok : out.res = .ok () := hworks fun x hx => by
      by_contra hx'
      exact hnot ⟨x, hcalls ▸ hx, Bool.eq_false_iff.mpr hx'⟩
    rw [hres] at hok
    cases hok
  | @lap _ _ _ _ _ _ _ status _ _ _ _ _ _ _ _ _ ih =>
    cases status with
    | running =>
      rw [ComesTo] at ih ⊢
      rw [List.length_cons, List.length_cons, ih]
    | returned job => exact ih
    | threw e =>
      obtain ⟨lap, hlap, hspoilt⟩ := ih
      exact ⟨lap, List.mem_cons_of_mem _ hlap, hspoilt⟩

/-- The job only moves forward. -/
theorem forward (h : Laps o r pollMs deadline beats s laps status s')
    (hj : s.mem.heap[r]? = some job) :
    ∃ job', s'.mem.heap[r]? = some job' ∧ Forward job.state job'.state := by
  induction h generalizing job with
  | home hcurrent => exact ⟨job, hj, .refl⟩
  | asks => exact ⟨job, hj, .refl⟩
  | threw hbefore _ hexec _ hafter =>
    cases hj.symm.trans hbefore
    obtain ⟨job', hjob', hadv⟩ := Retry.step_advances o hbefore hexec
    exact ⟨job', hjob', .single hadv⟩
  | lap hbefore _ hexec hafter _ hheap _ _ ih =>
    cases hj.symm.trans hbefore
    obtain ⟨job₁, hjob₁, hadv⟩ := Retry.step_advances o hbefore hexec
    obtain ⟨job', hjob', hforward⟩ := ih (hheap ▸ hjob₁)
    exact ⟨job', hjob', .head hadv hforward⟩

end Laps

end ExecutorPipeline

/-- **`run` comes back**: in state `executed` or `failed`, or past its deadline, or because a write
of the job failed.  It takes six steps and two for every delay that is reported, beside as many as
it can sleep after. -/
theorem run_ends {o : Options} {r : Ref} {pollMs timeoutMs : Int} {beats : List Beat} {s s' : St}
    {job : Job} {laps : List Lap} {status : Status} (hpoll : 0 < pollMs) (htimeout : 0 ≤ timeoutMs)
    (hjob : s.mem.heap[r]? = some job)
    (hrun : run o r pollMs timeoutMs beats s = some (laps, status, s'))
    (hclock : ∀ lap ∈ laps, lap.Timed) :
    (laps.length : Int) ≤ 6 + 2 * Lap.delayed laps + timeoutMs / pollMs ∧
      (∃ job', s'.mem.heap[r]? = some job' ∧ Forward job.state job'.state) ∧
      ComesTo r (s.mem.now + timeoutMs) beats laps s' status := by
  have hlaps := loop_laps hrun
  refine ⟨?_, hlaps.forward hjob, hlaps.ends⟩
  have hmoved := hlaps.moved hjob
  have hfive := job.state.toGo_le
  have hquot : 0 ≤ timeoutMs / pollMs := Int.ediv_nonneg htimeout (Int.le_of_lt hpoll)
  rcases hlaps.sleeps hclock with hnone | ⟨n, hn, hfits⟩
  · omega
  · have hn' : (n : Int) ≤ timeoutMs / pollMs :=
      Int.le_ediv_of_mul_le hpoll (by omega)
    omega

namespace SampleRetry

/-- The verifier lags once, and then all goes through. -/
def beats : List Beat :=
  [⟨Sample.timed 1 (lagging.map Prod.fst), 20000⟩, ⟨Sample.timed 20001 Sample.preparing, 0⟩,
    ⟨Sample.timed 20002 Sample.submitting, 0⟩, ⟨Sample.timed 20003 Sample.finalizing, 0⟩,
    ⟨Sample.timed 20004 Sample.fetching, 0⟩, ⟨Sample.timed 20005 Sample.minting, 0⟩]

/-- `run` with the arguments of the scripts. -/
def driven : Option (List Lap × Status × St) := run options 0 15000 1500000 beats (st (job 0 none))

def finalState : Status → Option JobState
  | .returned job => some job.state
  | _ => none

end SampleRetry

open SampleRetry in
/-- A run that sleeps once and executes the job. -/
theorem run_ends_driven : ∃ laps status s', driven = some (laps, status, s') ∧ laps.length = 6 ∧
    finalState status = some .executed ∧
    (laps.length : Int) ≤ 6 + 2 * Lap.delayed laps + 1500000 / 15000 := by
  have hdriven : driven.map (fun out => (out.1.length, finalState out.2.1,
      out.1.all fun lap => lap.calls.all fun x => decide (x.before.mem.now ≤ x.drift))) =
        some (6, some .executed, true) := by
    decide +kernel
  obtain ⟨⟨laps, status, s'⟩, hrun, hout⟩ := Option.map_eq_some_iff.mp hdriven
  obtain ⟨hlength, hstate, hclock⟩ := (Prod.mk.inj hout).imp_right Prod.mk.inj
  refine ⟨laps, status, s', hrun, hlength, hstate, ?_⟩
  refine (run_ends (by decide) (by decide) rfl hrun fun lap hlap x hx => ?_).1
  have hlater : x.before.mem.now ≤ x.drift :=
    of_decide_eq_true (List.all_eq_true.mp (List.all_eq_true.mp hclock lap hlap) x hx)
  exact hlater

end OneSig.Executor
