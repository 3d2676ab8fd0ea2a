/-
# What a receipt is taken for

The user's own calls run in the transaction of the mint and may emit any log.  `findDelayedEvent`
takes the first log of the receipt that decodes to one of the two delay events, whoever emitted
it; the address of a log is never looked at.  So a contract that the user calls can emit a delay,
and the job of a mint that has gone through waits for it (`forged_delay_delays`).  A receipt is
taken for what it is as long as no log comes before the asset manager's that reads like one of its
own.

`Classified` is what the job should have become: delayed until a time that the asset manager has
announced, or executed if it has announced none.  `Unforged` is the condition on the logs and on
the number of attempts before.  The attempts matter in one case: a delay too far in the future for
a `Date` throws in the log line, after the job has been made delayed, and is counted as a failed
attempt, which fails a job that has four (`Dated`).

The step is taken among all the others of its process, as in `LostRace`, and `Takes` says that the
receipt of every mint of it is taken as the logs say.

* `Judged`: what the logs of a receipt that went through make of a job.  `Saved`: what is handed
  to the save after it.
* `unforged_iff_some`, `classified_delayed_iff`: the two sides when a delay is found.
* `Saved.classified_iff`: they agree.  `among_tried`: the `try` and the `catch` of the step around
  them.
-/
import OneSig.Executor.LostRace

namespace OneSig.Executor

open OneSig Async ExecutorPipeline

namespace Receipts

/-! ## 1. The logs -/

/-- The second until which a log says the execution is put off. -/
def delayOf (viem : Viem) (log : Log) : Option Int :=
  match viem.decodeEventLog log with
  | .error _ => none
  | .ok decoded =>
    if decoded.eventName = "DirectMintingDelayed".toList ∨
        decoded.eventName = "LargeDirectMintingDelayed".toList then decoded.executionAllowedAt
    else none

/-- The asset manager has emitted this log, and it puts the execution off until `t`. -/
def Announces (o : Options) (log : Log) (t : Int) : Prop :=
  toLowerCase log.address = toLowerCase o.assetManager ∧ delayOf o.viem log = some t

/-- The first log that reads like a delay. -/
def firstDelay (viem : Viem) (logs : List Log) : Option Log :=
  logs.find? fun log => (delayOf viem log).isSome

/-- The time of a delay is one of a `Date`. -/
def Dated (t : Int) : Prop := (t * 1000).natAbs ≤ 8640000000000000

/-- The job is what the asset manager has made of it. -/
structure Classified (o : Options) (logs : List Log) (job : Job) : Prop where
  delayed_iff : job.state = .delayed ↔ ∃ log ∈ logs, ∃ t, Announces o log t
  allowed : job.state = .delayed → ∃ log ∈ logs, ∃ t, Announces o log t ∧
    job.executionAllowedAt = some (t * 1000)
  executed : (∀ log ∈ logs, ∀ t, ¬Announces o log t) → job.state = .executed

/-- The first log that reads like a delay names the time of one of the asset manager's, and the
line that is logged about it does not fail the job. -/
def Unforged (o : Options) (logs : List Log) (attempts : Nat) : Prop :=
  ∀ log ∈ firstDelay o.viem logs, ∀ t, delayOf o.viem log = some t →
    (∃ log' ∈ logs, Announces o log' t) ∧ (Dated t ∨ attempts < 4)

theorem findDelayedEvent_eq (viem : Viem) (logs : List Log) :
    findDelayedEvent viem logs = logs.findSome? (delayOf viem) := rfl

/-- The time that is found is that of the first log that has one. -/
theorem findDelayedEvent_firstDelay (viem : Viem) (logs : List Log) :
    findDelayedEvent viem logs = (firstDelay viem logs).bind (delayOf viem) := by
  rw [findDelayedEvent_eq, firstDelay]
  induction logs with
  | nil => rfl
  | cons log logs ih =>
    cases h : delayOf viem log with
    | none => simp [h, ih]
    | some t => simp [h]

theorem findDelayedEvent_none {viem : Viem} {logs : List Log}
    (h : findDelayedEvent viem logs = none) : ∀ log ∈ logs, delayOf viem log = none := by
  rw [findDelayedEvent_eq, List.findSome?_eq_none_iff] at h
  exact h

/-! ## 2. What becomes of the job -/

/-- What the logs of a receipt that went through make of a job, and how the switch goes on. -/
inductive Judged (o : Options) (logs : List Log) (job : Job) : Except JsError Flow → Job → Prop
  | executed : findDelayedEvent o.viem logs = none →
      Judged o logs job (.ok .save) { job with state := .executed }
  | delayed (t : Int) : findDelayedEvent o.viem logs = some t → Dated t →
      Judged o logs job (.ok .save)
        { job with executionAllowedAt := some (t * 1000), state := .delayed }
  | undated (t : Int) (message : Str) : findDelayedEvent o.viem logs = some t → ¬Dated t →
      Judged o logs job (.error (.error message))
        { job with executionAllowedAt := some (t * 1000), state := .delayed }

/-- What is handed to the save after it. -/
inductive Saved (o : Options) (logs : List Log) (job : Job) : Job → Prop
  | moved {job' : Job} (time : Int) : Judged o logs job (.ok .save) job' →
      Saved o logs job { job' with attempts := 0, lastError := none, updatedAt := time }
  | counted {e : JsError} {job' : Job} (time : Int) : Judged o logs job (.error e) job' →
      Saved o logs job { countAttempt e job' with updatedAt := time }

section Logs

variable {o : Options} {logs : List Log} {job job' : Job}

/-- A delay is found. -/
theorem unforged_iff_some {t : Int} (h : findDelayedEvent o.viem logs = some t) (attempts : Nat) :
    Unforged o logs attempts ↔
      (∃ log ∈ logs, Announces o log t) ∧ (Dated t ∨ attempts < 4) := by
  rw [findDelayedEvent_firstDelay, Option.bind_eq_some_iff] at h
  obtain ⟨log, hlog, ht⟩ := h
  constructor
  · intro hu
    exact hu log hlog t ht
  · intro hu log' hlog' t' ht'
    rw [hlog] at hlog'
    obtain rfl := Option.some.inj hlog'
    rw [ht] at ht'
    obtain rfl := Option.some.inj ht'
    exact hu

theorem unforged_of_none (h : findDelayedEvent o.viem logs = none) (attempts : Nat) :
    Unforged o logs attempts := by
  intro log hlog t ht
  rw [findDelayedEvent_firstDelay, Option.mem_def.mp hlog, Option.bind_some, ht] at h
  cases h

/-- A job that is delayed until the time that was found. -/
theorem classified_delayed_iff {t : Int} (hstate : job.state = .delayed)
    (ht : job.executionAllowedAt = some (t * 1000)) :
    Classified o logs job ↔ ∃ log ∈ logs, Announces o log t := by
  constructor
  · intro h
    obtain ⟨log, hlog, t', hannounces, hallowed⟩ := h.allowed hstate
    rw [ht] at hallowed
    have heq := Option.some.inj hallowed
    obtain rfl : t = t' := by omega
    exact ⟨log, hlog, hannounces⟩
  · rintro ⟨log, hlog, hannounces⟩
    refine ⟨iff_of_true hstate ⟨log, hlog, t, hannounces⟩, fun _ => ⟨log, hlog, t, hannounces, ht⟩,
      fun h => absurd hannounces (h log hlog t)⟩

/-- **What is saved** after the receipt is what the asset manager has made of the job exactly when
no log before its own reads like a delay. -/
theorem Saved.classified_iff (h : Saved o logs job job') :
    Classified o logs job' ↔ Unforged o logs job.attempts := by
  cases h with
  | moved time hjudged =>
    generalize hres : (Except.ok Flow.save : Except JsError Flow) = res at hjudged
    cases hjudged with
    | executed hnone =>
      refine iff_of_true ?_ (unforged_of_none hnone _)
      have hno : ∀ log ∈ logs, ∀ t, ¬Announces o log t := by
        rintro log hlog t ⟨-, ht⟩
        rw [findDelayedEvent_none hnone log hlog] at ht
        cases ht
      refine ⟨iff_of_false nofun ?_, nofun, fun _ => rfl⟩
      rintro ⟨log, hlog, t, hannounces⟩
      exact hno log hlog t hannounces
    | delayed t hsome hdated =>
      rw [unforged_iff_some hsome, and_iff_left (Or.inl hdated)]
      exact classified_delayed_iff rfl rfl
    | undated => cases hres
  | counted time hjudged =>
    generalize hres : (Except.error _ : Except JsError Flow) = res at hjudged
    cases hjudged with
    | executed => cases hres
    | delayed => cases hres
    | undated t message hsome hdated =>
      cases hres
      rw [unforged_iff_some hsome, or_iff_right hdated]
      by_cases hlast : job.attempts < 4
      · rw [and_iff_left hlast]
        refine classified_delayed_iff ?_ rfl
        simp only [countAttempt]
        rw [if_neg (by omega)]
      · -- the fifth attempt fails the job, delayed or not
        refine iff_of_false (fun h => ?_) fun h => hlast h.2
        have hstate : (countAttempt (.error message)
            { job with executionAllowedAt := some (t * 1000), state := .delayed }).state =
            .failed := by
          simp only [countAttempt, retryable]
          exact if_pos ⟨trivial, by omega⟩
        by_cases hannounced : ∃ log ∈ logs, ∃ t, Announces o log t
        · have hdelayed := h.delayed_iff.mpr hannounced
          exact nomatch hstate.symm.trans hdelayed
        · have hexecuted := h.executed fun log hlog t ht => hannounced ⟨log, hlog, t, ht⟩
          exact nomatch hstate.symm.trans hexecuted

end Logs

/-! ## 3. The step -/

/-- The answer is a receipt that went through. -/
def Mined (receipt : Receipt) (x : LostRace.Exchange) : Prop :=
  (∃ hash, x.op = .waitForTransactionReceipt hash) ∧ x.choice = .receipt receipt ∧
    receipt.reverted = false

theorem not_mined {x : LostRace.Exchange} (h : LostRace.silent x.op = true) (receipt : Receipt) :
    ¬Mined receipt x := by
  rintro ⟨⟨hash, hop⟩, -⟩
  rw [hop] at h
  cases h

/-- No receipt that went through is among these answers. -/
def Unmined (calls : List LostRace.Exchange) : Prop := ∀ x ∈ calls, ∀ receipt, ¬Mined receipt x

theorem Unmined.nil : Unmined [] := fun _ h => absurd h List.not_mem_nil

theorem Unmined.append {calls calls' : List LostRace.Exchange} (h : Unmined calls)
    (h' : Unmined calls') : Unmined (calls ++ calls') := by
  intro x hx
  rcases List.mem_append.mp hx with hx | hx
  · exact h x hx
  · exact h' x hx

theorem Unmined.of_silent {calls : List LostRace.Exchange}
    (h : ∀ x ∈ calls, LostRace.silent x.op = true) : Unmined calls :=
  fun x hx => not_mined (h x hx)

theorem Unmined.singleton {x : LostRace.Exchange} (h : ∀ receipt, ¬Mined receipt x) :
    Unmined [x] := by
  intro y hy
  rw [List.mem_singleton.mp hy]
  exact h

/-- The calls of a step up to the receipt of its mint, and the job as the step finds it then. -/
def Waited (r : Ref) (receipt : Receipt) (job : Job) (calls : List LostRace.Exchange) : Prop :=
  ∃ before x, calls = before ++ [x] ∧ Unmined before ∧
    (∀ z ∈ before ++ [x], LostRace.beginsSave z.op = false) ∧ Mined receipt x ∧
    x.drift.heap[r]? = some job

/-- Where the switch has come to. -/
inductive Switched (o : Options) (r : Ref) (id : Hex) :
    List LostRace.Exchange → Except JsError Flow → St → Prop
  | unmined {calls : List LostRace.Exchange} {res : Except JsError Flow} {s' : St} :
      Unmined calls → LostRace.Has r id s'.mem → Switched o r id calls res s'
  | mined {calls : List LostRace.Exchange} {res : Except JsError Flow} {s' : St}
      {receipt : Receipt} {job job' : Job} : Waited r receipt job calls →
      Judged o receipt.logs job res job' → s'.mem.heap[r]? = some job' →
      Switched o r id calls res s'

/-- Where the `try` and the `catch` have come to: the job that is handed to the save. -/
inductive Handed (o : Options) (r : Ref) :
    List LostRace.Exchange → Except JsError Flow → St → Prop
  | unmined {calls : List LostRace.Exchange} {res : Except JsError Flow} {s' : St} :
      Unmined calls → (res = .ok .save → ∃ job, s'.mem.heap[r]? = some job) →
      Handed o r calls res s'
  | mined {calls : List LostRace.Exchange} {s' : St} {receipt : Receipt} {job job' : Job} :
      Waited r receipt job calls → s'.mem.heap[r]? = some job' →
      (∀ time, Saved o receipt.logs job { job' with updatedAt := time }) →
      Handed o r calls (.ok .save) s'

/-- The receipt of every mint of a step is taken as the logs say. -/
def Takes (o : Options) (r : Ref) (calls : List LostRace.Exchange) : Prop :=
  ∀ x ∈ calls, ∀ receipt, Mined receipt x → ∃ job job', x.drift.heap[r]? = some job ∧
    LostRace.lastTurn r calls = some (job, job') ∧ Saved o receipt.logs job job'

section Step

open LostRace

variable (o : Options) {r : Ref} {s : St}

theorem toISOString_eq (t : Int) : (toISOString (t * 1000) = .ok () ∧ Dated t) ∨
    ∃ message, toISOString (t * 1000) = .error (.error message) ∧ ¬Dated t := by
  unfold toISOString Dated
  by_cases h : 8640000000000000 < (t * 1000).natAbs
  · exact .inr ⟨_, if_pos h, Nat.not_le.mpr h⟩
  · exact .inl ⟨if_neg h, Nat.not_lt.mp h⟩

/-- The logs of a receipt that went through. -/
theorem among_logs (logs : List Log) {job : Job} (hj : s.mem.heap[r]? = some job) :
    Among r (match findDelayedEvent o.viem logs with
      | some delay => do
        Prog.modify (Memory.updateJob r fun job =>
          { job with executionAllowedAt := some (delay * 1000), state := .delayed })
        Prog.lift (S := sig) (toISOString (delay * 1000))
        return Flow.save
      | none => do
        Prog.modify (Memory.updateJob r fun job => { job with state := .executed })
        return Flow.save) (fun calls res s' => calls = [] ∧ ∃ job', Judged o logs job res job' ∧
          s'.mem.heap[r]? = some job') s := by
  cases hfind : findDelayedEvent o.viem logs with
  | none =>
    refine alone_then (among_update hj fun s₁ hj₁ => ⟨rfl, _, rfl, ?_⟩)
    exact alone_pure ⟨rfl, _, .executed hfind, hj₁⟩
  | some t =>
    refine alone_then (among_update hj fun s₁ hj₁ => ⟨rfl, _, rfl, ?_⟩)
    rcases toISOString_eq t with ⟨hiso, hdated⟩ | ⟨message, hiso, hdated⟩
    · rw [hiso]
      refine alone_lift_seq (fun _ _ => ?_) nofun
      exact alone_pure ⟨rfl, _, .delayed t hfind hdated, hj₁⟩
    · rw [hiso]
      refine alone_lift_seq nofun fun e he => ?_
      obtain rfl := Except.error.inj he
      exact ⟨rfl, _, .undated t message hfind hdated, hj₁⟩

theorem among_switch (job : Job) {id : Hex} (hhas : Has r id s.mem) :
    Among r (caseProofFetched o r job) (Switched o r id) s := by
  unfold caseProofFetched
  refine alone_seq (among_fetchProof o _ _ hhas) ?_ ?_
  case refine_2 =>
    rintro calls e s₁ ⟨hcalls, h₁⟩
    exact .unmined (.of_silent fun x hx => (hcalls x hx).1) h₁
  rintro fetch proof s₁ ⟨hfetch, h₁⟩
  have hunmined : Unmined fetch := .of_silent fun x hx => (hfetch x hx).1
  obtain ⟨job₁, hj₁, hid⟩ := h₁
  have h₁ : Has r id s₁.mem := ⟨job₁, hj₁, hid⟩
  refine alone_then (among_deref hj₁ ⟨rfl, _, rfl, ?_⟩)
  have hmint : ∀ c d, Unmined (fetch ++ [⟨.executeDirectMintingWithData job₁.xrplTxId
      o.assetManager proof job₁.userOpData job₁.totalCallValue, s₁, c, d⟩]) := fun c d =>
    hunmined.append (.singleton fun receipt => by
      rintro ⟨⟨hash, hop⟩, -⟩
      cases hop)
  refine alone_seq among_call ?_ ?_
  case refine_2 =>
    rintro calls e s₂ ⟨c, d, rfl, hs₂, hkeeps, -⟩
    exact .unmined (hmint c d) (hs₂ ▸ hkeeps.has h₁)
  rintro calls hash s₂ ⟨c, d, rfl, hs₂, hkeeps, -⟩
  obtain ⟨job₂, hj₂, hid₂⟩ := hkeeps.has h₁
  refine alone_then (among_update (hs₂ ▸ hj₂) fun s₃ hj₃ => ⟨rfl, _, rfl, ?_⟩)
  have h₃ : Has r id s₃.mem := ⟨_, hj₃, hid₂⟩
  refine alone_seq among_call ?_ ?_
  · rintro calls receipt s₄ ⟨c', d', rfl, hs₄, hkeeps', w, hper⟩
    obtain ⟨job₄, hj₄, hid₄⟩ := hkeeps'.has h₃
    have hj₄' : s₄.mem.heap[r]? = some job₄ := hs₄ ▸ hj₄
    obtain rfl := Solo.perform_receipt hper
    by_cases hrev : receipt.reverted = true
    · rw [if_pos hrev]
      refine alone_lift (.unmined ?_ ⟨job₄, hj₄', hid₄⟩)
      rw [List.append_nil, ← List.append_assoc]
      refine (hmint c d).append (.singleton fun receipt' => ?_)
      rintro ⟨-, heq, hok⟩
      cases heq
      rw [hrev] at hok
      cases hok
    · rw [if_neg hrev]
      refine alone_mono (among_logs o receipt.logs hj₄') ?_
      rintro _ res s₅ ⟨rfl, job', hjudged, hj'⟩
      refine .mined ?_ hjudged hj'
      rw [List.append_nil, ← List.append_assoc]
      refine ⟨_, _, rfl, hmint c d, fun z hz => ?_, ?_, hj₄⟩
      · rw [List.mem_append, List.mem_append, List.mem_singleton, List.mem_singleton] at hz
        rcases hz with (hz | rfl) | rfl
        · exact (hfetch z hz).2
        · rfl
        · rfl
      · exact ⟨⟨hash, rfl⟩, rfl, Bool.eq_false_iff.mpr hrev⟩
  · rintro calls e s₄ ⟨c', d', rfl, hs₄, hkeeps', w, hper⟩
    obtain ⟨part, rfl⟩ := perform_error rfl hper
    refine .unmined ?_ (hs₄ ▸ hkeeps'.has h₃)
    rw [← List.append_assoc]
    refine (hmint c d).append (.singleton fun receipt => ?_)
    rintro ⟨-, heq, -⟩
    cases heq

/-- The error of a date that cannot be printed is counted. -/
theorem Judged.not_race {logs : List Log} {job job' : Job} {e : JsError}
    (h : Judged o logs job (.error e) job') :
    ¬(job'.state = .proof_fetched ∧ isAlreadyConfirmed e = true) := by
  generalize hres : (Except.error e : Except JsError Flow) = res at h
  cases h with
  | executed => cases hres
  | delayed => cases hres
  | undated => exact fun hrace => nomatch hrace.1

/-- What the `catch` calls is no mint. -/
theorem unmined_caught {job : Job} {e : JsError} {calls : List LostRace.Exchange}
    {res : Except JsError Flow} {s' : St} (h : LostRace.Caught r job e calls res s') : Unmined calls := by
  cases h with
  | counted => exact .nil
  | unused => exact .singleton (not_mined rfl)
  | settled _ _ _ _ hsaves =>
    refine .of_silent fun x hx => ?_
    rcases List.mem_cons.mp hx with rfl | hx
    · rfl
    · exact hsaves.silent x hx

theorem caught_has {job : Job} {e : JsError} {calls : List LostRace.Exchange} {s' : St}
    (h : LostRace.Caught r job e calls (.ok .save) s') : ∃ job', s'.mem.heap[r]? = some job' := by
  generalize hres : (Except.ok Flow.save : Except JsError Flow) = res at h
  cases h with
  | counted _ hj => exact ⟨_, hj⟩
  | unused _ hhas =>
    obtain ⟨job', hj, -⟩ := hhas
    exact ⟨job', hj⟩
  | settled hne => exact absurd hres.symm hne

/-- The `try` and the `catch`. -/
theorem among_tried {job : Job} (hj : s.mem.heap[r]? = some job)
    (hst : job.state = .proof_fetched) :
    Among r ((tryBlock o r).tryCatch (catchBlock r)) (Handed o r) s := by
  have htry : Among r (tryBlock o r) (fun calls res s' => match res with
      | .ok _ => Handed o r calls res s'
      | .error _ => Switched o r job.xrplTxId calls res s') s := by
    unfold tryBlock
    refine alone_then (among_deref hj ⟨rfl, _, rfl, ?_⟩)
    have hswitch : switch o r job = caseProofFetched o r job := by rw [switch, hst]
    rw [hswitch]
    refine alone_seq (among_switch o job ⟨job, hj, rfl⟩) ?_ fun _ _ _ h => h
    rintro calls flow s₁ h
    generalize hres : (Except.ok flow : Except JsError Flow) = res at h
    cases h with
    | unmined hcalls hhas =>
      obtain ⟨job₁, hj₁, -⟩ := hhas
      cases flow with
      | returned =>
        refine alone_pure (.unmined ?_ fun h => by cases h)
        rwa [List.append_nil]
      | save =>
        refine alone_then (among_update hj₁ fun s₂ hj₂ => ⟨rfl, _, rfl, ?_⟩)
        refine alone_pure (.unmined ?_ fun _ => ⟨_, hj₂⟩)
        rwa [List.append_nil]
    | mined hwaited hjudged hj' =>
      cases hres
      cases flow with
      | returned =>
        generalize hret : (Except.ok Flow.returned : Except JsError Flow) = ret at hjudged
        cases hjudged <;> cases hret
      | save =>
        refine alone_then (among_update hj' fun s₂ hj₂ => ⟨rfl, _, rfl, ?_⟩)
        refine alone_pure (.mined ?_ hj₂ fun time => (Saved.moved time hjudged :))
        rwa [List.append_nil]
  refine alone_tryCatch htry (fun _ _ _ h => h) fun calls e s₁ h => ?_
  have h : Switched o r job.xrplTxId calls (.error e) s₁ := h
  generalize hres : (Except.error e : Except JsError Flow) = res at h
  cases h with
  | unmined hcalls hhas =>
    obtain ⟨job₁, hj₁, -⟩ := hhas
    refine alone_mono (among_catchBlock hj₁ e) fun calls' res' s₂ hcaught => ?_
    exact .unmined (hcalls.append (unmined_caught hcaught)) fun hok => caught_has (hok ▸ hcaught)
  | mined hwaited hjudged hj' =>
    cases hres
    refine among_catchBlock_counted hj' (hjudged.not_race o) fun hj₂ => ?_
    rw [List.append_nil]
    exact .mined hwaited hj₂ fun time => .counted time hjudged

theorem among_step_takes {job : Job} (hj : s.mem.heap[r]? = some job)
    (hst : job.state = .proof_fetched) :
    Among r (step o r) (fun calls _ _ => Takes o r calls) s := by
  have hnone : ∀ calls, Unmined calls → Takes o r calls :=
    fun calls h x hx receipt hmined => absurd hmined (h x hx receipt)
  unfold step
  refine alone_seq (among_tried o hj hst) ?_ ?_
  · rintro calls flow s₁ h
    generalize hres : (Except.ok flow : Except JsError Flow) = res at h
    cases h with
    | unmined hcalls hhas =>
      cases flow with
      | returned =>
        refine alone_pure (hnone _ ?_)
        rwa [List.append_nil]
      | save =>
        obtain ⟨job₁, hj₁⟩ := hhas hres.symm
        refine alone_mono (among_save hj₁) ?_
        rintro calls' res' s₂ ⟨time, hsaves⟩
        exact hnone _ (hcalls.append (.of_silent hsaves.silent))
    | mined hwaited hj' hsaved =>
      cases hres
      obtain ⟨before, x, rfl, hunmined, hlead, hmined, hjob⟩ := hwaited
      refine alone_mono (among_save hj') ?_
      rintro calls' res' s₂ ⟨time, hsaves⟩
      have hsilent := hsaves.silent
      obtain ⟨s₃, c, d, rest, rfl, hs₃, -⟩ := hsaves
      intro y hy receipt' hmined'
      have hturn := @lastTurn_eq r before rest x ⟨.mkdirState, s₃, c, d⟩
        (fun z hz => hlead z (List.mem_append_left _ hz))
        (hlead x (List.mem_append_right _ (List.mem_singleton_self x))) rfl _ _ hjob hs₃
      rw [List.mem_append, List.mem_append, List.mem_singleton] at hy
      rcases hy with (hy | rfl) | hy
      · exact absurd hmined' (hunmined y hy receipt')
      · obtain rfl := Choice.receipt.inj (hmined.2.1.symm.trans hmined'.2.1)
        refine ⟨_, _, hjob, ?_, hsaved time⟩
        rw [List.append_assoc]
        exact hturn
      · exact absurd hmined' (not_mined (hsilent y hy) receipt')
  · rintro calls e s₁ h
    generalize hres : (Except.error e : Except JsError Flow) = res at h
    cases h with
    | unmined hcalls _ => exact hnone _ hcalls
    | mined => cases hres

end Step

end Receipts

open LostRace Receipts

namespace SampleReceipt

/-- What the asset manager emits when it puts a mint off. -/
def ours : Log := ⟨SampleRace.options.assetManager, "0x01".toList, ["0xd1".toList]⟩

/-- The same event, emitted by a contract the user's operation calls. -/
def forged : Log := ⟨"0xbad0".toList, "0x02".toList, ["0xd1".toList]⟩

def options : Options :=
  { SampleRace.options with
    viem := ViemTables.viem
      { events := [(ours, ⟨"DirectMintingDelayed".toList, some 100⟩),
          (forged, ⟨"DirectMintingDelayed".toList, some 200⟩)] } }

def delayedJob (t : Int) : Job :=
  { SampleRace.sentJob with
    state := .delayed, attempts := 0, executionAllowedAt := some (t * 1000) }

/-- The answer with the receipt. -/
def mined (logs : List Log) : LostRace.Exchange :=
  SampleRace.exchange (.waitForTransactionReceipt "0xff".toList) (.receipt ⟨false, 1, logs⟩)
    SampleRace.sentJob SampleRace.sentJob SampleRace.mined

/-- The calls of a step whose mint is mined with these logs, and the job it ends with. -/
def calls (logs : List Log) (t : Int) : List LostRace.Exchange :=
  [SampleRace.fetch,
    SampleRace.exchange SampleRace.mintOp (.hex "0xff".toList) SampleRace.job SampleRace.job,
    mined logs,
    SampleRace.exchange .mkdirState .done (delayedJob t) (delayedJob t) SampleRace.mined,
    SampleRace.exchange (.writeJob SampleRace.job.id (delayedJob t)) .done (delayedJob t)
      (delayedJob t) SampleRace.mined]

/-- How the step ends. -/
def outcome (logs : List Log) (t : Int) : Async.Outcome sig world Memory Unit where
  res := .ok ()
  st := ⟨SampleRace.mem (delayedJob t),
    effect .full SampleRace.mined (.writeJob SampleRace.job.id (delayedJob t))⟩
  calls := calls logs t
  rest := []

def run (logs : List Log) (t : Int) : Option (Async.Outcome sig world Memory Unit) :=
  Async.exec woken (step options 0) (SampleRace.answers (calls logs t))
    ⟨SampleRace.mem SampleRace.job, SampleRace.outside⟩

theorem keeps_calls (logs : List Log) (t : Int) : ∀ x ∈ calls logs t, Keeps 0 x := by
  simp only [calls, SampleRace.fetch, mined, List.forall_mem_cons]
  exact ⟨SampleRace.keeps_exchange rfl, SampleRace.keeps_exchange rfl,
    SampleRace.keeps_exchange rfl, SampleRace.keeps_exchange rfl, SampleRace.keeps_exchange rfl,
    by simp⟩

theorem mined_mem (logs : List Log) (t : Int) : mined logs ∈ calls logs t := by
  simp [calls]

theorem mined_receipt (logs : List Log) : Mined ⟨false, 1, logs⟩ (mined logs) :=
  ⟨⟨_, rfl⟩, rfl, rfl⟩

/-- The log of the asset manager is the first one. -/
theorem unforged_ours : Unforged options [ours, forged] 4 := by
  intro log hlog t ht
  have hfirst : firstDelay options.viem [ours, forged] = some ours := by decide +kernel
  obtain rfl := Option.some.inj (hfirst.symm.trans hlog)
  refine ⟨⟨ours, List.mem_cons_self .., rfl, ht⟩, .inl ?_⟩
  obtain rfl : 100 = t := by
    have hours : delayOf options.viem ours = some 100 := by decide +kernel
    exact Option.some.inj (hours.symm.trans ht)
  unfold Dated
  decide

end SampleReceipt

/-- **A receipt is taken for what it is exactly when no log forges a delay**: the first log that
reads like one names the time of one of the asset manager's. -/
theorem receipt_classified_iff (o : Options) {r : Ref} {s : St} {job : Job}
    (hj : s.mem.heap[r]? = some job) (hst : job.state = .proof_fetched)
    {answers : List (Choice × Memory)} {out : Async.Outcome sig world Memory Unit}
    (hexec : Async.exec (W := world) woken (step o r) answers s = some out)
    (hkeeps : ∀ x ∈ out.calls, Keeps r x) {x : LostRace.Exchange} (hx : x ∈ out.calls)
    {receipt : Receipt} (hmined : Mined receipt x) :
    ∃ before after, x.drift.heap[r]? = some before ∧
      lastTurn r out.calls = some (before, after) ∧
      (Classified o receipt.logs after ↔ Unforged o receipt.logs before.attempts) := by
  have htakes := among_step_takes o hj hst answers out hexec hkeeps
  obtain ⟨before, after, hbefore, hturn, hsaved⟩ := htakes x hx receipt hmined
  exact ⟨before, after, hbefore, hturn, hsaved.classified_iff⟩

open SampleReceipt in
/-- A delay of the asset manager, before a forged one. -/
theorem receipt_classified_genuine : Classified options [ours, forged] (delayedJob 100) := by
  have hexec : run [ours, forged] 100 = some (outcome [ours, forged] 100) := rfl
  obtain ⟨before, after, hbefore, hturn, hiff⟩ := receipt_classified_iff options rfl rfl hexec
    (keeps_calls _ _) (mined_mem _ _) (mined_receipt _)
  obtain rfl : SampleRace.sentJob = before := Option.some.inj hbefore
  obtain rfl : delayedJob 100 = after := congrArg Prod.snd (Option.some.inj hturn)
  exact hiff.mpr unforged_ours

open SampleReceipt in
/-- **A forged delay delays the job**, though the asset manager has minted: the only log of the
receipt that reads like a delay is from another contract. -/
theorem forged_delay_delays : ∃ out, run [forged] 200 = some out ∧
    (∀ x ∈ out.calls, Keeps 0 x) ∧ mined [forged] ∈ out.calls ∧
    Mined ⟨false, 1, [forged]⟩ (mined [forged]) ∧
    ∃ before after, lastTurn 0 out.calls = some (before, after) ∧
      after.state = .delayed ∧ ¬Classified options [forged] after := by
  refine ⟨outcome [forged] 200, rfl, keeps_calls _ _, mined_mem _ _, mined_receipt _,
    SampleRace.sentJob, delayedJob 200, rfl, rfl, fun h => ?_⟩
  have hexecuted := h.executed fun log hlog t hannounces => by
    rw [List.mem_singleton.mp hlog] at hannounces
    exact absurd hannounces.1 (by decide)
  exact nomatch hexecuted

end OneSig.Executor
