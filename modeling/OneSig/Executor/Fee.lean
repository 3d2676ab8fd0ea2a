/-
# The attestation fee

A step that submits the request of a job pays a fee in the middle of a chain of calls: it looks up
the fee, broadcasts the transaction, waits for its receipt, computes the round from the time of
its block, and only then tells the job about it.  If a call after the broadcast is rejected the
step throws, the job stays `request_prepared`, and the next step pays again.

This module follows one job through any number of steps, one after the other, with any answer to
any call and a crash at any point, after which the job is loaded from its file.  `chain` records
what was broadcast, for which job, and `fees` counts the payments of one.

The fee is paid twice exactly when the payment is forgotten, which `Hides` and `stale` say in
terms of the call that is answered and of the file: a call after the broadcast fails (or the
broadcast itself, after it took effect), or the process dies before the file says so.  As long as
neither happens the fee is paid at most once (`attestation_fee_paid_once`), which is proved here
along every run; section 3 shows the receipt that times out (`timed_out_receipt_pays_twice`).

The invariant is that whoever holds the job knows of a payment: if a fee has been paid the job
object is past the early states, and if there is no object the file is (`Inv`).  A step has the
job to itself, so it is carried through the calls of a step by the library's ownership rule.

* `step_known`: one step.  `load_known`: one restart.  `sound`: the discipline that a run follows.
-/
import OneSig.Executor.StepSpec
import OneSig.Executor.Binding

namespace OneSig.Executor

open OneSig Async ExecutorService ExecutorPipeline

/-! ## 1. Runs on one job -/

/-- The states before the request is submitted. -/
def JobState.early : JobState → Bool
  | .observed => true
  | .request_prepared => true
  | _ => false

/-- A state that is no longer early stays so. -/
theorem Forward.early {st st' : JobState} (h : Forward st st') (hst : st.early = false) :
    st'.early = false := by
  induction h with
  | refl => exact hst
  | tail _ hadv ih =>
    cases hadv with
    | refl => exact ih
    | next hnext => cases hnext <;> first | rfl | cases ih
    | fail => rfl

namespace Fee

variable {o : Options} (id : Str)

/-- One step at a time, and a `load` only when the process holds no job. -/
def OneJob (e : Event o) (s : Sys o) : Prop :=
  match e with
  | .spawn (.step r) => r < s.mem.heap.length ∧ s.quiet = true
  | .spawn (.load id') => id' = id ∧ s.mem.heap.length = 0 ∧ s.quiet = true
  | .spawn _ => False
  | _ => True

/-- The fee has been paid and the job does not know. -/
def Unrecorded (s : St) : Prop :=
  0 < fees id s.world.chain ∧ ∃ job ∈ s.mem.heap, job.state.early = true

/-- The broadcast is reported as failed although it took effect. -/
def lost : Op → Choice → Bool
  | .requestAttestation _ _ _ _, .fail _ .full => true
  | _, _ => false

/-- The answer hides a payment from the job. -/
def Hides (op : Op) (c : Choice) (s : St) : Prop :=
  lost op c = true ∨ Unrecorded id s ∧ fails op c = true

/-- The file still says that nothing has been paid. -/
def stale (file : Option (Text Job)) : Bool :=
  match file with
  | some (.whole job) => job.state.early
  | _ => false

/-- No answer hides a payment from the job, and no crash forgets one. -/
def Remembered (e : Event o) (s : Sys o) : Prop :=
  match e with
  | .perform i c => ∀ p ∈ s.awaiting i, ¬ Hides id p.2 c s.st
  | .crash => 0 < fees id s.world.chain → stale (s.world.jobs id) = false
  | _ => True

instance (e : Event o) (s : Sys o) : Decidable (OneJob id e s) :=
  match e with
  | .spawn (.step r) => inferInstanceAs (Decidable (r < s.mem.heap.length ∧ s.quiet = true))
  | .spawn (.load id') =>
    inferInstanceAs (Decidable (id' = id ∧ s.mem.heap.length = 0 ∧ s.quiet = true))
  | .spawn (.register _) | .spawn (.prepare _) | .spawn .start | .spawn .tick
  | .spawn (.advance _) | .spawn (.stepping _ _ _) | .spawn .poll => .isFalse fun h => h
  | .perform _ _ | .disturb _ | .resume _ | .outside _ | .crash => .isTrue trivial

instance (s : St) : Decidable (Unrecorded id s) :=
  inferInstanceAs (Decidable (0 < fees id s.world.chain ∧ ∃ job ∈ s.mem.heap, job.state.early = true))

instance (op : Op) (c : Choice) (s : St) : Decidable (Hides id op c s) :=
  inferInstanceAs (Decidable (lost op c = true ∨ Unrecorded id s ∧ fails op c = true))

instance (e : Event o) (s : Sys o) : Decidable (Remembered id e s) :=
  match e with
  | .perform i c => inferInstanceAs (Decidable (∀ p ∈ s.awaiting i, ¬ Hides id p.2 c s.st))
  | .crash => inferInstanceAs
      (Decidable (0 < fees id s.world.chain → stale (s.world.jobs id) = false))
  | .spawn _ | .disturb _ | .resume _ | .outside _ => .isTrue trivial

/-! ## 2. At most one payment -/

/-- The job object knows of a payment. -/
def Known (s : St) : Prop := 0 < fees id s.world.chain → ∀ job ∈ s.mem.heap, job.state.early = false

structure Inv (s : St) : Prop where
  once : fees id s.world.chain ≤ 1
  single : s.mem.heap.length ≤ 1
  heap : ∀ job ∈ s.mem.heap, job.id = id
  file : ∀ job, s.world.jobs id = some (.whole job) → job.id = id
  gone : s.mem.heap = [] → 0 < fees id s.world.chain → stale (s.world.jobs id) = false

/-- The discipline of a run on one job: everything is one kind, one task at a time. -/
def discipline : Discipline (machine o) Unit where
  kind := fun _ => ()
  excl := fun _ => True
  inv := Inv id
  rely := fun _ s s' => view s' = view s
  guar := fun _ _ _ => True
  adm := fun _ op c s => ¬ Hides id op c s
  pre := fun l s => match l with
    | .step r => r < s.mem.heap.length ∧ Known id s
    | .load id' => id' = id ∧ s.mem.heap = []
    | _ => False
  idle := fun _ s => Known id s

variable {id}

theorem Known.of_view {s s' : St} (h : Known id s) (hv : view s' = view s) : Known id s' := by
  have hheap : s'.mem.heap = s.mem.heap := congrArg View.heap hv
  have hchain : s'.world.chain = s.world.chain := congrArg View.chain hv
  unfold Known
  rw [hheap, hchain]
  exact h

/-- A step has its job to itself. -/
theorem owned (l : Label) (r : Ref) : Owned ((discipline (o := o) id).spec l) r where
  rely_refl := fun _ => rfl
  rely_view := fun _ _ h => h
  readOnly := fun _ _ => trivial
  cache := fun _ _ _ hi => ⟨⟨hi.once, hi.single, hi.heap, hi.file, hi.gone⟩, trivial⟩
  update := by
    intro s job f hi hj hmove
    refine ⟨⟨hi.once, ?_, ?_, hi.file, ?_⟩, trivial⟩
    · simp only [Memory.updateJob, List.length_modify]
      exact hi.single
    · intro job' hjob'
      obtain ⟨k, hk⟩ := List.mem_iff_getElem?.mp hjob'
      simp only [Memory.updateJob, List.getElem?_modify] at hk
      obtain ⟨old, hold, rfl⟩ := Option.map_eq_some_iff.mp hk
      by_cases hrk : r = k
      · subst hrk
        rw [hj, Option.some.injEq] at hold
        subst hold
        simp only [if_true]
        have hid : (f job).id = job.id := congrArg Prod.fst hmove.core
        exact hid.trans (hi.heap job (List.mem_of_getElem? hj))
      · simp only [if_neg hrk]
        exact hi.heap old (List.mem_of_getElem? hold)
    · intro hnil
      have : s.mem.heap = [] := by simpa [Memory.updateJob] using hnil
      rw [this] at hj
      cases hj
  write := by
    intro s job e hi hj
    have hid := hi.heap job (List.mem_of_getElem? hj)
    refine ⟨⟨hi.once, hi.single, hi.heap, ?_, ?_⟩, trivial⟩
    · intro job' hfile
      rcases whole_of_write hfile with hold | ⟨-, rfl⟩
      · exact hi.file job' hold
      · exact hid
    · intro hnil
      have hnil' : s.mem.heap = [] := hnil
      rw [hnil'] at hj
      cases hj
  mint := by
    intro s job proof manager e hi hj
    rw [effect_broadcast rfl]
    split
    · have hspent := spent_mint id job.xrplTxId proof job.userOpData job.totalCallValue
        s.world.chain id
      simp only [ite_true, Nat.add_zero] at hspent
      refine ⟨⟨hspent ▸ hi.once, hi.single, hi.heap, hi.file, ?_⟩, trivial⟩
      intro hnil
      have hnil' : s.mem.heap = [] := hnil
      rw [hnil'] at hj
      cases hj
    · exact ⟨hi, trivial⟩

/-- What is known when a step starts: nothing has been paid for a prepared request. -/
theorem mayPay {s : St} {job : Job} {r : Ref} (l : Label) (hknown : Known id s)
    (hj : s.mem.heap[r]? = some job) (hid : job.id = id) (hst : job.state = .request_prepared) :
    MayPay ((discipline (o := o) id).spec l) (view s) job.id job.abiEncodedRequest := by
  have hzero : fees id s.world.chain = 0 := by
    rcases Nat.eq_zero_or_pos (fees id s.world.chain) with h | h
    · exact h
    · have := hknown h job (List.mem_of_getElem? hj)
      rw [hst] at this
      cases this
  intro hub value e s₁ hi₁ hv₁
  refine ⟨?_, trivial⟩
  rw [effect_broadcast rfl]
  split
  case isFalse => exact hi₁
  case isTrue =>
    have hchain : s₁.world.chain = s.world.chain := congrArg View.chain hv₁
    have hheap : s₁.mem.heap = s.mem.heap := congrArg View.heap hv₁
    refine ⟨?_, hi₁.single, hi₁.heap, hi₁.file, ?_⟩
    · have hspent := spent_request id job.abiEncodedRequest value s₁.world.chain id
      rw [hid]
      simp only [ite_true, hchain, hzero] at hspent
      simp only [hchain, hspent]
      omega
    · intro hnil
      rw [show s₁.mem.heap = [] from hnil] at hheap
      rw [← hheap] at hj
      cases hj

/-- No answer that is admitted hides a payment. -/
theorem not_lossy {s : St} {job : Job} {r : Ref} (l : Label) (hj : s.mem.heap[r]? = some job)
    (hid : job.id = id) (hst : job.state = .request_prepared) :
    ¬ Lossy ((discipline (o := o) id).spec l) (view s) job.id job.abiEncodedRequest := by
  rintro (⟨hub, value, e, s₁, -, hadm⟩ | ⟨value, op, c, s₁, hadm, hv₁, hfails⟩)
  · exact hadm (Or.inl rfl)
  · have hchain : s₁.world.chain = _ := congrArg View.chain hv₁
    have hheap : s₁.mem.heap = s.mem.heap := congrArg View.heap hv₁
    have hunrec : Unrecorded id s₁ := by
      constructor
      · have hspent := spent_request id job.abiEncodedRequest value s.world.chain id
        simp only [ite_true] at hspent
        rw [hchain, hid]
        exact hspent ▸ Nat.succ_pos _
      · refine ⟨job, ?_, by rw [hst]; rfl⟩
        rw [hheap]
        exact List.mem_of_getElem? hj
    exact hadm (Or.inr ⟨hunrec, hfails⟩)

/-- **The step lemma**: after a step, however it ends, the job knows of every payment, when no
answer in it has hidden one. -/
theorem step_known {s : St} {r : Ref} (hi : Inv id s) (hr : r < s.mem.heap.length)
    (hknown : Known id s) :
    wp ((discipline (o := o) id).spec (.step r)) (step o r)
      (fun _ s' => Inv id s' ∧ Known id s') s := by
  obtain ⟨job, hj⟩ : ∃ job, s.mem.heap[r]? = some job := ⟨_, List.getElem?_eq_getElem hr⟩
  have hid := hi.heap job (List.mem_of_getElem? hj)
  have hone : s.mem.heap = [job] := by
    have hlen := hi.single
    match hm : s.mem.heap with
    | [] => simp [hm] at hr
    | [job'] =>
      have hr0 : r = 0 := by simpa [hm] using hr
      subst hr0
      simp only [hm, List.getElem?_cons_zero, Option.some.injEq] at hj
      rw [hj]
    | _ :: _ :: _ => simp [hm] at hlen
  refine wp_mono ((owned (.step r) r).wp_step o hi rfl hj (mayPay _ hknown hj hid)) ?_
  rintro res s' ⟨hi', hstepped⟩
  refine ⟨hi', ?_⟩
  generalize hv' : view s' = v' at hstepped
  cases hstepped with
  | returned => exact hknown.of_view hv'
  | saved job' ch n res v' hsaved hcore hforward hspent hfee =>
    have hheap : s'.mem.heap = (view s).heap.set r job' := by
      have h : s'.mem.heap = v'.heap := congrArg View.heap hv'
      rw [h]
      cases hsaved <;> rfl
    have hchain : s'.world.chain = ch := by
      have h : s'.world.chain = v'.chain := congrArg View.chain hv'
      rw [h]
      cases hsaved <;> rfl
    intro hpaid job'' hjob''
    have hjob' : job'' = job' := by
      have hr0 : r = 0 := by simpa [hone] using hr
      subst hr0
      have hset : (view s).heap = [job] := hone
      simpa [hheap, hset] using hjob''
    subst hjob'
    by_cases hn : n = 0
    · -- nothing was paid in this step: what was known before still is
      subst hn
      have hsame := hspent id
      simp only [ite_self, Nat.add_zero] at hsame
      rw [hchain, hsame] at hpaid
      exact hforward.early (hknown hpaid job (List.mem_of_getElem? hj))
    · obtain ⟨-, hst, hsub | hlossy⟩ := hfee hn
      · rw [hsub]
        rfl
      · exact absurd hlossy (not_lossy _ hj hid hst)

/-- The job is loaded as its file has it. -/
theorem load_known {s : St} (l : Label) (hnil : s.mem.heap = []) :
    wp ((discipline (o := o) id).spec l) (load id)
      (fun _ s' => Inv id s' ∧ Known id s') s := by
  have hnil' : ∀ {s' : St}, view s' = view s → s'.mem.heap = [] := fun hv =>
    (congrArg View.heap hv).trans hnil
  have hknown : ∀ {s' : St}, s'.mem.heap = [] → Known id s' := by
    intro s' h _ job hjob
    rw [h] at hjob
    cases hjob
  unfold load
  refine wp_tryCatch (wp_bind ((owned l 0).wp_read rfl ?_))
  intro res s₂ c s₁ w _ hv₁ hper hi₂ hv₂
  cases res with
  | error e => exact ⟨hi₂, hknown (hnil' hv₂)⟩
  | ok raw =>
    refine wp_bind (wp_lift ?_)
    cases raw with
    | torn => exact ⟨hi₂, hknown (hnil' hv₂)⟩
    | whole job =>
      have hfile : s₁.world.jobs id = some (.whole job) := perform_readJob hper
      have hjobs : s₁.world.jobs = s₂.world.jobs := congrArg View.jobs (hv₁.trans hv₂.symm)
      rw [hjobs] at hfile
      have hheap : (Memory.alloc job.stored s₂.mem).heap = [job.stored] := by
        simp only [Memory.alloc, hnil' hv₂, List.nil_append]
      have hi₃ : Inv id ⟨Memory.alloc job.stored s₂.mem, s₂.world⟩ := by
        refine ⟨hi₂.once, ?_, ?_, hi₂.file, ?_⟩
        · simp [hheap]
        · simp only [hheap, List.mem_singleton]
          rintro _ rfl
          exact hi₂.file job hfile
        · simp [hheap]
      have hknown₃ : Known id ⟨Memory.alloc job.stored s₂.mem, s₂.world⟩ := by
        intro hpaid job' hjob'
        simp only [hheap, List.mem_singleton] at hjob'
        subst hjob'
        have hstale := hi₂.gone (hnil' hv₂) hpaid
        rw [hfile] at hstale
        exact hstale
      simp only [bindPost]
      unfold newJob
      refine wp_bind (wp_bind (wp_gets ?_))
      exact wp_bind (wp_modify hi₃ trivial ⟨hi₃, hknown₃⟩)

theorem sound : (discipline (o := o) id).Sound where
  rely_refl := fun _ _ => rfl
  rely_trans := fun _ _ _ _ h h' => Eq.trans h' h
  guar_refl := fun _ _ => trivial
  guar_trans := fun _ _ _ _ _ _ => trivial
  compat := fun _ _ h => absurd trivial (h rfl)
  pre_stable := by
    intro l s s' hv _ hpre
    have hheap : s'.mem.heap = s.mem.heap := congrArg View.heap hv
    cases l with
    | step r => exact ⟨hheap ▸ hpre.1, hpre.2.of_view hv⟩
    | load id' => exact ⟨hpre.1, hheap.trans hpre.2⟩
    | _ => exact hpre
  idle_stable := fun _ _ _ hv _ h => h.of_view hv
  idle_open := fun _ _ h => absurd trivial h
  code := by
    intro l s hi hpre
    cases l with
    | step r =>
      refine wp_seq (step_known hi hpre.1 hpre.2) ?_ ?_
      · rintro _ s' ⟨-, hknown⟩
        exact wp_pure hknown
      · rintro e s' ⟨-, hknown⟩
        exact hknown
    | load id' =>
      obtain ⟨rfl, hnil⟩ := hpre
      refine wp_seq (load_known (.load id') hnil) ?_ ?_
      · rintro _ s' ⟨-, hknown⟩
        exact wp_pure hknown
      · rintro e s' ⟨-, hknown⟩
        exact hknown
    | _ => exact absurd hpre (by trivial)

theorem allows {e : Event o} {s : Sys o} (hone : OneJob id e s) (hrem : Remembered id e s) :
    (discipline id).Allows e s := by
  cases e with
  | spawn l =>
    have hquiet : s.quiet = true → ∀ t ∈ s.tasks, t.done = true := fun h => by
      simpa [Sys.quiet] using h
    cases l with
    | step r => exact ⟨fun _ t ht _ => hquiet hone.2 t ht, fun _ hidle => ⟨hone.1, hidle⟩⟩
    | load id' =>
      obtain ⟨hid, hlen, hq⟩ := hone
      exact ⟨fun _ t ht _ => hquiet hq t ht,
        fun _ _ => ⟨hid, List.length_eq_zero_iff.mp hlen⟩⟩
    | _ => exact hone.elim
  | perform i c => exact fun l op k ht => hrem (l, op) (Sys.awaiting_eq ht)
  | disturb i => trivial
  | resume i => trivial
  | outside x =>
    refine fun hi => ⟨?_, fun _ _ _ => ?_, fun _ hidle => ?_⟩
    · cases x <;> exact ⟨hi.once, hi.single, hi.heap, hi.file, hi.gone⟩
    · cases x <;> rfl
    · cases x <;> exact hidle
  | crash =>
    refine fun hi => ⟨⟨hi.once, ?_, ?_, hi.file, fun _ => hrem⟩, fun _ _ job hjob => ?_⟩
    · exact Nat.zero_le _
    · intro job hjob
      cases hjob
    · cases hjob

end Fee

/-- **The fee is paid at most once** in every run in which no answer hides a payment from the job
and no crash forgets one. -/
theorem attestation_fee_paid_once {o : Options} {job : Job} {m : Memory} {w : Outside}
    (hheap : m.heap = [job]) (hunpaid : fees job.id w.chain = 0)
    (hfile : ∀ job', w.jobs job.id = some (.whole job') → job'.id = job.id) {s : Sys o}
    (hrun : Run (fun e s => Fee.OneJob job.id e s ∧ Fee.Remembered job.id e s) ⟨m, w, []⟩ s) :
    fees job.id s.world.chain ≤ 1 := by
  have hinv : Fee.Inv job.id ⟨m, w⟩ := by
    refine ⟨?_, ?_, ?_, hfile, ?_⟩
    · exact hunpaid.trans_le (Nat.zero_le _)
    · simp [hheap]
    · simp [hheap]
    · simp [hheap]
  have hknown : Fee.Known job.id ⟨m, w⟩ := fun hpaid => absurd hpaid (by simp [hunpaid])
  have hok := Discipline.Ok.init (D := Fee.discipline (o := o) job.id) hinv fun _ => hknown
  exact (Fee.sound.run hok (hrun.mono fun e s h => Fee.allows h.1 h.2)).inv.once

/-! ## 3. A receipt that times out -/

namespace Sample

/-- A job whose request is prepared, and whose file says so. -/
def preparedJob : Job where
  id := txId
  state := .request_prepared
  xrplTxId := hexPrefix ++ txId
  userOpData := userOpData
  totalCallValue := 5
  personalAccount := .str "0xcdcdcdcdcdcdcdcdcdcdcdcdcdcdcdcdcdcdcdcd".toList
  nonce := 7
  abiEncodedRequest := some "0x08".toList
  attempts := 0
  updatedAt := 0

/-- The process holds that job and nothing else. -/
def holding : Sys (options tables) :=
  ⟨{ Memory.boot 0 with heap := [preparedJob] },
    { Outside.fresh [] with
      jobs := Function.update (fun _ => none) txId (some (.whole preparedJob)) }, []⟩

/-- One step that submits the request, a crash, and a step of the job loaded again. -/
def submitted : List (Event (options tables)) :=
  task 0 (.step 0) submitting ++ [.crash] ++
    task 0 (.load txId) [.done] ++ task 1 (.step 0) finalizing

/-- The receipt does not come in time, and the next step submits the request again. -/
def resubmitted : List (Event (options tables)) :=
  task 0 (.step 0) [address, address, .nat 10, txHash, .fail (.error "timed out".toList) .nothing,
    .done, .done] ++
    task 1 (.step 0) [address, .nat 10, txHash, receipt, .nat 1000, address, .nat 100, .nat 90,
      .done, .done]

end Sample

/-- A request is submitted, the process is restarted, and the fee has been paid once. -/
theorem attestation_fee_paid_once_submitted :
    ∃ s : Sys (Sample.options Sample.tables),
      fees Sample.txId s.world.chain = 1 ∧ fees Sample.txId s.world.chain ≤ 1 := by
  have hrun : (Sys.runIf (fun e s => Fee.OneJob Sample.txId e s ∧ Fee.Remembered Sample.txId e s)
      Sample.submitted Sample.holding).map (fun s => fees Sample.txId s.world.chain) = some 1 := by
    decide +kernel
  obtain ⟨s, hs, hfees⟩ := Option.map_eq_some_iff.mp hrun
  refine ⟨s, hfees, attestation_fee_paid_once (show _ = [Sample.preparedJob] from rfl) rfl ?_
    (Run.of_runIf _ hs)⟩
  intro job' hjob'
  cases hjob'
  rfl

/-- **The fee is paid twice**: the broadcast succeeds, the wait for its receipt fails, and the
next step broadcasts again. -/
theorem timed_out_receipt_pays_twice :
    (Sys.run Sample.resubmitted Sample.holding).map (fun s => s.world.chain) =
      some [.requestAttestation Sample.txId (some "0x08".toList) 10,
        .requestAttestation Sample.txId (some "0x08".toList) 10] := by
  decide +kernel

end OneSig.Executor
