/-
# Steps that overlap

`start` puts a tick on a timer, and nothing keeps a tick from starting while an earlier one is
suspended inside a step.  Both then hold the same job object: each reads its state before its
calls and writes it after them, so both may submit its request, and the slower one sets the job
back to what it was before the other one finished (`overlapping_steps_submit_twice`).

When ticks do not overlap, and the calls succeed, every job has at most one step in flight, its
fee is paid at most once and its state only moves forward: sections 1 to 3 prove it along every
such run, with requests coming in at any time (`one_step_per_job`).  That calls succeed is needed
for the fee, which a receipt that times out has paid twice; `Fee` is about that.  A run starts
with directories that an earlier process may have left, as long as every job file is under its own
name and nothing has been paid.

A second job object for one payment would be a second way to a second fee.  There is none: the
watcher marks the hash of every payment it returns, in the form the server gives it, and every job
has the id of a marked hash (`Inv`, `Fresh`).

The proof is a conduct of the service (`Sequential`): what a tick owns while it runs, what
requests leave alone, and what one round of each loop does.

* `Fresh.createdOne`: one round of the creation loop.  `Books.stepped`: one step of a job.
* `good`: the conduct is met; section 4 is two ticks that overlap.
-/
import OneSig.Executor.Sequential
import OneSig.Executor.Fee

namespace OneSig.Executor

open OneSig Async ExecutorPipeline ExecutorService

/-! ## 1. Moving forward -/

/-- The order of the states. -/
def JobState.rank : JobState → Nat
  | .observed => 0
  | .request_prepared => 1
  | .request_submitted => 2
  | .round_finalized => 3
  | .proof_fetched => 4
  | .delayed => 5
  | .executed => 6
  | .failed => 7

/-- Not backwards, but for a delayed mint that is tried again. -/
def JobState.NotBack (st st' : JobState) : Prop :=
  st.rank ≤ st'.rank ∨ st = .delayed ∧ st' = .proof_fetched

theorem Advances.notBack {a b c : JobState} (h : JobState.NotBack a b) (hbc : Advances b c) :
    JobState.NotBack a c := by
  cases hbc with
  | refl => exact h
  | next hnext =>
    unfold JobState.NotBack at h ⊢
    cases hnext <;> cases a <;> simp_all [JobState.rank]
  | fail =>
    left
    cases a <;> simp [JobState.rank]

theorem Forward.notBack {st st' : JobState} (h : Forward st st') : JobState.NotBack st st' := by
  induction h with
  | refl => exact Or.inl (Nat.le_refl _)
  | tail _ hadv ih => exact hadv.notBack ih

/-- An executed job stays executed. -/
theorem Forward.executed {st : JobState} (h : Forward .executed st) : st = .executed := by
  induction h with
  | refl => rfl
  | tail _ hadv ih =>
    subst ih
    cases hadv with
    | refl => rfl
    | next hnext => cases hnext
    | fail hn => cases hn

/-! ## 2. Calls that succeed -/

/-- The form in which the server gives a transaction hash. -/
def isCanonicalHash (hash : Str) : Bool := isTxHash hash && decide (toUpperCase hash = hash)

/-- A payment has its hash in that form. -/
def AccountTxEntry.canonical (entry : AccountTxEntry) : Bool :=
  match entry.payment with
  | none => true
  | some tx => (entry.paymentHash tx).all isCanonicalHash

/-- The call succeeds: it is not rejected, an epoch has a length, and hashes are in their form. -/
def succeeds (op : Op) (c : Choice) : Bool :=
  !fails op c && match c with
    | .transactions (.result (some page)) => page.all AccountTxEntry.canonical
    | _ => true

namespace Overlap

variable {o : Options}

/-- Every call succeeds, and nothing crashes. -/
def Succeeds (e : Event o) (s : Sys o) : Prop :=
  match e with
  | .spawn (.advance _) | .spawn (.stepping _ _ _) | .spawn .poll | .spawn (.load _)
  | .spawn (.step _) => False
  | .perform i c => ∀ p ∈ s.awaiting i, succeeds p.2 c = true
  | .crash => False
  | _ => True

instance (e : Event o) (s : Sys o) : Decidable (Succeeds e s) :=
  match e with
  | .perform i c => inferInstanceAs (Decidable (∀ p ∈ s.awaiting i, succeeds p.2 c = true))
  | .crash | .spawn (.advance _) | .spawn (.stepping _ _ _) | .spawn .poll | .spawn (.load _)
  | .spawn (.step _) => .isFalse fun h => h
  | .spawn .start | .spawn .tick | .spawn (.register _) | .spawn (.prepare _)
  | .disturb _ | .resume _ | .outside _ => .isTrue trivial

/-- The task is in the middle of a step of the job at a reference. -/
def steps (r : Ref) (t : Task (machine o)) : Bool :=
  match t.label with
  | .stepping _ _ r' => decide (r' = r) && !t.done
  | _ => false

/-- A step of the job at a reference is in flight in the task with a number. -/
def Stepping (s : Sys o) (r : Ref) (i : Nat) : Prop := (s.tasks[i]?).any (steps r) = true

instance (s : Sys o) (r : Ref) (i : Nat) : Decidable (Stepping s r i) :=
  inferInstanceAs (Decidable (_ = true))

theorem Stepping.task {s : Sys o} {r : Ref} {i : Nat} (h : Stepping s r i) :
    ∃ t, s.tasks[i]? = some t ∧ kindOf t.label = .ticks ∧ t.done = false := by
  obtain ⟨t, ht, hsteps⟩ := (Option.any_eq_true _ _).mp h
  refine ⟨t, ht, ?_⟩
  unfold steps at hsteps
  split at hsteps
  case h_1 place id r' hlabel =>
    simp only [Bool.and_eq_true, Bool.not_eq_true'] at hsteps
    exact ⟨by rw [hlabel]; rfl, hsteps.2⟩
  case h_2 => cases hsteps

/-! ## 3. The conduct -/

/-- Every job of its own id, which is a hash the watcher has seen; fees are paid for jobs only. -/
structure Inv (s : St) : Prop where
  ids : (s.mem.heap.map Job.id).Nodup
  seen : ∀ job ∈ s.mem.heap, job.id ∈ s.mem.seen
  live : ∀ id r, (id, r) ∈ s.mem.live.pairs → r < s.mem.heap.length
  files : ∀ id job, s.world.jobs id = some (.whole job) → job.id = id
  paid : ∀ id, 0 < fees id s.world.chain → ∃ job ∈ s.mem.heap, job.id = id
  once : ∀ id, fees id s.world.chain ≤ 1

/-- Jobs stay and move forward. -/
def Evolves (s s' : St) : Prop :=
  ∀ (r : Ref) (job : Job), s.mem.heap[r]? = some job → ∃ job' : Job, s'.mem.heap[r]? = some job' ∧
    job'.core = job.core ∧ Forward job.state job'.state

theorem Evolves.of_heap {s s' : St} (h : s'.mem.heap = s.mem.heap) : Evolves s s' := by
  intro r job hj
  exact ⟨job, h ▸ hj, rfl, .refl⟩

theorem Evolves.trans {s s' s'' : St} (h : Evolves s s') (h' : Evolves s' s'') :
    Evolves s s'' := by
  intro r job hj
  obtain ⟨job', hj', hcore, hforward⟩ := h r job hj
  obtain ⟨job'', hj'', hcore', hforward'⟩ := h' r job' hj'
  exact ⟨job'', hj'', hcore'.trans hcore, hforward.trans hforward'⟩

/-- Every job knows of its payment. -/
def Books (v : View) : Prop :=
  ∀ job ∈ v.heap, 0 < fees job.id v.chain → job.state.early = false

variable (o) in
def conduct : Conduct o where
  inv := Inv
  guar := fun s s' => Grows s s' ∧ Evolves s s'
  adm := fun _ op c _ => succeeds op c = true
  books := Books
  record := fun _ => True
  prepared := fun _ => True

section Rules

variable {s : St}

/-- A change of the memory beside the jobs. -/
theorem Inv.beside (h : Inv s) {m : Memory} (hheap : m.heap = s.mem.heap)
    (hlive : m.live = s.mem.live) (hseen : ∀ x ∈ s.mem.seen, x ∈ m.seen) : Inv ⟨m, s.world⟩ := by
  refine ⟨?_, ?_, ?_, h.files, ?_, h.once⟩
  · simp only [hheap]
    exact h.ids
  · simp only [hheap]
    exact fun job hj => hseen _ (h.seen job hj)
  · simp only [hheap, hlive]
    exact h.live
  · simp only [hheap]
    exact h.paid

/-- A move of a job. -/
theorem Inv.update (h : Inv s) {r : Ref} {job : Job} {f : Job → Job}
    (hj : s.mem.heap[r]? = some job) (hmove : JobMove job (f job)) :
    Inv ⟨s.mem.updateJob r f, s.world⟩ ∧ Evolves s ⟨s.mem.updateJob r f, s.world⟩ := by
  have hid : (f job).id = job.id := congrArg Prod.fst hmove.core
  have hheap : (s.mem.updateJob r f).heap = s.mem.heap.set r (f job) := by
    simp only [Memory.updateJob, List.modify_eq_set_getElem?, hj]
    rfl
  have hlt : r < s.mem.heap.length := (List.getElem?_eq_some_iff.mp hj).1
  have hids : (s.mem.updateJob r f).heap.map Job.id = s.mem.heap.map Job.id := by
    rw [hheap, List.map_set, hid]
    refine List.ext_getElem? fun i => ?_
    rw [List.getElem?_set]
    split
    case isTrue hi =>
      subst hi
      rw [List.getElem?_map, hj, if_pos (by simpa using hlt)]
      rfl
    case isFalse => rfl
  have hmem : ∀ x, (∃ job ∈ (s.mem.updateJob r f).heap, job.id = x) ↔
      ∃ job ∈ s.mem.heap, job.id = x := by
    intro x
    rw [← List.mem_map, ← List.mem_map, hids]
  constructor
  · refine ⟨hids ▸ h.ids, ?_, ?_, h.files, ?_, h.once⟩
    · intro job' hj'
      obtain ⟨old, hold, hoid⟩ := (hmem job'.id).mp ⟨job', hj', rfl⟩
      rw [← hoid]
      exact h.seen old hold
    · intro id r' hr'
      have hlen : (s.mem.updateJob r f).heap.length = s.mem.heap.length := by
        rw [hheap, List.length_set]
      exact hlen ▸ h.live id r' hr'
    · intro id hpaid
      exact (hmem id).mpr (h.paid id hpaid)
  · intro r' old hold
    simp only [hheap, List.getElem?_set]
    split
    case isTrue hrr =>
      subst hrr
      rw [hj, Option.some.injEq] at hold
      subst hold
      exact ⟨f job, rfl, hmove.core, .single hmove.state⟩
    case isFalse => exact ⟨old, hold, rfl, .refl⟩

/-- A new job with an id of its own. -/
theorem Inv.alloc (h : Inv s) {job : Job} (hseen : job.id ∈ s.mem.seen)
    (hnew : ∀ old ∈ s.mem.heap, old.id ≠ job.id) :
    Inv ⟨Memory.alloc job s.mem, s.world⟩ ∧ Evolves s ⟨Memory.alloc job s.mem, s.world⟩ := by
  constructor
  · refine ⟨?_, ?_, ?_, h.files, ?_, h.once⟩
    · simp only [Memory.alloc, List.map_append, List.map_cons, List.map_nil]
      refine List.Nodup.append h.ids (List.nodup_singleton _) ?_
      intro x hx hx'
      obtain ⟨old, hold, rfl⟩ := List.mem_map.mp hx
      exact hnew old hold (List.mem_singleton.mp hx')
    · intro job' hj'
      rcases List.mem_append.mp hj' with hold | hj'
      · exact h.seen job' hold
      · rw [List.mem_singleton.mp hj']
        exact hseen
    · intro id r hr
      simp only [Memory.alloc, List.length_append, List.length_singleton]
      exact Nat.lt_succ_of_lt (h.live id r hr)
    · intro id hpaid
      obtain ⟨old, hold, hid⟩ := h.paid id hpaid
      exact ⟨old, List.mem_append_left _ hold, hid⟩
  · intro r old hold
    refine ⟨old, ?_, rfl, .refl⟩
    simp only [Memory.alloc]
    rw [List.getElem?_append_left (List.getElem?_eq_some_iff.mp hold).1]
    exact hold

/-- A change of the outside that pays no fee. -/
theorem Inv.world (h : Inv s) {w : Outside}
    (hfiles : ∀ id job, w.jobs id = some (.whole job) →
      s.world.jobs id = some (.whole job) ∨ job.id = id)
    (hfees : ∀ id, fees id w.chain = fees id s.world.chain) : Inv ⟨s.mem, w⟩ := by
  refine ⟨h.ids, h.seen, h.live, ?_, ?_, ?_⟩
  · intro id job hfile
    rcases hfiles id job hfile with hold | hnew
    · exact h.files id job hold
    · exact hnew
  · intro id hpaid
    exact h.paid id (hfees id ▸ hpaid)
  · intro id
    rw [hfees id]
    exact h.once id

end Rules

/-- A tick has its books to itself. -/
theorem ticking (l : Label) : Ticking ((conduct o).tickSpec l) where
  rely_refl := fun s => .refl s
  rely_view := fun _ _ h => h.1
  rely_grows := fun _ _ h => h.2
  guar_grows := fun _ _ h => h.1
  readOnly := fun s _ => ⟨.refl s, .of_heap rfl⟩
  cursor := fun s _ hi => ⟨hi.beside rfl rfl fun _ h => h, .refl s, .of_heap rfl⟩
  mark := fun s _ hi =>
    ⟨hi.beside rfl rfl fun _ h => List.mem_cons_of_mem _ h, .refl s, .of_heap rfl⟩
  remember := by
    intro s _ c record _ _ hi
    refine ⟨hi.beside rfl rfl fun _ h => h, ?_, .of_heap rfl⟩
    exact fun key hk => JsMap.has_set.mpr (Or.inr hk)
  setLive := by
    intro s id r hi hr
    refine ⟨⟨hi.ids, hi.seen, ?_, hi.files, hi.paid, hi.once⟩, .refl s, .of_heap rfl⟩
    intro id' r' hr'
    rcases JsMap.mem_pairs_set.mp hr' with ⟨-, rfl⟩ | ⟨-, hold⟩
    · exact hr
    · exact hi.live id' r' hold
  deleteLive := by
    intro s id hi
    refine ⟨⟨hi.ids, hi.seen, ?_, hi.files, hi.paid, hi.once⟩, .refl s, .of_heap rfl⟩
    intro id' r' hr'
    exact hi.live id' r' (JsMap.mem_pairs_delete.mp hr').2
  owned := fun r => {
    rely_refl := fun s => .refl s
    rely_view := fun _ _ h => h.1
    readOnly := fun s _ => ⟨.refl s, .of_heap rfl⟩
    cache := fun s _ _ hi => ⟨hi.beside rfl rfl fun _ h => h, .refl s, .of_heap rfl⟩
    update := by
      intro s job f hi hj hmove
      obtain ⟨hi', hev⟩ := hi.update hj hmove
      exact ⟨hi', .refl s, hev⟩
    write := by
      intro s job e hi hj
      refine ⟨hi.world ?_ fun _ => rfl, .refl s, .of_heap rfl⟩
      intro id job' hfile
      rcases whole_of_write hfile with hold | ⟨rfl, rfl⟩
      · exact Or.inl hold
      · exact Or.inr rfl
    mint := by
      intro s job proof manager e hi hj
      rw [effect_broadcast rfl]
      split
      · refine ⟨hi.world (fun _ _ => Or.inl) fun id => ?_, .refl s, .of_heap rfl⟩
        have hspent := spent_mint id job.xrplTxId proof job.userOpData job.totalCallValue
          s.world.chain id
        simpa using hspent
      · exact ⟨hi, .refl s, .of_heap rfl⟩ }

/-- A request touches nothing of this. -/
theorem registers (l : Label) :
    Registers ((conduct o).requestSpec l) (fun _ => True) fun _ => True where
  readOnly := fun s _ => .refl s
  remember := by
    intro s record hi _ _
    refine ⟨hi.beside rfl rfl fun _ h => h, rfl, ?_⟩
    exact fun key hk => JsMap.has_set.mpr (Or.inr hk)
  write := fun s record e hi _ _ => ⟨hi.world (fun _ _ => Or.inl) fun _ => rfl, rfl, .refl s⟩
  prepared := fun _ _ _ _ => trivial

/-! ### The creation loop -/

/-- A canonical hash is its own id. -/
theorem normalize_canonical {hash : Str} (h : isCanonicalHash hash = true) :
    normalizeXrplTxId hash = .ok (hexPrefix ++ hash) := by
  simp only [isCanonicalHash, Bool.and_eq_true, decide_eq_true_eq] at h
  obtain ⟨hhex, hupper⟩ := h
  unfold normalizeXrplTxId
  simp only [not_prefixed hhex, Bool.false_eq_true, if_false, hhex, hupper]
  rfl

/-- The payments still to come have new ids. -/
structure Fresh (found : List ObservedPayment) (v : View) : Prop where
  books : Books v
  paid : ∀ id, 0 < fees id v.chain → ∃ job ∈ v.heap, job.id = id
  nodup : (found.map (·.xrplTxId)).Nodup
  new : ∀ p ∈ found, isCanonicalHash p.xrplTxId = true ∧ p.xrplTxId ∈ v.seen ∧
    ∀ job ∈ v.heap, job.id ≠ p.xrplTxId

theorem fresh_of_poll {l : Label} {v v' : View} {found : List ObservedPayment}
    (hbooks : Books v) (h : PollEnd ((conduct o).tickSpec l) o 30 v (.ok found) v') :
    Fresh found v' := by
  generalize hres : (Except.ok found : Except JsError _) = res at h
  cases h with
  | noPage => cases hres
  | page transactions s _ _ hi hv hadm hpolled =>
    obtain ⟨hnodup, hrep, -⟩ := hpolled.reported found hres.symm
    obtain ⟨hframe, hkeep⟩ := hpolled.frame
    have hheap : v'.heap = v.heap := by rw [hframe]
    have hchain : v'.chain = v.chain := by rw [hframe]
    subst hv
    refine ⟨?_, ?_, hnodup, fun p hp => ?_⟩
    · intro job hj hpaid
      exact hbooks job (hheap ▸ hj) (hchain ▸ hpaid)
    · intro id hpaid
      rw [hchain] at hpaid
      rw [hheap]
      exact hi.paid id hpaid
    · obtain ⟨hfresh, hmark, entry, he, tx, record, hpay, hname, -, -, -⟩ := hrep p hp
      refine ⟨?_, hmark, ?_⟩
      · cases transactions with
        | none => cases he
        | some page =>
          have hpage : page.all AccountTxEntry.canonical = true := hadm
          have hcanon := List.all_eq_true.mp hpage entry he
          simpa [AccountTxEntry.canonical, hpay, hname] using hcanon
      · intro job hj heq
        rw [hheap] at hj
        exact hfresh (heq ▸ hi.seen job hj)

/-- The job created for a payment has the payment's hash for its id. -/
theorem created_id {l : Label} {hash : Str} {id : Hex} {job : Job}
    (hcanon : isCanonicalHash hash = true) (hid : normalizeXrplTxId hash = .ok id)
    (hjob : Obtained ((conduct o).tickSpec l) (id.drop 2) job) :
    job.id = hash := by
  rw [normalize_canonical hcanon, Except.ok.injEq] at hid
  have hdrop : id.drop 2 = hash := by
    rw [← hid]
    rfl
  rw [hdrop] at hjob
  rcases hjob with ⟨written, ⟨s, hi, hfile⟩, rfl⟩ | hnew
  · exact hi.files hash written hfile
  · exact hnew

theorem fresh_mayAlloc {l : Label} {observed : ObservedPayment} {rest : List ObservedPayment}
    {v : View} (h : Fresh (observed :: rest) v) (id : Hex)
    (hid : normalizeXrplTxId observed.xrplTxId = .ok id) :
    MayAlloc ((conduct o).tickSpec l) v (id.drop 2) := by
  obtain ⟨hcanon, hseen, hnew⟩ := h.new observed (List.mem_cons_self ..)
  intro s job hi hv hjob
  have hjid := created_id hcanon hid hjob
  subst hv
  obtain ⟨hi', hev⟩ := hi.alloc (hjid ▸ hseen) (hjid ▸ hnew)
  exact ⟨hi', .refl s, hev⟩

/-- One payment of the loop: the books stay good, and the others stay new. -/
theorem Fresh.createdOne {l : Label} {observed : ObservedPayment} {rest : List ObservedPayment}
    {v v' : View} {k : Bool} {res : Except JsError Unit} (h : Fresh (observed :: rest) v)
    (hone : CreatedOne ((conduct o).tickSpec l) v k observed res v') : Fresh rest v' := by
  obtain ⟨hchain, hseen, hheap⟩ := hone.frame
  obtain ⟨hcanon, -, hnew⟩ := h.new observed (List.mem_cons_self ..)
  obtain ⟨hnotin, hnodup⟩ := List.nodup_cons.mp h.nodup
  have hlater : ∀ p ∈ rest, p.xrplTxId ≠ observed.xrplTxId := by
    intro p hp heq
    exact hnotin (List.mem_map.mpr ⟨p, hp, heq⟩)
  rcases hheap with hsame | ⟨id, job, hid, hadd, hjob⟩
  · refine ⟨?_, ?_, hnodup, fun p hp => ?_⟩
    · intro job hj hpaid
      exact h.books job (hsame ▸ hj) (hchain ▸ hpaid)
    · rw [hchain, hsame]
      exact h.paid
    · rw [hseen, hsame]
      exact h.new p (List.mem_cons_of_mem _ hp)
  · have hjid := created_id hcanon hid hjob
    refine ⟨?_, ?_, hnodup, fun p hp => ?_⟩
    · intro job' hj hpaid
      rw [hadd] at hj
      rw [hchain] at hpaid
      rcases List.mem_append.mp hj with hold | hj
      · exact h.books job' hold hpaid
      · -- nothing was paid for a job that was not there
        rw [List.mem_singleton.mp hj] at hpaid
        obtain ⟨old, hold, hoid⟩ := h.paid _ hpaid
        exact absurd (hoid.trans hjid) (hnew old hold)
    · intro id' hpaid
      rw [hchain] at hpaid
      obtain ⟨old, hold, hoid⟩ := h.paid id' hpaid
      exact ⟨old, hadd ▸ List.mem_append_left _ hold, hoid⟩
    · obtain ⟨hc, hs, hn⟩ := h.new p (List.mem_cons_of_mem _ hp)
      refine ⟨hc, hseen ▸ hs, fun job' hj => ?_⟩
      rw [hadd] at hj
      rcases List.mem_append.mp hj with hold | hj
      · exact hn job' hold
      · rw [List.mem_singleton.mp hj, hjid]
        exact fun heq => hlater p hp heq.symm

theorem Fresh.createdAll {l : Label} {known : ObservedPayment → Bool}
    {found : List ObservedPayment} {v v' : View} {res : Except JsError Unit}
    (hall : CreatedAll ((conduct o).tickSpec l) known found v res v') (h : Fresh found v) :
    Books v' := by
  induction hall with
  | nil => exact h.books
  | cons _ hone _ ih => exact ih (h.createdOne hone)
  | stop _ hone => exact (h.createdOne hone).books

theorem books_of_creates {l : Label} {v v' : View} (hbooks : Books v)
    (h : TickCreated ((conduct o).tickSpec l) o v v') : Books v' := by
  cases h with
  | polled found v₁ _ res hpoll hall => exact (fresh_of_poll hbooks hpoll).createdAll hall
  | unpolled e _ hpoll =>
    cases hpoll with
    | noPage => exact hbooks
    | page transactions s _ _ hi hv hadm hpolled =>
      obtain ⟨hframe, -⟩ := hpolled.frame
      rw [hframe]
      exact hbooks

/-! ### The steps -/

/-- Nothing has been paid for a job whose request is prepared. -/
theorem Books.unpaid {v : View} {r : Ref} {job : Job} (hbooks : Books v)
    (hj : v.heap[r]? = some job) (hst : job.state = .request_prepared) :
    fees job.id v.chain = 0 := by
  rcases Nat.eq_zero_or_pos (fees job.id v.chain) with hzero | hpaid
  · exact hzero
  · have hlate := hbooks job (List.mem_of_getElem? hj) hpaid
    rw [hst] at hlate
    cases hlate

theorem mayPay {l : Label} {v : View} {r : Ref} {job : Job} (hbooks : Books v)
    (hj : v.heap[r]? = some job) (hst : job.state = .request_prepared) :
    MayPay ((conduct o).tickSpec l) v job.id job.abiEncodedRequest := by
  intro hub value e s hi hv
  subst hv
  rw [effect_broadcast rfl]
  split
  case isFalse => exact ⟨hi, .refl s, .of_heap rfl⟩
  case isTrue =>
    have hspent := spent_request job.id job.abiEncodedRequest value s.world.chain
    refine ⟨⟨hi.ids, hi.seen, hi.live, hi.files, ?_, ?_⟩, .refl s, .of_heap rfl⟩
    · intro id hpaid
      by_cases hid : id = job.id
      · exact ⟨job, List.mem_of_getElem? hj, hid.symm⟩
      · refine hi.paid id ?_
        rw [hspent id, if_neg hid] at hpaid
        exact hpaid
    · intro id
      rw [hspent id]
      split
      case isTrue hid =>
        subst hid
        have hzero : fees job.id s.world.chain = 0 := hbooks.unpaid hj hst
        rw [hzero]
      case isFalse => exact hi.once id

/-- When every call succeeds, a fee that is spent is known of. -/
theorem not_lossy {l : Label} {v : View} {id : Str} {request : Option Hex} :
    ¬ Lossy ((conduct o).tickSpec l) v id request := by
  have hok : ∀ {op : Op} {c : Choice}, succeeds op c = true → fails op c = false := by
    intro op c h
    simp only [succeeds, Bool.and_eq_true, Bool.not_eq_true'] at h
    exact h.1
  rintro (⟨hub, value, e, s, -, hadm⟩ | ⟨value, op, c, s, hadm, -, hfails⟩)
  · exact absurd (hok hadm) (by simp [fails])
  · rw [hok hadm] at hfails
    cases hfails

/-- A job that is not the stepped one. -/
theorem other_id {heap : List Job} {r : Ref} {job job' : Job} (hnodup : (heap.map Job.id).Nodup)
    (hj : heap[r]? = some job) {old : Job} (hold : old ∈ heap.set r job') :
    old = job' ∨ old ∈ heap ∧ old.id ≠ job.id := by
  obtain ⟨k, hk⟩ := List.mem_iff_getElem?.mp hold
  rw [List.getElem?_set] at hk
  split at hk
  case isTrue hrk =>
    split at hk
    case isTrue => exact Or.inl (Option.some.inj hk).symm
    case isFalse => cases hk
  case isFalse hrk =>
    refine Or.inr ⟨List.mem_of_getElem? hk, fun heq => hrk ?_⟩
    have hr : (heap.map Job.id)[r]? = some job.id := by rw [List.getElem?_map, hj]; rfl
    have hk' : (heap.map Job.id)[k]? = some job.id := by
      rw [List.getElem?_map, hk, Option.map_some, heq]
    exact (List.getElem?_inj (List.getElem?_eq_some_iff.mp hr).1 hnodup).mp (hr.trans hk'.symm)

/-- **The step lemma**: after a step every job knows of its payment, the stepped one because its
calls have succeeded, the others because nothing was paid for them. -/
theorem Books.stepped {l : Label} {v v' : View} {r : Ref} {job : Job} {res : Except JsError Unit}
    (hbooks : Books v) (hnodup : (v.heap.map Job.id).Nodup) (hj : v.heap[r]? = some job)
    (h : Stepped ((conduct o).tickSpec l) v r job res v') : Books v' := by
  cases h with
  | returned => exact hbooks
  | saved job' ch n _ _ hsaved hcore hforward hspent hfee =>
    have hframe : v'.heap = v.heap.set r job' ∧ v'.chain = ch := by
      cases hsaved <;> exact ⟨rfl, rfl⟩
    have hid : job'.id = job.id := congrArg Prod.fst hcore
    intro old hold hpaid
    rw [hframe.1] at hold
    rw [hframe.2] at hpaid
    rcases other_id hnodup hj hold with rfl | ⟨hmem, hne⟩
    · by_cases hn : n = 0
      · -- nothing was paid in this step
        subst hn
        have hsame := hspent job.id
        rw [if_pos rfl, Nat.add_zero] at hsame
        rw [hid, hsame] at hpaid
        exact hforward.early (hbooks job (List.mem_of_getElem? hj) hpaid)
      · obtain ⟨-, -, hsub | hlossy⟩ := hfee hn
        · rw [hsub]
          rfl
        · exact absurd hlossy not_lossy
    · rw [hspent old.id, if_neg hne, Nat.add_zero] at hpaid
      exact hbooks old hmem hpaid

theorem Books.walked {l : Label} {v v' : View} {id : Str} {r : Ref} {job : Job}
    (hbooks : Books v) (hnodup : (v.heap.map Job.id).Nodup) (hj : v.heap[r]? = some job)
    (h : Walked ((conduct o).tickSpec l) v id r job v') : Books v' := by
  cases h with
  | threw e _ hstepped => exact hbooks.stepped hnodup hj hstepped
  | kept v₁ job' hstepped =>
    have hbooks₁ : Books v₁ := hbooks.stepped hnodup hj hstepped
    exact hbooks₁
  | dropped v₁ job' hstepped =>
    have hbooks₁ : Books v₁ := hbooks.stepped hnodup hj hstepped
    exact hbooks₁

/-- **The conduct is met**: a tick has the jobs and the payments to itself, and requests leave
both as they are. -/
theorem good (hv : o.viem.Lawful) : (conduct o).Good where
  lawful := hv
  guar_refl := fun s => ⟨.refl s, .of_heap rfl⟩
  guar_trans := fun _ _ _ h h' => ⟨h.1.trans h'.1, h.2.trans h'.2⟩
  ticking := ticking
  registers := registers
  prepared := fun _ _ _ _ _ _ _ _ => trivial
  outside := by
    intro x m w hi
    cases x with
    | clock now => exact hi.beside rfl rfl fun _ h => h
    | validated entry => exact hi.world (fun _ _ => Or.inl) fun _ => rfl
  live := fun _ hi => hi.live
  started := by
    intro s ledger hi hbooks
    refine ⟨?_, ?_, ⟨.refl s, .of_heap rfl⟩, ⟨.refl _, .of_heap rfl⟩, hbooks⟩
    · exact hi.beside rfl rfl fun _ h => h
    · exact hi.beside rfl rfl fun _ h => h
  creates := by
    intro s hi hbooks
    refine wp_mono ((ticking .tick).wp_createJobs o Fresh ?_ ?_ ?_ rfl) ?_
    · exact fun found v' => fresh_of_poll hbooks
    · exact fun observed rest v hfresh => fresh_mayAlloc hfresh
    · exact fun observed rest v v' k hfresh hone => hfresh.createdOne hone
    · rintro res s' ⟨hres, -, hcreated⟩
      exact ⟨hres, books_of_creates hbooks hcreated⟩
  pays := fun _ _ _ _ hbooks hj _ hst => mayPay hbooks hj hst
  walks := by
    rintro place v id r job v' hbooks - hj ⟨s, hi, rfl⟩ hwalked
    exact hbooks.walked hi.ids hj hwalked

theorem allows (hv : o.viem.Lawful) {e : Event o} {s : Sys o} (hone : OneTick e s)
    (hsucc : Succeeds e s) : (conduct o).discipline.Allows e s := by
  refine (good hv).allows hone ?_ ?_ ?_
  · rintro l -
    cases l with
    | register body => exact fun _ _ _ _ _ _ _ _ => trivial
    | _ => trivial
  · rintro i c rfl p hp
    exact hsucc p hp
  · rintro rfl
    exact hsucc.elim

/-- A process that starts, with nothing paid for yet. -/
theorem ok_boot {now : Int} {w : Outside} (hunpaid : ∀ id, fees id w.chain = 0)
    (hfiles : ∀ id job, w.jobs id = some (.whole job) → job.id = id) :
    (conduct o).discipline.Ok ⟨Memory.boot now, w, []⟩ := by
  refine Discipline.Ok.init ?_ ?_
  · refine ⟨?_, ?_, ?_, hfiles, ?_, ?_⟩
    · exact List.nodup_nil
    · intro job hj
      cases hj
    · intro id r hr
      cases hr
    · intro id hpaid
      rw [hunpaid id] at hpaid
      cases hpaid
    · intro id
      exact (hunpaid id).le.trans (Nat.zero_le 1)
  · intro k _ job hj
    cases hj

end Overlap

/-- **One step per job.**  When ticks do not overlap and every call succeeds, two steps in flight
are the same one, the request of a job is submitted at most once, no job moves backwards, and an
executed job stays executed. -/
theorem one_step_per_job {o : Options} (hv : o.viem.Lawful) {now : Int} {w : Outside}
    (hunpaid : ∀ id, fees id w.chain = 0)
    (hfiles : ∀ id job, w.jobs id = some (.whole job) → job.id = id) {s : Sys o}
    (hrun : Run (fun e s => OneTick e s ∧ Overlap.Succeeds e s) ⟨Memory.boot now, w, []⟩ s) :
    (∀ r r' i j, Overlap.Stepping s r i → Overlap.Stepping s r' j → i = j) ∧
      (∀ id, fees id s.world.chain ≤ 1) ∧
      ∀ s' : Sys o, Run (fun e s => OneTick e s ∧ Overlap.Succeeds e s) s s' →
        ∀ (r : Ref) (job : Job), s.mem.heap[r]? = some job → ∃ job' : Job,
          s'.mem.heap[r]? = some job' ∧ job'.id = job.id ∧
          JobState.NotBack job.state job'.state ∧
          (job.state = .executed → job'.state = .executed) := by
  have hgood := Overlap.good (o := o) hv
  have hok := hgood.sound.run (Overlap.ok_boot hunpaid hfiles)
    (hrun.mono fun e s h => Overlap.allows hv h.1 h.2)
  refine ⟨?_, hok.inv.once, ?_⟩
  · intro r r' i j h h'
    obtain ⟨t, ht, hk, hd⟩ := h.task
    obtain ⟨t', ht', hk', hd'⟩ := h'.task
    exact Conduct.Good.alone hok ht ht' hd hd' hk hk'
  · intro s' hrun' r job hj
    have hevolves : Overlap.Evolves s.st s'.st := by
      refine hgood.sound.run_rel ?_ ?_ ?_ ?_ ?_ hok hrun'
      · exact fun s => .of_heap rfl
      · exact fun s s' s'' h h' => h.trans h'
      · intro k s s' hg
        cases k with
        | ticks => exact hg.2
        | requests => exact .of_heap (congrArg View.heap hg.1)
      · intro x m w
        cases x <;> exact .of_heap rfl
      · rintro e s ⟨hone, hsucc⟩
        refine ⟨Overlap.allows hv hone hsucc, ?_⟩
        rintro rfl
        exact hsucc
    obtain ⟨job', hj', hcore, hforward⟩ := hevolves r job hj
    refine ⟨job', hj', congrArg Prod.fst hcore, hforward.notBack, ?_⟩
    intro hexec
    rw [hexec] at hforward
    exact hforward.executed

/-! ## 4. Two ticks that overlap -/

namespace Sample

/-- A payment is registered, observed and prepared; then a tick starts a step, and before the
step has its first answer the next tick starts another. -/
def overlapping : List (Event (options tables)) :=
  task 0 (.register (body userOpData "5".toList)) [.done, .done] ++
    (tickOn 1 [payment txId 10 commitment] creating ++ walkOne 1 preparing) ++
    (tickOn 2 [] [] ++ [.resume 2, .resume 2]) ++ (tickOn 3 [] [] ++ [.resume 3, .resume 3])

/-- The first of the two submits the request, and three more ticks drive the job to its mint. -/
def overtaking : List (Event (options tables)) :=
  (answers 2 submitting ++ [.resume 2]) ++ (tickOn 4 [] [] ++ walkOne 4 finalizing) ++
    (tickOn 5 [] [] ++ walkOne 5 fetching) ++ (tickOn 6 [] [] ++ walkOne 6 minting)

/-- The second submits it as well. -/
def submittingLate : List (Event (options tables)) :=
  answers 3 [address, address, .nat 10, txHash, receipt, .nat 1000, .nat 100, .nat 90, .done, .done]

end Sample

/-- A payment is registered and driven through its five steps, one tick after the other. -/
theorem one_step_per_job_wholeRun :
    ∃ s : Sys (Sample.options Sample.tables), s.world.chain.length = 2 ∧
      ∀ id, fees id s.world.chain ≤ 1 := by
  have hrun : (Sys.runIf (fun e s => OneTick e s ∧ Overlap.Succeeds e s) Sample.wholeRun
      (Sys.fresh _ 0 [])).map (fun s => s.world.chain.length) = some 2 := by
    decide +kernel
  obtain ⟨s, hs, hlen⟩ := Option.map_eq_some_iff.mp hrun
  refine ⟨s, hlen, (one_step_per_job Sample.tables_consistent.lawful (fun _ => rfl) ?_
    (Run.of_runIf _ hs)).2.1⟩
  intro id job hfile
  cases hfile

/-- **Two steps in flight**: both submit the request of one job, and the slower one sets the job
back after the payment has been minted. -/
theorem overlapping_steps_submit_twice :
    ∃ s s' s'' : Sys (Sample.options Sample.tables),
      Run Overlap.Succeeds (Sys.fresh _ 0 []) s ∧
      Overlap.Stepping s 0 2 ∧ Overlap.Stepping s 0 3 ∧
      Run Overlap.Succeeds s s' ∧ s'.mem.heap.map Job.state = [.executed] ∧
      Run Overlap.Succeeds s' s'' ∧ s''.mem.heap.map Job.state = [.request_submitted] ∧
      fees Sample.txId s''.world.chain = 2 := by
  have hrun : ((Sys.runIf Overlap.Succeeds Sample.overlapping (Sys.fresh _ 0 [])).bind fun s =>
      (Sys.runIf Overlap.Succeeds Sample.overtaking s).bind fun s' =>
      (Sys.runIf Overlap.Succeeds Sample.submittingLate s').map fun s'' =>
        decide (Overlap.Stepping s 0 2 ∧ Overlap.Stepping s 0 3 ∧
          s'.mem.heap.map Job.state = [.executed] ∧
          s''.mem.heap.map Job.state = [.request_submitted] ∧
          fees Sample.txId s''.world.chain = 2)) = some true := by
    decide +kernel
  obtain ⟨s, hs, hrest⟩ := Option.bind_eq_some_iff.mp hrun
  obtain ⟨s', hs', hlast⟩ := Option.bind_eq_some_iff.mp hrest
  obtain ⟨s'', hs'', hend⟩ := Option.map_eq_some_iff.mp hlast
  obtain ⟨htwo, hthree, hexecuted, hback, hfees⟩ := of_decide_eq_true hend
  exact ⟨s, s', s'', .of_runIf _ hs, htwo, hthree, .of_runIf _ hs', hexecuted, .of_runIf _ hs'',
    hback, hfees⟩

end OneSig.Executor
