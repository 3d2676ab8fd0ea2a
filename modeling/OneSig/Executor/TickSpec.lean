/-
# What one tick does

After its poll a tick creates a job for every payment reported, all of them inside one `try`, and
then walks over the live map, stepping one job after the other.  This module follows the creation
loop and one iteration of the walk as `PollSpec` follows the poll: `Created`, `CreatedAll` and
`Walked` say how each can end and what it leaves in the heap, the files and the live map.

They are stated over the `View`, what belongs to the ticks alone, and over a specification under
which a tick has it to itself (`Ticking`).  The modules on the runs with one tick at a time
instantiate it, each with its own invariant, so the code of the tick is walked through only here.

In the creation loop a payment whose commitment is no longer found is skipped, a hash that is no
hash and a number that `BigInt` refuses throw, and so does a save of the new job that fails; what
throws ends the loop, with the jobs made so far in the live map (`CreatedAll`).  `create` may find
the job there already, in a file that an earlier process has left, and then makes no second one.

In the walk a step that throws is logged and the job stays; after one that came back, a job which
is executed or failed is dropped from the map (`Walked`).

* `Created`, `CreatedOne`: `create`, and one iteration of the loop around it.
* `Ticking.wp_createLoop`: the loop, by induction over the payments, with what is known of those
  still to come.
* `Ticking.wp_createJobs`: the first half of a tick.  `Stepped.heap`: the heap after a step.
-/
import OneSig.Executor.PollSpec

namespace OneSig.Executor

open OneSig Async ExecutorPipeline ExecutorService

/-! ## 1. What a tick writes -/

/-- `#live.set(id, job)`. -/
def View.setLive (v : View) (id : Str) (r : Ref) : View := { v with live := v.live.set id r }

/-- `#live.delete(id)`. -/
def View.deleteLive (v : View) (id : Str) : View := { v with live := v.live.delete id }

/-- A new job object. -/
def View.alloc (v : View) (job : Job) : View := { v with heap := v.heap ++ [job] }

/-- A specification under which a tick has its books to itself. -/
structure Ticking (sp : Spec sig world) : Prop extends Polling sp where
  guar_grows : ∀ s s', sp.guar s s' → Grows s s'
  owned : ∀ r, Owned sp r
  setLive : ∀ s id r, sp.inv s → r < s.mem.heap.length →
    sp.inv ⟨ExecutorService.setLive id r s.mem, s.world⟩ ∧
      sp.guar s ⟨ExecutorService.setLive id r s.mem, s.world⟩
  deleteLive : ∀ s id, sp.inv s → sp.inv ⟨ExecutorService.deleteLive id s.mem, s.world⟩ ∧
    sp.guar s ⟨ExecutorService.deleteLive id s.mem, s.world⟩

/-- A file holds a job. -/
def Stored (sp : Spec sig world) (id : Str) (job : Job) : Prop :=
  ∃ s, sp.inv s ∧ s.world.jobs id = some (.whole job)

/-- A job object that `create` can come by for an id: what a file gives back, or a new one. -/
def Obtained (sp : Spec sig world) (id : Str) (job : Job) : Prop :=
  (∃ written, Stored sp id written ∧ job = written.stored) ∨ job.id = id

/-- A job object for an id may be added in a view. -/
def MayAlloc (sp : Spec sig world) (v : View) (id : Str) : Prop :=
  ∀ s job, sp.inv s → view s = v → Obtained sp id job →
    sp.inv ⟨Memory.alloc job s.mem, s.world⟩ ∧ sp.guar s ⟨Memory.alloc job s.mem, s.world⟩

section Rules

variable {sp : Spec sig world} {s : St} {v : View}

theorem wp_newJob {job : Job} {Q : Except JsError Ref → St → Prop}
    (hi : sp.inv ⟨Memory.alloc job s.mem, s.world⟩)
    (hg : sp.guar s ⟨Memory.alloc job s.mem, s.world⟩)
    (hQ : Q (.ok s.mem.heap.length) ⟨Memory.alloc job s.mem, s.world⟩) :
    wp sp (newJob job) Q s := by
  unfold newJob
  exact wp_bind (wp_gets (wp_bind (wp_modify hi hg hQ)))

/-! ## 2. Creating a job -/

/-- `load` finds a whole file, or returns nothing. -/
inductive Loaded (sp : Spec sig world) (v : View) (id : Str) :
    Except JsError (Option Ref) → View → Prop
  | none : Loaded sp v id (.ok none) v
  | some (job : Job) : Stored sp id job → v.jobs id = some (.whole job) →
      Loaded sp v id (.ok (some v.heap.length)) (v.alloc job.stored)

theorem Ticking.wp_load (hx : Ticking sp) (id : Str) (hv : view s = v)
    (halloc : MayAlloc sp v id) :
    wp sp (load id) (fun res s' => sp.inv s' ∧ Loaded sp v id res (view s')) s := by
  subst hv
  unfold load
  refine wp_tryCatch (wp_bind (hx.wp_read rfl ?_))
  intro res s₂ c s₁ w hwait hi₁ _ hper hi₂ hv₂ _
  have hnone : sp.inv s₂ ∧ Loaded sp (view s) id (.ok none) (view s₂) := ⟨hi₂, hv₂ ▸ .none⟩
  cases res with
  | error e => exact hnone
  | ok raw =>
    refine wp_bind (wp_lift ?_)
    cases raw with
    | torn => exact hnone
    | whole job =>
      have hread : s₁.world.jobs id = some (.whole job) := perform_readJob hper
      have hstored : Stored sp id job := ⟨s₁, hi₁, hread⟩
      have hfile : (view s).jobs id = some (.whole job) := by
        rw [← (hx.waits_view rfl hwait).1]
        exact hread
      obtain ⟨hi₃, hg₃⟩ := halloc s₂ job.stored hi₂ hv₂ (Or.inl ⟨job, hstored, rfl⟩)
      have hlen : s₂.mem.heap.length = (view s).heap.length := congrArg (·.heap.length) hv₂
      have hv₃ : view ⟨Memory.alloc job.stored s₂.mem, s₂.world⟩ = (view s).alloc job.stored :=
        congrArg (View.alloc · job.stored) hv₂
      simp only [bindPost]
      refine wp_bind (wp_newJob hi₃ hg₃ ?_)
      simp only [bindPost, hlen]
      exact ⟨hi₃, hv₃ ▸ .some job hstored hfile⟩

/-- How `create` can end: the hash is no hash, the job is there already, or it is made and saved. -/
inductive Created (sp : Spec sig world) (v : View) (params : CreateParams) :
    Except JsError Ref → View → Prop
  | badHash (e : JsError) : normalizeXrplTxId params.xrplTxId = .error e →
      Created sp v params (.error e) v
  | loaded (id : Hex) (job : Job) : normalizeXrplTxId params.xrplTxId = .ok id →
      Stored sp (id.drop 2) job → v.jobs (id.drop 2) = some (.whole job) →
      Created sp v params (.ok v.heap.length) (v.alloc job.stored)
  | made (id : Hex) (now now' : Int) (res : Except JsError Unit) (v' : View) :
      normalizeXrplTxId params.xrplTxId = .ok id →
      Saved sp (v.alloc { params.job id now with updatedAt := now' })
        { params.job id now with updatedAt := now' } res v' →
      Created sp v params (res.map fun _ => v.heap.length) v'

theorem View.alloc_setJob (v : View) (job job' : Job) :
    (v.alloc job).setJob v.heap.length job' = v.alloc job' := by
  simp only [View.alloc, View.setJob, List.set_append_right _ _ (Nat.le_refl _), Nat.sub_self,
    List.set_cons_zero]

theorem View.alloc_get (v : View) (job : Job) :
    (v.alloc job).heap[v.heap.length]? = some job := by
  simp only [View.alloc, List.getElem?_concat_length]

theorem Ticking.wp_create (hx : Ticking sp) (params : CreateParams) (hi : sp.inv s)
    (hv : view s = v)
    (halloc : ∀ id, normalizeXrplTxId params.xrplTxId = .ok id → MayAlloc sp v (id.drop 2)) :
    wp sp (create params) (fun res s' => sp.inv s' ∧ Created sp v params res (view s')) s := by
  unfold create
  refine wp_bind (wp_lift ?_)
  cases hid : normalizeXrplTxId params.xrplTxId with
  | error e => exact ⟨hi, hv ▸ .badHash e hid⟩
  | ok id =>
    have hmay := halloc id hid
    refine wp_seq (hx.wp_load _ hv hmay) ?_ ?_
    · rintro found s₁ ⟨hi₁, hloaded⟩
      generalize hv₁ : view s₁ = v₁ at hloaded
      cases hloaded with
      | some job hstored hfile =>
        exact ⟨hi₁, hv₁ ▸ .loaded id job hid hstored hfile⟩
      | none =>
        refine wp_bind (wp_gets ?_)
        have hlen : s₁.mem.heap.length = v.heap.length := congrArg (·.heap.length) hv₁
        obtain ⟨hi₂, hg₂⟩ := hmay s₁ (params.job id s₁.mem.now) hi₁ hv₁ (Or.inr rfl)
        have hv₂ : view ⟨Memory.alloc (params.job id s₁.mem.now) s₁.mem, s₁.world⟩ =
            v.alloc (params.job id s₁.mem.now) := congrArg (View.alloc · _) hv₁
        refine wp_bind (wp_newJob hi₂ hg₂ ?_)
        simp only [bindPost, hlen]
        refine wp_bind (wp_mono ((hx.owned _).wp_save hi₂ hv₂ (v.alloc_get _)) ?_)
        rintro res s₃ ⟨hi₃, now', hsaved⟩
        rw [View.alloc_setJob] at hsaved
        cases res with
        | ok u =>
          simp only [bindPost]
          exact wp_pure ⟨hi₃, .made id _ now' (.ok u) _ hid hsaved⟩
        | error e => exact ⟨hi₃, .made id _ now' (.error e) _ hid hsaved⟩
    · rintro e s₁ ⟨-, hloaded⟩
      cases hloaded

/-! ## 3. The creation loop -/

/-- The parameters of the job for a payment. -/
def paramsOf (observed : ObservedPayment) (record : PendingUserOp) (totalCallValue nonce : Int) :
    CreateParams where
  xrplTxId := observed.xrplTxId
  userOpData := record.userOpData
  totalCallValue := totalCallValue
  personalAccount := record.personalAccount
  nonce := nonce

/-- How one iteration of the creation loop can end.  `known` says whether the record was in
memory. -/
inductive CreatedOne (sp : Spec sig world) (v : View) (known : Bool) (observed : ObservedPayment) :
    Except JsError Unit → View → Prop
  | live : v.live.has observed.xrplTxId = true → CreatedOne sp v known observed (.ok ()) v
  | unheld : known = false → Miss sp observed.commitment → CreatedOne sp v known observed (.ok ()) v
  | unreadable (record : PendingUserOp) (e : JsError) : Held sp observed.commitment record →
      (bigInt record.totalCallValue = .error e ∨ bigInt record.nonce = .error e) →
      CreatedOne sp v known observed (.error e) v
  | uncreated (record : PendingUserOp) (totalCallValue nonce : Int) (e : JsError) (v' : View) :
      Created sp v (paramsOf observed record totalCallValue nonce) (.error e) v' →
      CreatedOne sp v known observed (.error e) v'
  | created (record : PendingUserOp) (totalCallValue nonce : Int) (r : Ref) (v' : View)
      (res : Except JsError Unit) : Held sp observed.commitment record →
      Created sp v (paramsOf observed record totalCallValue nonce) (.ok r) v' →
      (∀ e, res = .error e → record.label.text = .error e) →
      CreatedOne sp v known observed res (v'.setLive observed.xrplTxId r)

theorem Created.lt {v v' : View} {params : CreateParams} {r : Ref}
    (h : Created sp v params (.ok r) v') : r < v'.heap.length := by
  generalize hres : (Except.ok r : Except JsError Ref) = res at h
  cases h with
  | badHash => cases hres
  | loaded id job =>
    cases hres
    simp [View.alloc]
  | made id now now' res v' _ hsaved =>
    cases hsaved with
    | written =>
      cases hres
      simp [View.alloc, View.writeFile]
    | noDirectory => cases hres
    | notWritten => cases hres

theorem Ticking.wp_createOne (hx : Ticking sp) (observed : ObservedPayment) (hi : sp.inv s)
    (hv : view s = v) (halloc : ∀ id, normalizeXrplTxId observed.xrplTxId = .ok id →
      MayAlloc sp v (id.drop 2)) :
    wp sp (createOne observed) (fun res s' => sp.inv s' ∧
      CreatedOne sp v (s.mem.memory.has (toLowerCase observed.commitment)) observed res (view s'))
      s := by
  unfold createOne
  refine wp_bind (wp_gets ?_)
  simp only [bindPost]
  split
  case isTrue hlive =>
    subst hv
    exact wp_pure ⟨hi, .live hlive⟩
  case isFalse =>
  refine wp_seq (hx.wp_get observed.commitment hi) ?_ ?_
  case refine_2 =>
    rintro e s₁ ⟨-, -, -, hgot⟩
    cases hgot
  rintro found s₁ ⟨hi₁, hv₁, -, hgot⟩
  rw [hv] at hv₁
  cases hgot with
  | miss hmiss hhas =>
    dsimp only
    exact wp_pure ⟨hi₁, hv₁ ▸ .unheld hhas hmiss⟩
  | held record hheld _ =>
    dsimp only
    refine wp_bind (wp_lift ?_)
    cases htotal : bigInt record.totalCallValue with
    | error e => exact ⟨hi₁, hv₁ ▸ .unreadable record e hheld (Or.inl htotal)⟩
    | ok totalCallValue =>
      refine wp_bind (wp_lift ?_)
      cases hnonce : bigInt record.nonce with
      | error e => exact ⟨hi₁, hv₁ ▸ .unreadable record e hheld (Or.inr hnonce)⟩
      | ok nonce =>
        refine wp_seq (hx.wp_create (paramsOf observed record totalCallValue nonce) hi₁ hv₁
          halloc) ?_ ?_
        · rintro r s₂ ⟨hi₂, hcreated⟩
          obtain ⟨hi₃, hg₃⟩ := hx.setLive s₂ observed.xrplTxId r hi₂ hcreated.lt
          refine wp_bind (wp_modify hi₃ hg₃ (wp_bind (wp_lift ?_)))
          cases htext : record.label.text with
          | ok text => exact ⟨hi₃, .created record _ _ r _ (.ok ()) hheld hcreated (by simp)⟩
          | error e =>
            refine ⟨hi₃, .created record _ _ r _ (.error e) hheld hcreated ?_⟩
            rintro e' ⟨⟩
            exact htext
        · rintro e s₂ ⟨hi₂, hcreated⟩
          exact ⟨hi₂, .uncreated record _ _ e _ hcreated⟩

/-- The creation loop: an error stops it. -/
inductive CreatedAll (sp : Spec sig world) (known : ObservedPayment → Bool) :
    List ObservedPayment → View → Except JsError Unit → View → Prop
  | nil (v : View) : CreatedAll sp known [] v (.ok ()) v
  | cons {observed : ObservedPayment} {rest : List ObservedPayment} {v v₁ v₂ : View}
      {res : Except JsError Unit} {k : Bool} : (known observed = true → k = true) →
      CreatedOne sp v k observed (.ok ()) v₁ → CreatedAll sp known rest v₁ res v₂ →
      CreatedAll sp known (observed :: rest) v res v₂
  | stop {observed : ObservedPayment} {rest : List ObservedPayment} {v v₁ : View} {e : JsError}
      {k : Bool} : (known observed = true → k = true) →
      CreatedOne sp v k observed (.error e) v₁ →
      CreatedAll sp known (observed :: rest) v (.error e) v₁

/-- `F` says that the payments still to come may be created. -/
theorem Ticking.wp_createLoop (hx : Ticking sp) (F : List ObservedPayment → View → Prop)
    (hhead : ∀ observed rest v, F (observed :: rest) v → ∀ id,
      normalizeXrplTxId observed.xrplTxId = .ok id → MayAlloc sp v (id.drop 2))
    (htail : ∀ observed rest v v' k, F (observed :: rest) v →
      CreatedOne sp v k observed (.ok ()) v' → F rest v')
    (known : ObservedPayment → Bool) :
    ∀ (payments : List ObservedPayment) {s : St} {v : View}, sp.inv s → view s = v →
      F payments v → (∀ p ∈ payments, known p = true → Recalls s p) →
      wp sp (createLoop payments)
        (fun res s' => sp.inv s' ∧ CreatedAll sp known payments v res (view s')) s
  | [], s, v, hi, hv, _, _ => by
    subst hv
    exact wp_pure ⟨hi, .nil _⟩
  | observed :: rest, s, v, hi, hv, hF, hknown => by
    unfold createLoop
    refine wp_seq (wp_rel Grows.refl (fun _ _ _ => Grows.trans) hx.guar_grows hx.rely_grows hi
      (hx.wp_createOne observed hi hv (hhead observed rest v hF))) ?_ ?_
    · rintro _ s₁ ⟨⟨hi₁, hone⟩, hgrow⟩
      refine wp_mono (hx.wp_createLoop F hhead htail known rest hi₁ rfl
        (htail observed rest v _ _ hF hone) fun p hp hk =>
          hgrow _ (hknown p (List.mem_cons_of_mem _ hp) hk)) ?_
      rintro res s₂ ⟨hi₂, hall⟩
      exact ⟨hi₂, .cons (hknown observed (List.mem_cons_self ..)) hone hall⟩
    · rintro e s₁ ⟨⟨hi₁, hone⟩, -⟩
      exact ⟨hi₁, .stop (hknown observed (List.mem_cons_self ..)) hone⟩

/-- What creating a job leaves alone, and which job it adds. -/
theorem Created.frame {v v' : View} {params : CreateParams} {res : Except JsError Ref}
    (h : Created sp v params res v') :
    v'.chain = v.chain ∧ v'.seen = v.seen ∧ v'.live = v.live ∧
      (v'.heap = v.heap ∧ (∃ e, res = .error e) ∨ ∃ id job,
        normalizeXrplTxId params.xrplTxId = .ok id ∧ v'.heap = v.heap ++ [job] ∧
        Obtained sp (id.drop 2) job) := by
  cases h with
  | badHash e => exact ⟨rfl, rfl, rfl, Or.inl ⟨rfl, e, rfl⟩⟩
  | loaded id job hid hstored =>
    exact ⟨rfl, rfl, rfl, Or.inr ⟨id, _, hid, rfl, Or.inl ⟨job, hstored, rfl⟩⟩⟩
  | made id now now' res v' hid hsaved =>
    have hframe : v'.chain = v.chain ∧ v'.seen = v.seen ∧ v'.live = v.live ∧
        v'.heap = v.heap ++ [{ params.job id now with updatedAt := now' }] := by
      cases hsaved <;> exact ⟨rfl, rfl, rfl, rfl⟩
    exact ⟨hframe.1, hframe.2.1, hframe.2.2.1, Or.inr ⟨id, _, hid, hframe.2.2.2, Or.inr rfl⟩⟩

theorem CreatedOne.frame {v v' : View} {known : Bool} {observed : ObservedPayment}
    {res : Except JsError Unit} (h : CreatedOne sp v known observed res v') :
    v'.chain = v.chain ∧ v'.seen = v.seen ∧ (v'.heap = v.heap ∨ ∃ id job,
      normalizeXrplTxId observed.xrplTxId = .ok id ∧ v'.heap = v.heap ++ [job] ∧
      Obtained sp (id.drop 2) job) := by
  cases h with
  | live => exact ⟨rfl, rfl, Or.inl rfl⟩
  | unheld => exact ⟨rfl, rfl, Or.inl rfl⟩
  | unreadable => exact ⟨rfl, rfl, Or.inl rfl⟩
  | uncreated record totalCallValue nonce e _ hcreated =>
    obtain ⟨hchain, hseen, -, ⟨hheap, -⟩ | hnew⟩ := hcreated.frame
    · exact ⟨hchain, hseen, Or.inl hheap⟩
    · exact ⟨hchain, hseen, Or.inr hnew⟩
  | created record totalCallValue nonce r v₁ _ _ hcreated =>
    obtain ⟨hchain, hseen, -, ⟨-, e, he⟩ | hnew⟩ := hcreated.frame
    · cases he
    · exact ⟨hchain, hseen, Or.inr hnew⟩

/-- How the first half of a tick can end: there is no page or the poll stops on a label, or jobs
are created until an error. -/
inductive TickCreated (sp : Spec sig world) (o : Options) (v : View) : View → Prop
  | unpolled (e : JsError) (v' : View) : PollEnd sp o 30 v (.error e) v' → TickCreated sp o v v'
  | polled (found : List ObservedPayment) (v₁ v₂ : View) (res : Except JsError Unit) :
      PollEnd sp o 30 v (.ok found) v₁ → CreatedAll sp (fun _ => true) found v₁ res v₂ →
      TickCreated sp o v v₂

/-- **The first half of a tick**: the poll and the creation loop end in one of the ways that
`TickCreated` has, and nothing is thrown. -/
theorem Ticking.wp_createJobs (hx : Ticking sp) (o : Options)
    (F : List ObservedPayment → View → Prop)
    (hpoll : ∀ found v', PollEnd sp o 30 v (.ok found) v' → F found v')
    (hhead : ∀ observed rest v, F (observed :: rest) v → ∀ id,
      normalizeXrplTxId observed.xrplTxId = .ok id → MayAlloc sp v (id.drop 2))
    (htail : ∀ observed rest v v' k, F (observed :: rest) v →
      CreatedOne sp v k observed (.ok ()) v' → F rest v') (hv : view s = v) :
    wp sp (createJobs o)
      (fun res s' => res = .ok () ∧ sp.inv s' ∧ TickCreated sp o v (view s')) s := by
  subst hv
  unfold createJobs
  refine wp_tryCatch (wp_seq (hx.wp_poll o 30) ?_ ?_)
  · rintro found s₁ ⟨hi₁, hpolled, -, hrec⟩
    refine wp_mono (hx.wp_createLoop F hhead htail (fun _ => true) found hi₁ rfl
      (hpoll found _ hpolled) fun p hp _ => hrec found rfl p hp) ?_
    rintro res s₂ ⟨hi₂, hall⟩
    cases res with
    | ok u => exact ⟨rfl, hi₂, .polled found _ _ _ hpolled hall⟩
    | error e => exact ⟨rfl, hi₂, .polled found _ _ _ hpolled hall⟩
  · rintro e s₁ ⟨hi₁, hpolled, -, -⟩
    exact ⟨rfl, hi₁, .unpolled e _ hpolled⟩

/-! ## 4. The walk -/

/-- One iteration of the walk: the step threw, or it came back and a terminal job is dropped. -/
inductive Walked (sp : Spec sig world) (v : View) (id : Str) (r : Ref) (job : Job) : View → Prop
  | threw (e : JsError) (v' : View) : Stepped sp v r job (.error e) v' → Walked sp v id r job v'
  | kept (v' : View) (job' : Job) : Stepped sp v r job (.ok ()) v' → v'.heap[r]? = some job' →
      isTerminal job'.state = false → Walked sp v id r job (v'.setLive id r)
  | dropped (v' : View) (job' : Job) : Stepped sp v r job (.ok ()) v' → v'.heap[r]? = some job' →
      isTerminal job'.state = true →
      Walked sp v id r job ((v'.setLive id r).deleteLive id)

/-- Where the stepped job stands in the heap, and the others. -/
theorem Stepped.heap {r : Ref} {job : Job} {res : Except JsError Unit} {v' : View}
    (h : Stepped sp v r job res v') (hj : v.heap[r]? = some job) :
    ∃ job', v'.heap = v.heap.set r job' ∧ v'.heap[r]? = some job' ∧ job'.core = job.core ∧
      Forward job.state job'.state := by
  cases h with
  | returned =>
    refine ⟨job, ?_, hj, rfl, .refl⟩
    exact (congrArg View.heap (View.setJob_same hj)).symm
  | saved job' ch n _ _ hsaved hcore hforward =>
    have hget := View.setJob_get (v := v.setChain ch) hj job'
    refine ⟨job', ?_, ?_, hcore, hforward⟩
    · cases hsaved <;> rfl
    · cases hsaved <;> exact hget

theorem Ticking.wp_advanceOne (hx : Ticking sp) (o : Options) (id : Str) {r : Ref} {job : Job}
    (hi : sp.inv s) (hv : view s = v) (hj : v.heap[r]? = some job)
    (hpay : job.state = .request_prepared → MayPay sp v job.id job.abiEncodedRequest) :
    wp sp (advanceOne o id r)
      (fun res s' => res = .ok () ∧ sp.inv s' ∧ Walked sp v id r job (view s')) s := by
  unfold advanceOne
  refine wp_tryCatch (wp_seq ((hx.owned r).wp_step o hi hv hj hpay) ?_ ?_)
  · rintro _ s₁ ⟨hi₁, hstepped⟩
    obtain ⟨job', -, hget, -, -⟩ := hstepped.heap hj
    have hlt : r < s₁.mem.heap.length := (List.getElem?_eq_some_iff.mp hget).1
    obtain ⟨hi₂, hg₂⟩ := hx.setLive s₁ id r hi₁ hlt
    refine wp_bind (wp_modify hi₂ hg₂ (wp_bind (wp_deref rfl hget ?_)))
    simp only [bindPost]
    split
    case isTrue hterm =>
      obtain ⟨hi₃, hg₃⟩ := hx.deleteLive _ id hi₂
      exact wp_modify hi₃ hg₃ ⟨rfl, hi₃, .dropped _ job' hstepped hget hterm⟩
    case isFalse hterm =>
      exact wp_pure ⟨rfl, hi₂, .kept _ job' hstepped hget (Bool.not_eq_true _ ▸ hterm)⟩
  · rintro e s₁ ⟨hi₁, hstepped⟩
    exact ⟨rfl, hi₁, .threw e _ hstepped⟩

end Rules

end OneSig.Executor
