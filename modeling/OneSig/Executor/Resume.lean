/-
# What a restart takes up again

The live map is in memory, the jobs are on disk, and `start` does not read them: it sets the
watcher's cursor to the current ledger and lets a tick poll.  So a job comes back only when its
payment is reported again, by a page that begins at that ledger.

`restart_resumes_iff` says when.  It takes any directory and any state before the crash, reachable
or not, in which the job's file holds the job, and any answers to the calls of `start` and of the
first half of its tick, run on their own on a disk and a network that reject no call; and it says
that the job is live again exactly when the first page reports its payment, to a store that has
its record, behind payments that can all be taken (`PickedUp`).  It also says which ledger the
page is asked from, and `PickedUp.named` that what is picked up is on that page.

* Section 1 is `create` on its own: refused without a transaction hash, and otherwise an object
  that is the job on disk if there is one (`Creates`).  The store finds the same before and after,
  no object is touched, and no job on disk is lost (`Loads`).
* Section 2 is the creation loop: it takes the payments up to the first that cannot be taken, one
  whose record has a number that cannot be read or whose hash is none (`Took`, `Filled`).
* Section 3 puts the poll in front of it, by what one poll does, and `start` in front of that.

Ticks that follow poll from the same cursor or a later one, so they bring back nothing that the
first one has missed because of its ledger.  The example is a job of ledger 10 and a restart in
ledger 11.
-/
import OneSig.Executor.RealPayments
import OneSig.Executor.Intake

namespace OneSig.Executor

open OneSig Async ExecutorPipeline ExecutorService

namespace Resume

open RealPayments
open PendingMap (Exchange Answered keys restarted)

/-! ## 1. `create` -/

/-- The store finds the same, no job object is touched, and no job that was on disk is lost. -/
structure Loads (s s' : St) : Prop where
  lookup : ∀ c, IsLowerHex 32 c →
    Cache.lookup keys (PendingMap.view s') c = Cache.lookup keys (PendingMap.view s) c
  heap : ∀ (r : Ref) (job : Job), s.mem.heap[r]? = some job → s'.mem.heap[r]? = some job
  jobs : ∀ id job, s.world.jobs id = some (.whole job) → s'.world.jobs id = some (.whole job)

theorem Loads.refl (s : St) : Loads s s := ⟨fun _ _ => rfl, fun _ _ h => h, fun _ _ h => h⟩

theorem Loads.trans {s s' s'' : St} (h : Loads s s') (h' : Loads s' s'') : Loads s s'' where
  lookup := fun c hc => (h'.lookup c hc).trans (h.lookup c hc)
  heap := fun r job hj => h'.heap r job (h.heap r job hj)
  jobs := fun id job hj => h'.jobs id job (h.jobs id job hj)

/-- A job can be loaded anew without touching what there is. -/
theorem loads_alloc (now : Int) (job : Job) (s : St) :
    Loads s ⟨Memory.alloc job (clockTo now s.mem), s.world⟩ := by
  refine ⟨fun _ _ => rfl, fun r held hr => ?_, fun _ _ h => h⟩
  exact (List.getElem?_append_left (List.getElem?_eq_some_iff.mp hr).1).trans hr

theorem alone_deref {adm : Exchange → Prop} {s : St} {r : Ref} {job : Job}
    {Q : List Exchange → Except JsError Job → St → Prop} (hj : s.mem.heap[r]? = some job)
    (hQ : Q [] (.ok job) s) : Alone (W := world) clockTo adm (deref r) Q s := by
  unfold deref
  refine alone_then (alone_gets ⟨rfl, _, rfl, ?_⟩)
  rw [hj]
  exact alone_pure hQ

/-- A call that reads no file resolves, with its full effect. -/
theorem alone_effect {op : Op} (hop : op.readsFile = false) {s : St} :
    Alone (W := world) clockTo Answered (Prog.call (S := sig) op) (fun _ res s' =>
      (∃ a, res = .ok a) ∧ ∃ now, s' = ⟨clockTo now s.mem, effect .full s.world op⟩) s := by
  refine alone_call ?_
  intro c now res w hadm hper
  cases res with
  | ok a => exact ⟨⟨a, rfl⟩, now, by rw [(perform_ok hper).2]⟩
  | error e => exact absurd hadm (PendingMap.not_answered hop hper)

theorem alone_load (id : Str) {s : St} :
    Alone (W := world) clockTo Answered (load id) (fun _ res s' => ∃ now,
      match s.world.jobs id with
      | some (.whole job) => res = .ok (some s.mem.heap.length) ∧
          s' = ⟨Memory.alloc job.stored (clockTo now s.mem), s.world⟩
      | _ => res = .ok none ∧ s' = ⟨clockTo now s.mem, s.world⟩) s := by
  have hread : Alone (W := world) clockTo Answered (Prog.call (S := sig) (.readJob id))
      (fun _ res s' => res = readFile (s.world.jobs id) ∧
        ∃ now, s' = ⟨clockTo now s.mem, s.world⟩) s := by
    refine alone_call ?_
    intro c now res w hadm hper
    cases c <;> cases hper
    · exact absurd rfl (hadm _ _)
    · exact ⟨rfl, now, rfl⟩
  unfold load
  refine alone_tryCatch (R := fun _ res s' => ∃ now, match s.world.jobs id with
    | some (.whole job) => res = .ok (some s.mem.heap.length) ∧
        s' = ⟨Memory.alloc job.stored (clockTo now s.mem), s.world⟩
    | _ => (∃ e, res = .error e) ∧ s' = ⟨clockTo now s.mem, s.world⟩) ?_ ?_ ?_
  · refine alone_seq hread ?_ ?_
    · rintro calls raw _ ⟨hraw, now, rfl⟩
      rw [readFile_ok hraw.symm]
      cases raw with
      | whole job =>
        refine alone_lift_seq (fun parsed hparse => ?_) fun e hparse => by cases hparse
        obtain rfl : job.stored = parsed := Except.ok.inj hparse
        unfold newJob
        refine alone_then (alone_then (alone_gets ⟨rfl, _, rfl, ?_⟩))
        exact alone_then (alone_modify ⟨rfl, _, rfl, alone_pure
          ⟨rfl, _, rfl, alone_pure ⟨now, rfl, rfl⟩⟩⟩)
      | torn =>
        exact alone_lift_seq (fun parsed hparse => by cases hparse) fun e _ =>
          ⟨now, ⟨e, rfl⟩, rfl⟩
    · rintro calls e _ ⟨hraw, now, rfl⟩
      refine ⟨now, ?_⟩
      cases hfile : s.world.jobs id with
      | none => exact ⟨⟨e, rfl⟩, rfl⟩
      | some raw =>
        rw [hfile] at hraw
        cases hraw
  · rintro calls found s' ⟨now, h⟩
    refine ⟨now, ?_⟩
    split at h
    · exact h
    · obtain ⟨⟨e, he⟩, -⟩ := h
      cases he
  · rintro calls e s' ⟨now, h⟩
    refine alone_pure ⟨now, ?_⟩
    split at h
    · cases h.1
    · exact ⟨rfl, h.2⟩

/-- A save writes the object to the file of its id. -/
theorem alone_save {s : St} {r : Ref} {job : Job} (hj : s.mem.heap[r]? = some job) :
    Alone (W := world) clockTo Answered (save r) (fun _ res s' => res = .ok () ∧ ∃ now time,
      s' = ⟨clockTo now (Memory.updateJob r (fun job => { job with updatedAt := time }) s.mem),
        effect .full s.world (.writeJob job.id { job with updatedAt := time })⟩) s := by
  unfold save
  refine alone_then (alone_gets ⟨rfl, _, rfl, ?_⟩)
  refine alone_then (alone_modify ⟨rfl, _, rfl, ?_⟩)
  have hj₁ : (Memory.updateJob r (fun job => { job with updatedAt := s.mem.now }) s.mem).heap[r]? =
      some { job with updatedAt := s.mem.now } := by
    rw [Memory.updateJob, List.getElem?_modify_eq, hj]
    rfl
  refine alone_then (alone_deref hj₁ ⟨rfl, _, rfl, ?_⟩)
  refine alone_seq (alone_effect rfl) ?_ ?_
  · rintro calls _ _ ⟨-, now, rfl⟩
    refine alone_then (alone_deref hj₁ ⟨rfl, _, rfl, ?_⟩)
    refine alone_mono (alone_effect rfl) ?_
    rintro calls' res _ ⟨⟨a, rfl⟩, now', rfl⟩
    exact ⟨rfl, now', s.mem.now, rfl⟩
  · rintro calls e _ ⟨⟨a, ha⟩, -⟩
    cases ha

/-- A new job that is saved touches no other object, and no file that holds a job. -/
theorem loads_save (now now' time : Int) {job : Job} {s : St}
    (hnew : ∀ held, s.world.jobs job.id ≠ some (.whole held)) :
    Loads s ⟨clockTo now' (Memory.updateJob s.mem.heap.length
        (fun job => { job with updatedAt := time }) (Memory.alloc job (clockTo now s.mem))),
      effect .full s.world (.writeJob job.id { job with updatedAt := time })⟩ := by
  refine ⟨fun _ _ => rfl, fun r held hr => ?_, fun id held hfile => ?_⟩
  · have hlt := (List.getElem?_eq_some_iff.mp hr).1
    change ((s.mem.heap ++ [job]).modify s.mem.heap.length _)[r]? = some held
    rw [List.getElem?_modify_ne _ _ (Nat.ne_of_gt hlt), List.getElem?_append_left hlt, hr]
  · have hne : id ≠ job.id := by
      rintro rfl
      exact hnew held hfile
    change Function.update s.world.jobs job.id _ id = some (.whole held)
    rw [Function.update_of_ne hne]
    exact hfile

/-- What `create` comes to: refused without a transaction hash, and otherwise an object that is
the job on disk if there is one. -/
structure Creates (s : St) (params : CreateParams) (res : Except JsError Ref) (s' : St) : Prop where
  loads : Loads s s'
  live : s'.mem.live = s.mem.live
  refused : ∀ e, normalizeXrplTxId params.xrplTxId = .error e → res = .error e
  created : ∀ id, normalizeXrplTxId params.xrplTxId = .ok id → ∃ r, res = .ok r ∧
    ∀ job, s.world.jobs (id.drop 2) = some (.whole job) → s'.mem.heap[r]? = some job.stored

theorem alone_create (params : CreateParams) {s : St} :
    Alone (W := world) clockTo Answered (create params) (fun _ res s' => Creates s params res s')
      s := by
  unfold create
  refine alone_lift_seq (fun id hid => ?_) fun e he =>
    ⟨.refl s, rfl, fun e' he' => congrArg _ (Except.error.inj (he.symm.trans he')), by
      rw [he]
      rintro id ⟨⟩⟩
  have hthis : ∀ id', normalizeXrplTxId params.xrplTxId = .ok id' → id' = id :=
    fun id' hid' => (Except.ok.inj (hid.symm.trans hid')).symm
  have hnever : ∀ (res : Except JsError Ref) e, normalizeXrplTxId params.xrplTxId = .error e →
      res = .error e := by
    intro res e he
    rw [hid] at he
    cases he
  refine alone_seq (alone_load _) ?_ ?_
  · rintro calls found s₁ ⟨now, hload⟩
    split at hload
    case h_1 job hfile =>
      obtain ⟨hfound, rfl⟩ := hload
      obtain rfl := Except.ok.inj hfound
      refine alone_pure ⟨loads_alloc now job.stored s, rfl, hnever _, fun id' hid' => ⟨_, rfl, ?_⟩⟩
      obtain rfl := hthis id' hid'
      intro job' hfile'
      obtain rfl := Text.whole.inj (Option.some.inj (hfile.symm.trans hfile'))
      exact List.getElem?_concat_length
    case h_2 hnone =>
      obtain ⟨hfound, rfl⟩ := hload
      obtain rfl := Except.ok.inj hfound
      unfold newJob
      refine alone_then (alone_gets ⟨rfl, _, rfl, ?_⟩)
      refine alone_then (alone_then (alone_gets ⟨rfl, _, rfl, ?_⟩))
      refine alone_then (alone_modify ⟨rfl, _, rfl, alone_pure ⟨rfl, _, rfl, ?_⟩⟩)
      have hj : (s.mem.heap ++ [params.job id now])[s.mem.heap.length]? =
          some (params.job id now) := List.getElem?_concat_length
      refine alone_seq (alone_save hj) ?_ ?_
      · rintro calls' _ _ ⟨-, now', time, rfl⟩
        refine alone_pure ⟨loads_save now now' time hnone, rfl, hnever _,
          fun id' hid' => ⟨_, rfl, ?_⟩⟩
        obtain rfl := hthis id' hid'
        exact fun job hfile => absurd hfile (hnone job)
      · rintro calls' e _ ⟨he, -⟩
        cases he
  · rintro calls e s₁ ⟨now, hload⟩
    split at hload
    · cases hload.1
    · cases hload.1

/-! ## 2. The creation loop -/

/-- The payment can be made a job: its record is readable, and its hash is one. -/
def takable (s : St) (p : ObservedPayment) : Bool :=
  (Cache.lookup keys (PendingMap.view s) p.commitment).any PendingUserOp.readable &&
    (normalizeXrplTxId p.xrplTxId).isOk

theorem Loads.takable {s s' : St} (h : Loads s s') {p : ObservedPayment}
    (hp : IsLowerHex 32 p.commitment) : takable s' p = takable s p := by
  rw [Resume.takable, Resume.takable, h.lookup _ hp]

theorem loads_of_sameStore {s s' : St} (h : SameStore s s') : Loads s s' := by
  refine ⟨h.lookup, fun r job hj => ?_, fun id job hj => ?_⟩
  · rwa [h.heap]
  · rwa [h.world]

/-- A payment that a poll has reported, and that has no job yet. -/
structure Awaited (s : St) (p : ObservedPayment) : Prop where
  lower : IsLowerHex 32 p.commitment
  held : registered s p.commitment = true
  printed : printable s p.commitment = true
  new : s.mem.live.has p.xrplTxId = false

/-- The object is what the file of the transaction gives back, if there is one. -/
def IsOf (s s' : St) (key : Str) (r : Ref) : Prop :=
  ∀ id job, normalizeXrplTxId key = .ok id → s.world.jobs (id.drop 2) = some (.whole job) →
    s'.mem.heap[r]? = some job.stored

/-- One iteration: the payment becomes a live job, or the loop throws. -/
structure Took (s : St) (p : ObservedPayment) (res : Except JsError Unit) (s' : St) : Prop where
  loads : Loads s s'
  taken : takable s p = true → res = .ok () ∧
    ∃ r, s'.mem.live = s.mem.live.set p.xrplTxId r ∧ IsOf s s' p.xrplTxId r
  left : takable s p = false → (∃ e, res = .error e) ∧ s'.mem.live = s.mem.live

/-- A number that cannot be read. -/
theorem Took.unread {s s' : St} {p : ObservedPayment} {record : PendingUserOp} {e : JsError}
    (hstore : SameStore s s')
    (hlook : Cache.lookup keys (PendingMap.view s) p.commitment = some record)
    (hnot : record.readable = false) : Took s p (.error e) s' := by
  have htake : takable s p = false := by
    rw [takable, hlook, Option.any_some, hnot]
    rfl
  refine ⟨loads_of_sameStore hstore, fun h => ?_, fun _ => ⟨⟨e, rfl⟩, hstore.live⟩⟩
  rw [htake] at h
  cases h

theorem alone_createOne (p : ObservedPayment) {s : St} (h : Awaited s p) :
    Alone (W := world) clockTo Answered (createOne p) (fun _ res s' => Took s p res s') s := by
  unfold createOne
  refine alone_then (alone_gets ⟨rfl, _, rfl, ?_⟩)
  rw [h.new]
  refine alone_seq (PendingMap.alone_get p.commitment) ?_ ?_
  case refine_2 =>
    rintro calls e s₁ ⟨hres, -⟩
    cases hres
  rintro calls found s₁ ⟨hres, hview, hworld, hmem⟩
  have hstore := sameStore_fill h.lower hview hworld hmem
  obtain ⟨record, hlook⟩ := Option.isSome_iff_exists.mp h.held
  obtain rfl : found = some record := (Except.ok.inj hres).trans hlook
  obtain ⟨text, hlabel⟩ : ∃ text, record.label.text = .ok text := by
    have hprinted := h.printed
    rw [printable, hlook, Option.all_some] at hprinted
    cases htext : record.label.text with
    | ok text => exact ⟨text, rfl⟩
    | error e =>
      rw [htext] at hprinted
      cases hprinted
  refine alone_lift_seq (fun value hvalue => ?_) fun e he => ?_
  case refine_2 =>
    refine .unread hstore hlook ?_
    simp [PendingUserOp.readable, he, Except.isOk, Except.toBool]
  refine alone_lift_seq (fun nonce hnonce => ?_) fun e he => ?_
  case refine_2 =>
    refine .unread hstore hlook ?_
    simp [PendingUserOp.readable, he, Except.isOk, Except.toBool]
  have htake : takable s p = (normalizeXrplTxId p.xrplTxId).isOk := by
    simp [takable, hlook, PendingUserOp.readable, hvalue, hnonce, hlabel, Except.isOk,
      Except.toBool]
  refine alone_seq (alone_create _) ?_ ?_
  · rintro calls' r s₂ hcreate
    have hloads := (loads_of_sameStore hstore).trans hcreate.loads
    have hlive : s₂.mem.live = s.mem.live := hcreate.live.trans hstore.live
    refine alone_then (alone_modify ⟨rfl, _, rfl, ?_⟩)
    rw [hlabel]
    refine alone_lift_seq (fun _ _ => alone_pure ?_) fun _ h => by cases h
    refine ⟨⟨hloads.lookup, hloads.heap, hloads.jobs⟩, fun _ => ⟨rfl, r, ?_, ?_⟩, fun hnot => ?_⟩
    · exact congrArg (fun live => live.set p.xrplTxId r) hlive
    · intro id job hid hfile
      obtain ⟨r', hr', hjob⟩ := hcreate.created id hid
      obtain rfl := Except.ok.inj hr'
      exact hjob job (hworld ▸ hfile)
    · cases hid : normalizeXrplTxId p.xrplTxId with
      | ok id =>
        rw [htake, hid] at hnot
        cases hnot
      | error e => cases hcreate.refused e hid
  · rintro calls' e s₂ hcreate
    have hloads := (loads_of_sameStore hstore).trans hcreate.loads
    refine ⟨hloads, fun hyes => ?_, fun _ => ⟨⟨e, rfl⟩, hcreate.live.trans hstore.live⟩⟩
    cases hid : normalizeXrplTxId p.xrplTxId with
    | ok id =>
      obtain ⟨r, hr, -⟩ := hcreate.created id hid
      cases hr
    | error e' =>
      rw [htake, hid] at hyes
      cases hyes

/-- What the loop leaves in the live map: the payments up to the first that cannot be taken. -/
structure Filled (s : St) (found : List ObservedPayment) (s' : St) : Prop where
  loads : Loads s s'
  old : ∀ key r, s.mem.live.get? key = some r → s'.mem.live.get? key = some r
  taken : ∀ p ∈ found.takeWhile (takable s),
    ∃ r, s'.mem.live.get? p.xrplTxId = some r ∧ IsOf s s' p.xrplTxId r
  only : ∀ key, s'.mem.live.has key = true →
    s.mem.live.has key = true ∨ ∃ p ∈ found.takeWhile (takable s), p.xrplTxId = key

theorem IsOf.later {s s' s'' : St} {key : Str} {r : Ref} (h : IsOf s s' key r) (h' : Loads s' s'') :
    IsOf s s'' key r :=
  fun id job hid hfile => h'.heap r job.stored (h id job hid hfile)

theorem IsOf.earlier {s s' s'' : St} {key : Str} {r : Ref} (h : Loads s s')
    (h' : IsOf s' s'' key r) : IsOf s s'' key r :=
  fun id job hid hfile => h' id job hid (h.jobs _ _ hfile)

theorem takeWhile_takable {s s' : St} (h : Loads s s') {found : List ObservedPayment}
    (hlower : ∀ p ∈ found, IsLowerHex 32 p.commitment) :
    found.takeWhile (takable s') = found.takeWhile (takable s) := by
  induction found with
  | nil => rfl
  | cons p rest ih =>
    rw [List.takeWhile_cons, List.takeWhile_cons, h.takable (hlower p List.mem_cons_self),
      ih fun q hq => hlower q (List.mem_cons_of_mem _ hq)]

/-- The loop ends where a payment cannot be taken. -/
theorem Filled.stop {s s' : St} {p : ObservedPayment} {rest : List ObservedPayment}
    (hloads : Loads s s') (hlive : s'.mem.live = s.mem.live) (hnot : takable s p = false) :
    Filled s (p :: rest) s' := by
  have hnone : (p :: rest).takeWhile (takable s) = [] :=
    List.takeWhile_cons_of_neg (by rw [hnot]; decide)
  refine ⟨hloads, fun key r h => ?_, fun q hq => ?_, fun key h => Or.inl ?_⟩
  · rwa [hlive]
  · rw [hnone] at hq
    cases hq
  · rwa [← hlive]

theorem Filled.cons {s s₁ s' : St} {p : ObservedPayment} {rest : List ObservedPayment} {r : Ref}
    (hp : Awaited s p) (htake : takable s p = true) (hloads : Loads s s₁)
    (hlive : s₁.mem.live = s.mem.live.set p.xrplTxId r) (hof : IsOf s s₁ p.xrplTxId r)
    (hsame : rest.takeWhile (takable s₁) = rest.takeWhile (takable s)) (h : Filled s₁ rest s') :
    Filled s (p :: rest) s' := by
  have hcons : (p :: rest).takeWhile (takable s) = p :: rest.takeWhile (takable s) :=
    List.takeWhile_cons_of_pos htake
  refine ⟨hloads.trans h.loads, fun key held hkey => h.old key held ?_, ?_, ?_⟩
  · have hne : key ≠ p.xrplTxId := by
      rintro rfl
      have hhas := JsMap.has_of_get? hkey
      rw [hp.new] at hhas
      cases hhas
    rw [hlive, JsMap.get?_set, if_neg hne]
    exact hkey
  · rw [hcons]
    intro q hq
    rcases List.mem_cons.mp hq with rfl | hq
    · refine ⟨r, h.old _ r ?_, hof.later h.loads⟩
      rw [hlive, JsMap.get?_set, if_pos rfl]
    · obtain ⟨held, hget, hheld⟩ := h.taken q (hsame.symm ▸ hq)
      exact ⟨held, hget, hheld.earlier hloads⟩
  · intro key hkey
    rw [hcons]
    rcases h.only key hkey with hkey | ⟨q, hq, rfl⟩
    · rw [hlive] at hkey
      rcases JsMap.has_set.mp hkey with rfl | hkey
      · exact Or.inr ⟨p, List.mem_cons_self, rfl⟩
      · exact Or.inl hkey
    · exact Or.inr ⟨q, List.mem_cons_of_mem _ (hsame ▸ hq), rfl⟩

/-- The rest of the payments are awaited still. -/
theorem Awaited.later {s s' : St} {p q : ObservedPayment} {r : Ref} (h : Awaited s q)
    (hloads : Loads s s') (hlive : s'.mem.live = s.mem.live.set p.xrplTxId r)
    (hne : q.xrplTxId ≠ p.xrplTxId) : Awaited s' q := by
  refine ⟨h.lower, ?_, ?_, ?_⟩
  · rw [registered, hloads.lookup _ h.lower]
    exact h.held
  · rw [printable, hloads.lookup _ h.lower]
    exact h.printed
  · rw [hlive, Bool.eq_false_iff]
    intro hhas
    rcases JsMap.has_set.mp hhas with heq | hhas
    · exact hne heq
    · rw [h.new] at hhas
      cases hhas

theorem alone_createLoop (found : List ObservedPayment) {s : St} (hall : ∀ p ∈ found, Awaited s p)
    (hnodup : (found.map ObservedPayment.xrplTxId).Nodup) :
    Alone (W := world) clockTo Answered (createLoop found) (fun _ _ s' => Filled s found s') s := by
  induction found generalizing s with
  | nil =>
    exact alone_pure ⟨.refl s, fun _ _ h => h, fun p hp => absurd hp List.not_mem_nil,
      fun _ h => Or.inl h⟩
  | cons p rest ih =>
    have hp := hall p List.mem_cons_self
    rw [List.map_cons, List.nodup_cons] at hnodup
    unfold createLoop
    refine alone_seq (alone_createOne p hp) ?_ ?_
    · rintro calls _ s₁ htook
      cases htake : takable s p with
      | false =>
        obtain ⟨⟨e, he⟩, -⟩ := htook.left htake
        cases he
      | true =>
        obtain ⟨-, r, hlive, hof⟩ := htook.taken htake
        have hrest : ∀ q ∈ rest, Awaited s₁ q := fun q hq =>
          (hall q (List.mem_cons_of_mem _ hq)).later htook.loads hlive
            fun heq => hnodup.1 (heq ▸ List.mem_map_of_mem hq)
        have hsame := takeWhile_takable htook.loads fun q hq =>
          (hall q (List.mem_cons_of_mem _ hq)).lower
        refine alone_mono (ih hrest hnodup.2) ?_
        rintro calls' res s₂ hfilled
        exact hfilled.cons hp htake htook.loads hlive hof hsame
    · rintro calls e s₁ htook
      cases htake : takable s p with
      | true => cases (htook.taken htake).1
      | false => exact .stop htook.loads (htook.left htake).2 htake

/-! ## 3. `start` and its tick -/

/-- What `start` sets off, up to the walk over the live map: the cursor, and a poll. -/
def startAndPoll (o : Options) : Prog Unit := do
  start
  createJobs o

/-- The server has said that this is the current ledger. -/
def BeginsAt (ledger : Int) (calls : List Exchange) : Prop :=
  calls.head?.map Exchange.choice = some (.ledger (.result ledger))

/-- The first page is asked for from this ledger on. -/
def AsksFrom (o : Options) (ledger : Int) (calls : List Exchange) : Prop :=
  ∀ x ∈ calls.head?, x.op = .accountTx o.coreVaultAddress 30 (Watcher.ledgerIndexMin ledger)

theorem alone_currentLedger {adm : Exchange → Prop} {s : St} :
    Alone (W := world) clockTo adm XrplHttpClient.currentLedger (fun calls res s' =>
      (∃ now, s' = ⟨clockTo now s.mem, s.world⟩) ∧ ∃ x, calls = [x] ∧
        ∀ ledger, res = .ok ledger ↔ x.choice = .ledger (.result ledger)) s := by
  have hcall : Alone (W := world) clockTo adm (Prog.call (S := sig) .ledgerCurrent)
      (fun calls res s' => (∃ now, s' = ⟨clockTo now s.mem, s.world⟩) ∧ ∃ x, calls = [x] ∧
        ∀ body, res = .ok body ↔ x.choice = .ledger body) s := by
    refine alone_call ?_
    intro c now r w _ hper
    have hworld : w = s.world := perform_readOnly rfl hper
    subst hworld
    refine ⟨⟨now, rfl⟩, _, rfl, fun body => ⟨?_, ?_⟩⟩
    · rintro rfl
      have hreply := (perform_ok hper).1
      cases c <;> cases hreply
      rfl
    · rintro rfl
      cases hper
      rfl
  unfold XrplHttpClient.currentLedger
  refine alone_seq hcall ?_ ?_
  · rintro calls body s₁ ⟨hclock, x, rfl, hx⟩
    refine alone_lift ⟨hclock, x, rfl, fun ledger => ?_⟩
    rw [(hx body).mp rfl]
    cases body <;> simp [XrplHttpClient.readResult, raise]
  · rintro calls e s₁ ⟨hclock, x, rfl, hx⟩
    refine ⟨hclock, x, rfl, fun ledger => iff_of_false (by simp) fun hledger => ?_⟩
    cases (hx (.result ledger)).mpr hledger

theorem alone_start {adm : Exchange → Prop} {s : St} :
    Alone (W := world) clockTo adm start (fun calls res s' => (∃ x, calls = [x]) ∧
      (res = .ok () ↔ ∃ ledger, BeginsAt ledger calls) ∧ SameStore s s' ∧
      s'.mem.seen = s.mem.seen ∧ ∀ ledger, BeginsAt ledger calls → s'.mem.lastLedger = ledger)
      s := by
  unfold start
  refine alone_seq alone_currentLedger ?_ ?_
  · rintro calls ledger _ ⟨⟨now, rfl⟩, x, rfl, hx⟩
    have hledger : BeginsAt ledger [x] := congrArg some ((hx ledger).mp rfl)
    refine alone_then (alone_modify ⟨rfl, _, rfl, ?_⟩)
    refine alone_modify ⟨⟨x, rfl⟩, iff_of_true rfl ⟨ledger, hledger⟩,
      ⟨fun _ _ => rfl, rfl, rfl, rfl⟩, rfl, fun ledger' hledger' => ?_⟩
    exact Except.ok.inj ((hx ledger').mpr (Option.some.inj hledger'))
  · rintro calls e _ ⟨⟨now, rfl⟩, x, rfl, hx⟩
    have hnot : ∀ ledger, ¬ BeginsAt ledger [x] := by
      intro ledger hledger
      cases (hx ledger).mpr (Option.some.inj hledger)
    exact ⟨⟨x, rfl⟩, iff_of_false (by simp) (not_exists.mpr hnot), sameStore_clockTo now s, rfl,
      fun ledger hledger => absurd hledger (hnot ledger)⟩

/-- The payments of a page have different hashes, none of them seen before. -/
theorem reports_nodup (s : St) (seen : List Str) (page : List AccountTxEntry) :
    ((reports s seen page).map ObservedPayment.xrplTxId).Nodup ∧
      ∀ p ∈ reports s seen page, p.xrplTxId ∉ seen := by
  induction page generalizing seen with
  | nil => exact ⟨List.nodup_nil, fun p hp => absurd hp List.not_mem_nil⟩
  | cons x rest ih =>
    cases hx : reportOf s seen x with
    | none =>
      simp only [reports, hx]
      exact ih seen
    | some p =>
      simp only [reports, hx, List.map_cons, List.nodup_cons, List.mem_cons]
      obtain ⟨hnodup, hfresh⟩ := ih (p.xrplTxId :: seen)
      refine ⟨⟨fun hmem => ?_, hnodup⟩, ?_⟩
      · obtain ⟨q, hq, heq⟩ := List.mem_map.mp hmem
        exact hfresh q hq (heq ▸ List.mem_cons_self)
      · rintro q (rfl | hq)
        · exact (reportOf_eq_some.mp hx).2.2.1
        · exact fun hseen => hfresh q hq (List.mem_cons_of_mem _ hseen)

/-- A poll resolves: it gets a page, and every label it comes upon can be printed. -/
def Resolves (s : St) (calls : List Exchange) : Prop :=
  Paged calls ∧ ∀ p ∈ reports s s.mem.seen (pageOf calls), printable s p.commitment = true

/-- What the first half of a tick does with an empty live map. -/
inductive Filling (s : St) (calls : List Exchange) (s' : St) : Prop
  | filled : Resolves s calls → Filled s (reports s s.mem.seen (pageOf calls)) s' →
      Filling s calls s'
  | unchanged : ¬ Resolves s calls → s'.mem.live = s.mem.live → Filling s calls s'

/-- More calls do not change what the first has been answered. -/
theorem paged_append {calls : List Exchange} (more : List Exchange) (h : Paged calls) :
    Paged (calls ++ more) ∧ pageOf (calls ++ more) = pageOf calls := by
  obtain ⟨page, hpage⟩ := h
  cases calls with
  | nil => cases hpage
  | cons x rest => exact ⟨⟨page, hpage⟩, rfl⟩

theorem alone_poll_asks {adm : Exchange → Prop} (o : Options) (limit : Nat) {s : St} :
    Alone (W := world) clockTo adm (Watcher.poll o limit) (fun calls _ _ => ∃ x rest,
      calls = x :: rest ∧
        x.op = .accountTx o.coreVaultAddress limit (Watcher.ledgerIndexMin s.mem.lastLedger)) s := by
  unfold Watcher.poll
  refine alone_then (alone_gets ⟨rfl, _, rfl, ?_⟩)
  refine alone_seq (alone_accountTx _ _ _) ?_ ?_
  · rintro calls page s₁ ⟨-, x, rfl, hop, -⟩ answers out - -
    exact ⟨x, out.calls, rfl, hop⟩
  · rintro calls e s₁ ⟨-, x, rfl, hop, -⟩
    exact ⟨x, [], rfl, hop⟩

theorem alone_createJobs_asks {adm : Exchange → Prop} (o : Options) {s : St} :
    Alone (W := world) clockTo adm (createJobs o) (fun calls _ _ =>
      AsksFrom o s.mem.lastLedger calls) s := by
  have hfirst : ∀ (calls more : List Exchange), (∃ x rest, calls = x :: rest ∧
      x.op = .accountTx o.coreVaultAddress 30 (Watcher.ledgerIndexMin s.mem.lastLedger)) →
      AsksFrom o s.mem.lastLedger (calls ++ more) := by
    rintro calls more ⟨x, rest, rfl, hop⟩ y hy
    obtain rfl := Option.some.inj hy
    exact hop
  unfold createJobs
  refine alone_tryCatch (R := fun calls _ _ => AsksFrom o s.mem.lastLedger calls) ?_ ?_ ?_
  · refine alone_seq (alone_poll_asks o 30) ?_ ?_
    · rintro calls found s₁ hasks answers out - -
      exact hfirst calls out.calls hasks
    · rintro calls e s₁ hasks
      exact List.append_nil calls ▸ hfirst calls [] hasks
  · exact fun calls a s' h => h
  · rintro calls e s' h
    exact alone_pure (by rwa [List.append_nil])

theorem alone_createJobs (o : Options) {s : St} (hempty : ∀ key, s.mem.live.has key = false) :
    Alone (W := world) clockTo Answered (createJobs o) (fun calls res s' => res = .ok () ∧
      Filling s calls s') s := by
  unfold createJobs
  refine alone_tryCatch (R := fun calls _ s' => Filling s calls s') ?_ ?_ ?_
  · refine alone_seq (alone_poll o 30) ?_ ?_
    · rintro calls found s₁ ⟨hstore, hpaged, hnone⟩
      by_cases hpage : Paged calls
      · obtain ⟨rfl, hprint⟩ := hpaged hpage
        obtain ⟨hnodup, -⟩ := reports_nodup s s.mem.seen (pageOf calls)
        have hlow : ∀ p ∈ reports s s.mem.seen (pageOf calls), IsLowerHex 32 p.commitment :=
          fun p hp => reports_shape hp
        have hawaited : ∀ p ∈ reports s s.mem.seen (pageOf calls), Awaited s₁ p := by
          intro p hp
          obtain ⟨-, x, -, -, hx, -⟩ := mem_reports_iff.mp hp
          refine ⟨hlow p hp, ?_, ?_, by rw [hstore.live]; exact hempty _⟩
          · rw [registered, hstore.lookup _ (hlow p hp)]
            exact (reportOf_eq_some.mp hx).2.2.2
          · rw [hstore.printable (hlow p hp)]
            exact hprint p hp
        refine alone_mono (alone_createLoop _ hawaited hnodup) ?_
        rintro more res s₂ hfilled
        obtain ⟨hpaged', hsame⟩ := paged_append more hpage
        refine .filled ⟨hpaged', ?_⟩ ?_
        · rw [hsame]
          exact hprint
        · rw [hsame]
          have htake := takeWhile_takable (loads_of_sameStore hstore) hlow
          refine ⟨(loads_of_sameStore hstore).trans hfilled.loads, fun key r h => ?_, ?_, ?_⟩
          · exact hfilled.old key r (by rwa [hstore.live])
          · intro p hp
            obtain ⟨r, hget, hof⟩ := hfilled.taken p (htake.symm ▸ hp)
            exact ⟨r, hget, hof.earlier (loads_of_sameStore hstore)⟩
          · intro key hkey
            rw [← hstore.live, ← htake]
            exact hfilled.only key hkey
      · obtain ⟨e, he⟩ := hnone hpage
        cases he
    · rintro calls e s₁ ⟨hstore, hpaged, -⟩
      refine .unchanged ?_ hstore.live
      rintro ⟨hpage, hprint⟩
      obtain ⟨p, hp, hnot⟩ := hpaged hpage
      rw [hprint p hp] at hnot
      cases hnot
  · rintro calls a s' h
    exact ⟨rfl, h⟩
  · rintro calls e s' h
    exact alone_pure ⟨rfl, by rwa [List.append_nil]⟩

/-! ## 4. What is live again -/

/-- The live map has the job that was on disk, as its file gives it back, under the hash of its
transaction. -/
def Resumed (id : Str) (job : Job) (s : St) : Prop :=
  ∃ key r, normalizeXrplTxId key = .ok (hexPrefix ++ id) ∧ s.mem.live.get? key = some r ∧
    s.mem.heap[r]? = some job.stored

/-- The first page after the ledger was asked for reports the payment of the transaction, and no
payment before it that cannot be taken. -/
structure PickedUp (s : St) (calls : List Exchange) (id : Str) : Prop where
  begun : ∃ ledger, BeginsAt ledger calls
  resolves : Resolves s calls.tail
  paid : ∃ p ∈ (reports s s.mem.seen (pageOf calls.tail)).takeWhile (takable s),
    normalizeXrplTxId p.xrplTxId = .ok (hexPrefix ++ id)

theorem Filled.resumed_iff {s s' : St} {found : List ObservedPayment} {id : Str} {job : Job}
    (h : Filled s found s') (hempty : ∀ key, s.mem.live.has key = false)
    (hfile : s.world.jobs id = some (.whole job)) :
    Resumed id job s' ↔ ∃ p ∈ found.takeWhile (takable s),
      normalizeXrplTxId p.xrplTxId = .ok (hexPrefix ++ id) := by
  constructor
  · rintro ⟨key, r, hkey, hget, -⟩
    rcases h.only key (JsMap.has_of_get? hget) with hold | ⟨p, hp, rfl⟩
    · rw [hempty key] at hold
      cases hold
    · exact ⟨p, hp, hkey⟩
  · rintro ⟨p, hp, hkey⟩
    obtain ⟨r, hget, hof⟩ := h.taken p hp
    exact ⟨p.xrplTxId, r, hkey, hget, hof _ job hkey hfile⟩

theorem not_resumed {s : St} {id : Str} {job : Job} (hempty : ∀ key, s.mem.live.has key = false) :
    ¬ Resumed id job s := by
  rintro ⟨key, r, -, hget, -⟩
  have hhas := JsMap.has_of_get? hget
  rw [hempty key] at hhas
  cases hhas

theorem Filling.resumed_iff {s s' : St} {calls : List Exchange} {id : Str} {job : Job}
    (h : Filling s calls s') (hempty : ∀ key, s.mem.live.has key = false)
    (hfile : s.world.jobs id = some (.whole job)) :
    Resumed id job s' ↔ Resolves s calls ∧
      ∃ p ∈ (reports s s.mem.seen (pageOf calls)).takeWhile (takable s),
        normalizeXrplTxId p.xrplTxId = .ok (hexPrefix ++ id) := by
  cases h with
  | filled hres hfilled =>
    rw [hfilled.resumed_iff hempty hfile]
    exact (and_iff_right hres).symm
  | unchanged hnot hlive =>
    exact iff_of_false (not_resumed fun key => by rw [hlive]; exact hempty key) fun h => hnot h.1

/-- The same, over a store that finds the same. -/
theorem SameStore.resolves_iff {s s' : St} (h : SameStore s s')
    (hseen : s'.mem.seen = s.mem.seen) {calls : List Exchange} :
    Resolves s' calls ↔ Resolves s calls := by
  unfold Resolves
  rw [hseen, h.reports]
  refine and_congr_right fun _ => forall₂_congr fun p hp => ?_
  rw [h.printable (reports_shape hp)]

theorem SameStore.takeWhile_eq {s s' : St} (h : SameStore s s')
    (hseen : s'.mem.seen = s.mem.seen) (page : List AccountTxEntry) :
    (reports s' s'.mem.seen page).takeWhile (takable s') =
      (reports s s.mem.seen page).takeWhile (takable s) := by
  rw [hseen, h.reports]
  exact takeWhile_takable (loads_of_sameStore h) fun p hp => reports_shape hp

theorem alone_startAndPoll (o : Options) {s : St} {id : Str} {job : Job}
    (hempty : ∀ key, s.mem.live.has key = false) (hfile : s.world.jobs id = some (.whole job)) :
    Alone (W := world) clockTo Answered (startAndPoll o) (fun calls _ s' =>
      Resumed id job s' ↔ PickedUp s calls id) s := by
  unfold startAndPoll
  refine alone_seq alone_start ?_ ?_
  · rintro calls _ s₁ ⟨⟨x, rfl⟩, hbegun, hstore, hseen, -⟩
    have hempty₁ : ∀ key, s₁.mem.live.has key = false := by rwa [hstore.live]
    have hfile₁ : s₁.world.jobs id = some (.whole job) := by rwa [hstore.world]
    refine alone_mono (alone_createJobs o hempty₁) ?_
    rintro more res s₂ ⟨-, hfilling⟩
    rw [hfilling.resumed_iff hempty₁ hfile₁, SameStore.resolves_iff hstore hseen,
      SameStore.takeWhile_eq hstore hseen]
    obtain ⟨ledger, hledger⟩ := hbegun.mp rfl
    exact ⟨fun h => ⟨⟨ledger, hledger⟩, h.1, h.2⟩, fun h => ⟨h.resolves, h.paid⟩⟩
  · rintro calls e s₁ ⟨⟨x, rfl⟩, hbegun, hstore, -⟩
    refine iff_of_false (not_resumed fun key => by rw [hstore.live]; exact hempty key) fun h => ?_
    cases hbegun.mpr h.begun

/-- The first poll asks for what came in from the current ledger on. -/
theorem alone_startAndPoll_asks {adm : Exchange → Prop} (o : Options) {s : St} :
    Alone (W := world) clockTo adm (startAndPoll o) (fun calls _ _ =>
      ∀ ledger, BeginsAt ledger calls → AsksFrom o ledger calls.tail) s := by
  unfold startAndPoll
  refine alone_seq alone_start ?_ ?_
  · rintro calls _ s₁ ⟨⟨x, rfl⟩, -, -, -, hledger⟩
    refine alone_mono (alone_createJobs_asks o) ?_
    rintro more res s₂ hasks ledger hbegins
    rw [hledger ledger hbegins] at hasks
    exact hasks
  · rintro calls e s₁ ⟨⟨x, rfl⟩, -⟩ ledger - y hy
    cases hy

/-- An entry for the transaction. -/
def Names (id : Str) (x : AccountTxEntry) : Prop :=
  ∃ tx hash, x.payment = some tx ∧ x.paymentHash tx = some hash ∧
    normalizeXrplTxId hash = .ok (hexPrefix ++ id)

/-- **A payment from before the restart stays behind**: what is picked up is on the page, so it
lies in a ledger that the server was asked about. -/
theorem PickedUp.named {s : St} {calls : List Exchange} {id : Str} (h : PickedUp s calls id) :
    ∃ x ∈ pageOf calls.tail, Names id x := by
  obtain ⟨p, hp, hid⟩ := h.paid
  have hmem := List.takeWhile_subset _ hp
  obtain ⟨before, x, after, hpage, hx, -⟩ := mem_reports_iff.mp hmem
  obtain ⟨⟨tx, hpay, hname, -, -⟩, -⟩ := reportOf_eq_some.mp hx
  refine ⟨x, ?_, tx, p.xrplTxId, hpay, hname, hid⟩
  rw [hpage]
  exact List.mem_append_right _ List.mem_cons_self

end Resume

open Resume

namespace SampleResume

def options : Options := Sample.options Sample.tables

/-- An operation is registered and paid for in ledger 10, and a tick has saved its job. -/
def events : List (Event options) :=
  Sample.task 0 (.register (Sample.body Sample.userOpData "5".toList)) [.done, .done] ++
    Sample.tickOn 1 [Sample.payment Sample.txId 10 Sample.commitment] Sample.creating

/-- What is on disk then. -/
def saved (s : Sys options) : Option JobState :=
  match s.world.jobs Sample.txId with
  | some (.whole job) => some job.state
  | _ => none

theorem saved_events : (Sys.run events (Sys.fresh options 0 [])).bind saved = some .observed := by
  decide +kernel

/-- The service starts in ledger 11, and the server has nothing newer to show. -/
def later : List (Choice × Int) :=
  [(.ledger (.result 11), 2), (.transactions (.result (some [])), 3)]

/-- The service starts while ledger 10 is the current one. -/
def sameLedger : List (Choice × Int) :=
  [(.ledger (.result 10), 2),
    (.transactions (.result (some [Sample.payment Sample.txId 10 Sample.commitment])), 3),
    (.done, 4), (.done, 5)]

def record : PendingUserOp where
  commitment := Sample.commitment
  userOpData := Sample.userOpData
  personalAccount := .str "0xcd".toList
  nonce := .str "7".toList
  totalCallValue := .str "5".toList
  label := .str "pay".toList
  registeredAt := 0

def params : CreateParams where
  xrplTxId := Sample.txId
  userOpData := Sample.userOpData
  totalCallValue := 5
  personalAccount := .str "0xcd".toList
  nonce := 7

def job : Job := params.job (hexPrefix ++ Sample.txId) 0

/-- The directories of such a service, by their files. -/
def onDisk : St where
  mem := Memory.boot 0
  world := {
    pending := fun name => if name = Sample.commitment.drop 2 then some (.whole record) else none
    jobs := fun id => if id = Sample.txId then some (.whole job) else none
    chain := []
    history := [] }

/-- The payment, as it is reported. -/
def observed : ObservedPayment :=
  ⟨Sample.txId, Sample.commitment, "1000000".toList, [], 10⟩

end SampleResume

/-- **What a restart resumes**: a job that was on disk is live after `start` and its first poll
exactly when that poll reports its payment again; and the poll asks for what came in from the
current ledger on. -/
theorem restart_resumes_iff (o : Options) {s : St} {now : Int} {id : Str} {job : Job}
    {answers : List (Choice × Int)} {out : Async.Outcome sig world Int Unit}
    (hfile : s.world.jobs id = some (.whole job))
    (hexec : exec clockTo (startAndPoll o) answers (PendingMap.restarted now s) = some out)
    (hadm : ∀ x ∈ out.calls, PendingMap.Answered x) :
    (Resumed id job out.st ↔ PickedUp (PendingMap.restarted now s) out.calls id) ∧
      ∀ ledger, BeginsAt ledger out.calls → AsksFrom o ledger out.calls.tail := by
  have hempty : ∀ key, (PendingMap.restarted now s).mem.live.has key = false := fun _ => rfl
  have hkept : (PendingMap.restarted now s).world.jobs id = some (.whole job) := hfile
  exact ⟨alone_startAndPoll o hempty hkept answers out hexec hadm,
    alone_startAndPoll_asks o answers out hexec hadm⟩

open SampleResume in
/-- A restart within the ledger of the payment. -/
theorem restart_resumes_same_ledger : ∃ out,
    exec (W := world) clockTo (startAndPoll SampleResume.options) sameLedger
      (PendingMap.restarted 1 onDisk) = some out ∧
    Resumed Sample.txId job out.st := by
  have hreports : RealPayments.reports (PendingMap.restarted 1 onDisk) []
      [Sample.payment Sample.txId 10 Sample.commitment] = [observed] := rfl
  obtain ⟨out, hexec, hchoices, hbegun, hpaged, hpage⟩ : ∃ out, exec (W := world) clockTo
      (startAndPoll SampleResume.options) sameLedger (PendingMap.restarted 1 onDisk) = some out ∧
      out.calls.map Exchange.choice = sameLedger.map Prod.fst ∧
      (∃ ledger, BeginsAt ledger out.calls) ∧ RealPayments.Paged out.calls.tail ∧
      RealPayments.pageOf out.calls.tail = [Sample.payment Sample.txId 10 Sample.commitment] :=
    ⟨_, rfl, rfl, ⟨10, rfl⟩, ⟨_, rfl⟩, rfl⟩
  have hadm : ∀ x ∈ out.calls, PendingMap.Answered x := by
    intro x hx e part hfail
    have hmem : x.choice ∈ out.calls.map Exchange.choice := List.mem_map_of_mem hx
    rw [hchoices, hfail] at hmem
    simp [sameLedger] at hmem
  have hfile : onDisk.world.jobs Sample.txId = some (.whole job) := rfl
  refine ⟨out, hexec, (restart_resumes_iff SampleResume.options hfile hexec hadm).1.mpr
    ⟨hbegun, ⟨hpaged, ?_⟩, observed, ?_, ?_⟩⟩
  · rw [hpage]
    intro p hp
    have hp : p ∈ [observed] := hreports ▸ hp
    obtain rfl := List.mem_singleton.mp hp
    rfl
  · rw [hpage]
    have htake : [observed].takeWhile (takable (PendingMap.restarted 1 onDisk)) = [observed] := by
      decide +kernel
    exact hreports ▸ htake.symm ▸ List.mem_singleton_self _
  · decide +kernel

open SampleResume in
/-- **A restart one ledger later forgets the job**: its file is there, and it is not live. -/
theorem restart_forgets_job : ∃ s job out,
    Sys.run events (Sys.fresh SampleResume.options 0 []) = some s ∧
    s.world.jobs Sample.txId = some (.whole job) ∧ job.state = .observed ∧
    exec (W := world) clockTo (startAndPoll SampleResume.options) later
      (PendingMap.restarted 1 s.st) = some out ∧
    out.res = .ok () ∧ ¬ Resumed Sample.txId job out.st := by
  obtain ⟨s, hrun, hsaved⟩ := Option.bind_eq_some_iff.mp saved_events
  unfold saved at hsaved
  split at hsaved
  case h_1 job hfile =>
    exact ⟨s, job, _, hrun, hfile, Option.some.inj hsaved, rfl, rfl, not_resumed fun _ => rfl⟩
  case h_2 => cases hsaved

end OneSig.Executor
