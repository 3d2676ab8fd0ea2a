/-
# One payment, one job, although polls overlap

Ticks may overlap: `start` puts them on a timer, and a slow one is still at work when the next one
begins.  A poll checks that a payment is not marked, looks its commitment up in the store, and
marks it; it does not check again when the lookup has ended.  Two polls that look up one payment
at a time both report it, and two jobs are created for it, of which the second replaces the first
in the live map (`overlapping_polls_repeat_payment`).

`Unmarked` excludes exactly this: when a poll goes on after a lookup, its payment has not been
marked meanwhile.  It is a condition on the state before an event.  Then every hash has at most
one keeper: the poll that has found it, or the tick that has still to create its job (`Custody`).
A hash that has been returned is in the hands of no poll any more, and when its job has been put
in the live map no tick has it left to create, so the map never gets another job for it
(`one_payment_one_job`).

The process here is the one of `Stages`, in which a tick is cut at its waits and each task says
where it is: a stage of a poll has the payments found so far, a stage of the creation loop those
that are left.  Custody is stated over these stages, and each stage hands on to the next what it
holds.

* `Custody.handover`: a handover keeps custody.  `handover_of_after`: every jump from one stage to
  the next is one.
* `Kept.step`, `Polls.settled`: one event and a whole run.
* section 4: two ticks that overlap and respect the condition, and the two that do not.
-/
import Mathlib.Data.List.Perm.Basic
import OneSig.Executor.Binding
import OneSig.Executor.Stages

namespace OneSig.Executor

open OneSig Async ExecutorPipeline ExecutorService

/-! ## 1. What a stage holds -/

namespace Stage

/-- The hashes a poll has found and not returned yet. -/
def found : Stage → List Str
  | .polling _ found | .looking _ _ _ _ found => found.map ObservedPayment.xrplTxId
  | _ => []

/-- The hashes a tick has left to create jobs for. -/
def uncreated : Stage → List Str
  | .creating payments => payments.map ObservedPayment.xrplTxId
  | _ => []

def held (stage : Stage) : List Str := stage.found ++ stage.uncreated

/-- The hash of the payment a poll is looking up. -/
def looksUp : Stage → Option Str
  | .looking entry tx _ _ _ => (entry.paymentHash tx).filter fun hash => decide (hash ≠ [])
  | _ => none

/-- The job a walk steps. -/
def steps : Stage → Option (Str × Ref)
  | .stepping _ id job => some (id, job)
  | _ => none

end Stage

namespace OnePayment

/-- The live map has this job, or a walk has it in hand. -/
def Put (live : JsMap Str Ref) (stages : List Stage) (hash : Str) (r : Ref) : Prop :=
  (hash, r) ∈ live.pairs ∨ (hash, r) ∈ stages.filterMap Stage.steps

/-- No job but this one can be put for the hash any more. -/
structure Settled (log : List Str) (live : JsMap Str Ref) (stages : List Stage) (hash : Str)
    (r : Ref) : Prop where
  returned : hash ∈ log
  free : hash ∉ stages.flatMap Stage.held
  only : ∀ r', Put live stages hash r' → r' = r

/-- Every hash has at most one keeper; `log` are the hashes polls have returned. -/
structure Custody (log seen : List Str) (live : JsMap Str Ref) (stages : List Stage) : Prop where
  once : log.Nodup
  logged : ∀ hash ∈ log, hash ∈ seen
  held : (stages.flatMap Stage.held).Nodup
  marked : ∀ hash ∈ stages.flatMap Stage.held, hash ∈ seen
  found : ∀ hash ∈ stages.flatMap Stage.found, hash ∉ log
  uncreated : ∀ hash ∈ stages.flatMap Stage.uncreated, hash ∈ log
  put : ∀ hash r, Put live stages hash r → Settled log live stages hash r

/-- A stage hands on what it holds: `given` is what its poll returns. -/
structure Handover (seen : List Str) (live : JsMap Str Ref) (others : List Stage) (stage : Stage)
    (given seen' : List Str) (live' : JsMap Str Ref) (next : Stage) : Prop where
  nodup : next.held.Nodup
  held : ∀ x ∈ next.held, x ∈ stage.held ∨ (stage.looksUp = some x ∧ x ∈ seen')
  returns : given.Sublist stage.found
  found : ∀ x ∈ next.found, x ∉ given ∧ (x ∈ stage.found ∨ stage.looksUp = some x)
  uncreated : ∀ x ∈ next.uncreated, x ∈ stage.uncreated ∨ x ∈ given
  seen : seen' = seen ∨ ∃ x, stage.looksUp = some x ∧ seen' = x :: seen
  put : ∀ x r, Put live' (next :: others) x r → Put live (stage :: others) x r ∨
    (x ∈ stage.uncreated ∧ x ∉ next.held ∧ ∀ r', Put live' (next :: others) x r' → r' = r)

section Handover

variable {log seen given seen' : List Str} {live live' : JsMap Str Ref}
  {stages stages' others : List Stage} {stage next : Stage}

/-- Custody does not depend on the order of the tasks. -/
theorem Put.perm (hp : stages.Perm stages') {hash : Str} {r : Ref} :
    Put live stages hash r ↔ Put live stages' hash r :=
  or_congr_right (hp.filterMap Stage.steps).mem_iff

theorem Settled.perm (hp : stages.Perm stages') {hash : Str} {r : Ref}
    (h : Settled log live stages hash r) : Settled log live stages' hash r :=
  ⟨h.returned, fun hmem => h.free ((hp.flatMap_right Stage.held).mem_iff.mpr hmem),
    fun r' hput => h.only r' ((Put.perm hp).mpr hput)⟩

theorem Custody.perm (hp : stages.Perm stages') (h : Custody log seen live stages) :
    Custody log seen live stages' where
  once := h.once
  logged := h.logged
  held := (hp.flatMap_right Stage.held).nodup_iff.mp h.held
  marked hash hmem := h.marked hash ((hp.flatMap_right Stage.held).mem_iff.mpr hmem)
  found hash hmem := h.found hash ((hp.flatMap_right Stage.found).mem_iff.mpr hmem)
  uncreated hash hmem := h.uncreated hash ((hp.flatMap_right Stage.uncreated).mem_iff.mpr hmem)
  put hash r hput := (h.put hash r ((Put.perm hp).mpr hput)).perm hp

theorem mem_stages {f : Stage → List Str} {x : Str} :
    x ∈ (stage :: others).flatMap f ↔ x ∈ f stage ∨ x ∈ others.flatMap f := by
  rw [List.flatMap_cons, List.mem_append]

/-- A settled hash stays settled. -/
theorem Settled.handover (hc : Custody log seen live (stage :: others))
    (hfresh : ∀ x, stage.looksUp = some x → x ∉ seen)
    (h : Handover seen live others stage given seen' live' next) {hash : Str} {r : Ref}
    (hs : Settled log live (stage :: others) hash r) :
    Settled (log ++ given) live' (next :: others) hash r := by
  have hfree := hs.free
  rw [mem_stages, not_or] at hfree
  refine ⟨List.mem_append_left _ hs.returned, ?_, fun r' hput => ?_⟩
  · rw [mem_stages, not_or]
    refine ⟨fun hmem => ?_, hfree.2⟩
    rcases h.held hash hmem with hold | ⟨hlooks, -⟩
    · exact hfree.1 hold
    · -- what has been returned is marked
      exact hfresh hash hlooks (hc.logged hash hs.returned)
  · rcases h.put hash r' hput with hold | ⟨huncreated, -, -⟩
    · exact hs.only r' hold
    · exact absurd (List.mem_append_right _ huncreated) hfree.1

/-- **A handover keeps custody**: what one stage gives up goes to the next one, to the log of what
was returned, or to the live map, and to one of them only. -/
theorem Custody.handover (hc : Custody log seen live (stage :: others))
    (hfresh : ∀ x, stage.looksUp = some x → x ∉ seen)
    (h : Handover seen live others stage given seen' live' next) :
    Custody (log ++ given) seen' live' (next :: others) := by
  have hgrow : ∀ x ∈ seen, x ∈ seen' := by
    rcases h.seen with rfl | ⟨y, -, rfl⟩
    · exact fun x hx => hx
    · exact fun x hx => List.mem_cons_of_mem y hx
  obtain ⟨hown, hothers, hdisj⟩ := List.nodup_append.mp (List.flatMap_cons ▸ hc.held)
  have hgiven : ∀ x ∈ given, x ∈ stage.held := fun x hx =>
    List.mem_append_left _ (h.returns.subset hx)
  constructor
  case once =>
    refine List.nodup_append.mpr ⟨hc.once, h.returns.nodup (List.nodup_append.mp hown).1, ?_⟩
    rintro x hx y hy rfl
    exact hc.found x (mem_stages.mpr (Or.inl (h.returns.subset hy))) hx
  case logged =>
    intro x hx
    rcases List.mem_append.mp hx with hx | hx
    · exact hgrow x (hc.logged x hx)
    · exact hgrow x (hc.marked x (mem_stages.mpr (Or.inl (hgiven x hx))))
  case held =>
    rw [List.flatMap_cons]
    refine List.nodup_append.mpr ⟨h.nodup, hothers, ?_⟩
    rintro x hx y hy rfl
    rcases h.held x hx with hold | ⟨hlooks, -⟩
    · exact hdisj x hold x hy rfl
    · exact hfresh x hlooks (hc.marked x (mem_stages.mpr (Or.inr hy)))
  case marked =>
    intro x hx
    rcases mem_stages.mp hx with hx | hx
    · rcases h.held x hx with hold | ⟨-, hseen⟩
      · exact hgrow x (hc.marked x (mem_stages.mpr (Or.inl hold)))
      · exact hseen
    · exact hgrow x (hc.marked x (mem_stages.mpr (Or.inr hx)))
  case found =>
    intro x hx
    rw [List.mem_append, not_or]
    rcases mem_stages.mp hx with hx | hx
    · obtain ⟨hungiven, hold | hlooks⟩ := h.found x hx
      · exact ⟨hc.found x (mem_stages.mpr (Or.inl hold)), hungiven⟩
      · exact ⟨fun hlog => hfresh x hlooks (hc.logged x hlog), hungiven⟩
    · refine ⟨hc.found x (mem_stages.mpr (Or.inr hx)), fun hg => ?_⟩
      obtain ⟨t, ht, hxt⟩ := List.mem_flatMap.mp hx
      exact hdisj x (hgiven x hg) x
        (List.mem_flatMap.mpr ⟨t, ht, List.mem_append_left _ hxt⟩) rfl
  case uncreated =>
    intro x hx
    rcases mem_stages.mp hx with hx | hx
    · rcases h.uncreated x hx with hold | hnew
      · exact List.mem_append_left _ (hc.uncreated x (mem_stages.mpr (Or.inl hold)))
      · exact List.mem_append_right _ hnew
    · exact List.mem_append_left _ (hc.uncreated x (mem_stages.mpr (Or.inr hx)))
  case put =>
    intro x r hput
    rcases h.put x r hput with hold | ⟨huncreated, hfree, honly⟩
    · exact (hc.put x r hold).handover hc hfresh h
    · refine ⟨?_, ?_, honly⟩
      · exact List.mem_append_left _ (hc.uncreated x (mem_stages.mpr (Or.inl huncreated)))
      · rw [mem_stages, not_or]
        exact ⟨hfree, fun hx => hdisj x (List.mem_append_right _ huncreated) x hx rfl⟩

section Empty

variable (hheld : stage.found = [] ∧ stage.uncreated = []) (hsteps : stage.steps = none)

include hsteps in
theorem Put.of_cons {hash : Str} {r : Ref} (h : Put live (stage :: stages) hash r) :
    Put live stages hash r := by
  rcases h with h | h
  · exact Or.inl h
  · rw [List.filterMap_cons, hsteps] at h
    exact Or.inr h

include hheld hsteps

theorem Settled.cons {hash : Str} {r : Ref} (h : Settled log live stages hash r) :
    Settled log live (stage :: stages) hash r := by
  refine ⟨h.returned, ?_, fun r' hput => h.only r' (hput.of_cons hsteps)⟩
  rw [List.flatMap_cons, Stage.held, hheld.1, hheld.2]
  exact h.free

/-- A stage that comes in holds nothing. -/
theorem Custody.cons (h : Custody log seen live stages) :
    Custody log seen live (stage :: stages) := by
  constructor
  case once => exact h.once
  case logged => exact h.logged
  case put => exact fun hash r hput => (h.put hash r (hput.of_cons hsteps)).cons hheld hsteps
  case found =>
    rw [List.flatMap_cons, hheld.1]
    exact h.found
  case uncreated =>
    rw [List.flatMap_cons, hheld.2]
    exact h.uncreated
  all_goals rw [List.flatMap_cons, Stage.held, hheld.1, hheld.2]
  case held => exact h.held
  case marked => exact h.marked

end Empty

end Handover

/-! ## 2. Every stage hands over properly -/

/-- What a jump returns: a poll that is through its page. -/
def results : Stage → Stage → List ObservedPayment
  | .polling [] found, .creating _ => found
  | _, _ => []

def given (stage next : Stage) : List Str := (results stage next).map ObservedPayment.xrplTxId

section Stages

variable {log seen : List Str} {live : JsMap Str Ref} {others : List Stage} {stage next : Stage}

/-- A stage that only drops some of what it holds. -/
theorem handover_drop (hc : Custody log seen live (stage :: others))
    (hfound : next.found.Sublist stage.found) (huncreated : next.uncreated.Sublist stage.uncreated)
    (hsteps : ∀ p, next.steps = some p → p ∈ live.pairs) :
    Handover seen live others stage [] seen live next := by
  have hsub : next.held.Sublist stage.held := hfound.append huncreated
  have hheld := hc.held
  rw [List.flatMap_cons] at hheld
  refine ⟨hsub.nodup (List.nodup_append.mp hheld).1, fun x hx => Or.inl (hsub.subset hx),
    List.nil_sublist _, fun x hx => ⟨List.not_mem_nil, Or.inl (hfound.subset hx)⟩,
    fun x hx => Or.inl (huncreated.subset hx), Or.inl rfl, ?_⟩
  rintro x r (hput | hput)
  · exact Or.inl (Or.inl hput)
  · obtain ⟨t, ht, hxt⟩ := List.mem_filterMap.mp hput
    rcases List.mem_cons.mp ht with rfl | ht
    · exact Or.inl (Or.inl (hsteps _ hxt))
    · exact Or.inl (Or.inr (List.mem_filterMap.mpr ⟨t, List.mem_cons_of_mem _ ht, hxt⟩))

theorem given_eq_nil (h : ∀ payments, next ≠ .creating payments) : given stage next = [] := by
  unfold given results
  split
  · exact absurd rfl (h _)
  · rfl

/-- Nothing is put by a stage that steps no job. -/
theorem put_of_steps (hsteps : next.steps = none) {x : Str} {r : Ref}
    (h : Put live (next :: others) x r) : Put live (stage :: others) x r := by
  rcases h with h | h
  · exact Or.inl h
  · obtain ⟨t, ht, hxt⟩ := List.mem_filterMap.mp h
    rcases List.mem_cons.mp ht with rfl | ht
    · rw [hsteps] at hxt
      cases hxt
    · exact Or.inr (List.mem_filterMap.mpr ⟨t, List.mem_cons_of_mem _ ht, hxt⟩)

theorem Custody.own (hc : Custody log seen live (stage :: others)) : stage.held.Nodup := by
  have hheld := hc.held
  rw [List.flatMap_cons] at hheld
  exact (List.nodup_append.mp hheld).1

/-- A poll marks what it looks up. -/
theorem handover_mark {hash : Str} (hlooks : stage.looksUp = some hash)
    (hfound : ∀ x ∈ next.found, x ∈ stage.found ∨ x = hash) (hnodup : next.found.Nodup)
    (huncreated : next.uncreated = []) (hsteps : next.steps = none) :
    Handover seen live others stage [] (hash :: seen) live next := by
  have hheld : next.held = next.found := by rw [Stage.held, huncreated, List.append_nil]
  refine ⟨hheld ▸ hnodup, fun x hx => ?_, List.nil_sublist _, fun x hx => ⟨List.not_mem_nil, ?_⟩,
    ?_, Or.inr ⟨hash, hlooks, rfl⟩, fun x r hput => Or.inl (put_of_steps hsteps hput)⟩
  · rcases hfound x (hheld ▸ hx) with hold | rfl
    · exact Or.inl (List.mem_append_left _ hold)
    · exact Or.inr ⟨hlooks, List.mem_cons_self ..⟩
  · rcases hfound x hx with hold | rfl
    · exact Or.inl hold
    · exact Or.inr hlooks
  · rw [huncreated]
    nofun

/-- A poll returns what it has found. -/
theorem handover_return (hc : Custody log seen live (stage :: others))
    (hstage : stage.uncreated = []) (hfound : next.found = [])
    (huncreated : next.uncreated = stage.found) (hsteps : next.steps = none) :
    Handover seen live others stage stage.found seen live next := by
  have hheld : next.held = stage.held := by
    rw [Stage.held, Stage.held, hfound, huncreated, hstage, List.nil_append, List.append_nil]
  refine ⟨hheld ▸ hc.own, fun x hx => Or.inl (hheld ▸ hx), List.Sublist.refl _, ?_,
    fun x hx => Or.inr (huncreated ▸ hx), Or.inl rfl,
    fun x r hput => Or.inl (put_of_steps hsteps hput)⟩
  rw [hfound]
  nofun

/-- A job is created for a payment of which nothing has been put. -/
theorem handover_create {observed : ObservedPayment} {rest : List ObservedPayment}
    (hc : Custody log seen live (.creating (observed :: rest) :: others)) (r : Ref)
    (hnext : next = .creating rest ∨ next = .advance 0) :
    Handover seen live others (.creating (observed :: rest)) [] seen
      (live.set observed.xrplTxId r) next := by
  have hheld : next.held.Sublist (rest.map ObservedPayment.xrplTxId) := by
    rcases hnext with rfl | rfl
    · exact List.Sublist.refl _
    · exact List.nil_sublist _
  have hfound : next.found = [] := by rcases hnext with rfl | rfl <;> rfl
  have hsteps : next.steps = none := by rcases hnext with rfl | rfl <;> rfl
  obtain ⟨hnew, hrest⟩ := List.nodup_cons.mp hc.own
  have hput : ∀ x r', Put (live.set observed.xrplTxId r) (next :: others) x r' →
      x = observed.xrplTxId ∧ r' = r ∨ Put live (.creating (observed :: rest) :: others) x r' := by
    rintro x r' (hput | hput)
    · rcases JsMap.mem_pairs_set.mp hput with hset | ⟨-, hold⟩
      · exact Or.inl hset
      · exact Or.inr (Or.inl hold)
    · exact Or.inr (put_of_steps hsteps (Or.inr hput))
  refine ⟨hheld.nodup hrest, fun x hx => ?_, List.nil_sublist _, ?_, fun x hx => ?_, Or.inl rfl,
    fun x r' hx => ?_⟩
  · exact Or.inl (List.mem_cons_of_mem _ (hheld.subset hx))
  · rw [hfound]
    nofun
  · exact Or.inl (List.mem_cons_of_mem _ (hheld.subset (List.mem_append_right _ hx)))
  · rcases hput x r' hx with ⟨rfl, rfl⟩ | hold
    · refine Or.inr ⟨List.mem_cons_self .., fun hmem => hnew (hheld.subset hmem), ?_⟩
      intro r'' hx'
      rcases hput _ r'' hx' with ⟨-, rfl⟩ | hold
      · rfl
      · -- nothing has been put for a hash that is still to be created
        have hfree := (hc.put _ _ hold).free
        exact absurd (mem_stages.mpr (Or.inl (List.mem_cons_self ..))) hfree
    · exact Or.inl hold

/-- A walk puts back the job it has in hand. -/
theorem handover_step {place : Nat} {id : Str} {r : Ref} {live' : JsMap Str Ref}
    (hlive : live' = live ∨ live' = live.set id r ∨ live' = (live.set id r).delete id) :
    Handover seen live others (.stepping place id r) [] seen live' (.advance (place + 1)) := by
  have hmine : Put live (.stepping place id r :: others) id r :=
    Or.inr (List.mem_filterMap.mpr ⟨_, List.mem_cons_self .., rfl⟩)
  have hset : ∀ x r', (x, r') ∈ (live.set id r).pairs →
      Put live (.stepping place id r :: others) x r' := by
    intro x r' hmem
    rcases JsMap.mem_pairs_set.mp hmem with ⟨rfl, rfl⟩ | ⟨-, hold⟩
    · exact hmine
    · exact Or.inl hold
  refine ⟨List.nodup_nil, nofun, List.nil_sublist _, nofun, nofun, Or.inl rfl,
    fun x r' hput => Or.inl ?_⟩
  rcases hput with hput | hput
  · rcases hlive with rfl | rfl | rfl
    · exact Or.inl hput
    · exact hset x r' hput
    · exact hset x r' (JsMap.mem_pairs_delete.mp hput).2
  · exact put_of_steps rfl (Or.inr hput)

/-- **Each stage hands over what it holds**, if what its poll looks up is not marked. -/
theorem handover_of_after (hc : Custody log seen live (stage :: others)) {m m' : Memory}
    (hm : marks m = (seen, live)) (hafter : After stage m (.ok (some next)) m')
    (hfresh : ∀ x, stage.looksUp = some x → x ∉ seen) :
    Handover seen live others stage (given stage next) (marks m').1 (marks m').2 next := by
  have hseen : m.seen = seen := congrArg Prod.fst hm
  have hlive : m.live = live := congrArg Prod.snd hm
  have hdrop : marks m' = marks m → (∀ payments, next ≠ .creating payments) →
      next.found.Sublist stage.found → next.uncreated.Sublist stage.uncreated →
      (∀ p, next.steps = some p → p ∈ live.pairs) →
      Handover seen live others stage (given stage next) (marks m').1 (marks m').2 next := by
    intro h hnot hfound huncreated hsteps
    rw [h, hm, given_eq_nil hnot]
    exact handover_drop hc hfound huncreated hsteps
  cases hafter with
  | answered hs h hres => exact absurd rfl (hres next)
  | asked entries h => exact hdrop h (fun _ h => by cases h) (List.Sublist.refl _) (List.Sublist.refl _) (fun _ h => by cases h)
  | left h => exact hdrop h (fun _ h => by cases h) (List.nil_sublist _) (List.nil_sublist _) (fun _ h => by cases h)
  | returned =>
    rw [hm]
    exact handover_return hc rfl rfl rfl rfl
  | passed h => exact hdrop h (fun _ h => by cases h) (List.Sublist.refl _) (List.Sublist.refl _) (fun _ h => by cases h)
  | tookUp h => exact hdrop h (fun _ h => by cases h) (List.Sublist.refl _) (List.Sublist.refl _) (fun _ h => by cases h)
  | missed h => exact hdrop h (fun _ h => by cases h) (List.Sublist.refl _) (List.Sublist.refl _) (fun _ h => by cases h)
  | @reported _ _ entry tx commitment entries found hash hname hne h =>
    have hlooks : Stage.looksUp (.looking entry tx commitment entries found) = some hash :=
      Option.filter_eq_some_iff.mpr ⟨hname, decide_eq_true hne⟩
    rw [h, hseen, hlive]
    refine handover_mark hlooks ?_ ?_ rfl rfl
    · intro x hx
      rw [Stage.found, List.map_append, List.mem_append] at hx
      exact hx.imp_right List.mem_singleton.mp
    · rw [Stage.found, List.map_append]
      refine List.nodup_append.mpr ⟨(List.nodup_append.mp hc.own).1, List.nodup_singleton hash, ?_⟩
      rintro x hx y hy rfl
      -- what has been found is marked, and what is looked up is not
      obtain rfl : x = hash := List.mem_singleton.mp hy
      exact hfresh x hlooks (hc.marked x (mem_stages.mpr (Or.inl (List.mem_append_left _ hx))))
  | @unprintable _ _ entry tx commitment entries found hash hname hne h =>
    have hlooks : Stage.looksUp (.looking entry tx commitment entries found) = some hash :=
      Option.filter_eq_some_iff.mpr ⟨hname, decide_eq_true hne⟩
    rw [h, hseen, hlive]
    exact handover_mark hlooks (fun _ h => by cases h) List.nodup_nil rfl rfl
  | skipped h =>
    rw [h, hm]
    exact handover_drop hc (List.Sublist.refl _) (List.sublist_cons_self ..) (fun _ h => by cases h)
  | created r h hnext =>
    rw [h, hseen, hlive]
    exact handover_create hc r hnext
  | @walked _ place _ hnext =>
    rw [walk] at hnext
    split at hnext
    · cases hnext
    · cases hnext
      exact hdrop rfl (fun _ h => by cases h) (List.Sublist.refl _) (List.Sublist.refl _) (fun _ h => by cases h)
    · next id r hentry =>
      cases hnext
      refine hdrop rfl (fun _ h => by cases h) (List.Sublist.refl _) (List.Sublist.refl _) ?_
      rintro p ⟨⟩
      rw [hlive] at hentry
      exact JsMap.mem_pairs.mpr (List.mem_of_getElem? hentry)
  | stepped live' hlive' h =>
    rw [h, hseen]
    rw [hlive] at hlive'
    exact handover_step hlive'

theorem marks_of_ended {m m' : Memory} {res : Except JsError (Option Stage)}
    (h : After stage m res m') (hres : ∀ next, res ≠ .ok (some next)) : marks m' = marks m := by
  cases h with
  | answered hs h hres => exact h
  | walked => rfl
  | asked | left | returned | passed | tookUp | missed | reported | unprintable | skipped | created
    | stepped => exact absurd rfl (hres _)

end Stages

/-! ## 3. Runs -/

/-- The process with its ticks in stages, at a moment. -/
abbrev Sys (o : Options) := Async.Sys (staged o)

abbrev Event (o : Options) := Async.Event (staged o)

section Runs

variable {o : Options}

/-- Where a task is. -/
def place (t : Task (staged o)) : Stage := t.label

def places (s : Sys o) : List Stage := s.tasks.map place

/-- What the poll of a task returns in an event. -/
def returned (e : Event o) (s s' : Sys o) : List ObservedPayment :=
  match e with
  | .resume i =>
    match s.tasks[i]?, s'.tasks[i]? with
    | some t, some t' => results (place t) (place t')
    | _, _ => []
  | _ => []

/-- The runs of a process, with all that `Watcher.poll` has returned. -/
inductive Polls (ok : Event o → Sys o → Prop) (s₀ : Sys o) : List ObservedPayment → Sys o → Prop
  | start : Polls ok s₀ [] s₀
  | next {log : List ObservedPayment} {s s' : Sys o} (e : Event o) : Polls ok s₀ log s → ok e s →
      s.step e = some s' → Polls ok s₀ (log ++ returned e s s') s'

/-- The service runs: requests and ticks come in at any time. -/
def Serves (e : Event o) : Prop :=
  match e with
  | .spawn (.register _) | .spawn (.prepare _) | .spawn .start | .spawn .tick => True
  | .spawn _ | .crash => False
  | _ => True

/-- When a poll goes on with a lookup, no poll has marked its payment meanwhile. -/
def Unmarked (e : Event o) (s : Sys o) : Prop :=
  match e with
  | .resume i => ∀ t ∈ s.tasks[i]?, ∀ hash ∈ (place t).looksUp, hash ∉ s.mem.seen
  | _ => True

/-- The live map holds the job, or a walk has it in hand. -/
def Puts (s : Sys o) (hash : Str) (r : Ref) : Prop := Put s.mem.live (places s) hash r

/-- What is known of the process along a run. -/
structure Kept (log : List ObservedPayment) (s : Sys o) : Prop where
  sections : (stages o).Ok s
  custody : Custody (log.map ObservedPayment.xrplTxId) s.mem.seen s.mem.live (places s)

/-- Custody passes from one moment to the next, and a settled hash stays settled. -/
def Passes (log log' : List Str) (s s' : Sys o) : Prop :=
  Custody log' s'.mem.seen s'.mem.live (places s') ∧ ∀ hash r,
    Settled log s.mem.live (places s) hash r → Settled log' s'.mem.live (places s') hash r

theorem Passes.of_eq {log : List Str} {s s' : Sys o} (hm : marks s'.mem = marks s.mem)
    (hplaces : places s' = places s) (hc : Custody log s.mem.seen s.mem.live (places s)) :
    Passes log log s s' := by
  have hseen : s'.mem.seen = s.mem.seen := congrArg Prod.fst hm
  have hlive : s'.mem.live = s.mem.live := congrArg Prod.snd hm
  unfold Passes
  rw [hseen, hlive, hplaces]
  exact ⟨hc, fun _ _ hs => hs⟩

theorem Passes.spawned {log : List Str} {s : Sys o} {stage : Stage}
    (hheld : stage.found = [] ∧ stage.uncreated = []) (hsteps : stage.steps = none)
    (hc : Custody log s.mem.seen s.mem.live (places s)) :
    Passes log log s { s with tasks := s.tasks ++ [Task.start stage] } := by
  have hplaces : places { s with tasks := s.tasks ++ [Task.start stage] } = places s ++ [stage] :=
    List.map_append
  have hperm : (stage :: places s).Perm (places s ++ [stage]) :=
    (List.perm_append_singleton ..).symm
  unfold Passes
  rw [hplaces]
  exact ⟨(hc.cons hheld hsteps).perm hperm, fun hash r hs => (hs.cons hheld hsteps).perm hperm⟩

/-- A task jumps. -/
theorem Passes.jumped {log : List Str} {s : Sys o} {m : Memory} {i : Nat} {t : Task (staged o)}
    {next : Stage} (hi : s.tasks[i]? = some t) (hafter : After (place t) s.mem (.ok (some next)) m)
    (hfresh : ∀ x, (place t).looksUp = some x → x ∉ s.mem.seen)
    (hc : Custody log s.mem.seen s.mem.live (places s)) :
    Passes log (log ++ given (place t) next) s
      { s with mem := m, tasks := s.tasks.set i (Task.start next) } := by
  obtain ⟨hlt, rfl⟩ := List.getElem?_eq_some_iff.mp hi
  have hlt' : i < (places s).length := by rwa [places, List.length_map]
  have hplaces : places { s with mem := m, tasks := s.tasks.set i (Task.start next) } =
      (places s).set i next := List.map_set
  have hbefore : (place s.tasks[i] :: (places s).eraseIdx i).Perm (places s) := by
    have hget : (places s)[i] = place s.tasks[i] := List.getElem_map place
    rw [← hget]
    exact List.getElem_cons_eraseIdx_perm hlt'
  have hnow := (List.set_perm_cons_eraseIdx hlt' next).symm
  have hcons := hc.perm hbefore.symm
  have hover := handover_of_after hcons rfl hafter hfresh
  unfold Passes
  rw [hplaces]
  exact ⟨(hcons.handover hfresh hover).perm hnow, fun hash r hs =>
    ((hs.perm hbefore.symm).handover hcons hfresh hover).perm hnow⟩

theorem places_set {l : List (Task (staged o))} {i : Nat} {t t' : Task (staged o)}
    (hi : l[i]? = some t) (hplace : place t' = place t) : (l.set i t').map place = l.map place := by
  obtain ⟨hlt, rfl⟩ := List.getElem?_eq_some_iff.mp hi
  have hlt' : i < (l.map place).length := by rwa [List.length_map]
  have hget : (l.map place)[i] = place l[i] := List.getElem_map place
  rw [List.map_set, hplace, ← hget, List.set_getElem_self]

theorem results_self (stage : Stage) : results stage stage = [] := by
  cases stage with
  | polling entries found => cases entries <;> rfl
  | _ => rfl

/-- **One event** keeps custody, and a hash that is settled stays so, whichever task the event
lets go on. -/
theorem Kept.step {log : List ObservedPayment} {s s' : Sys o} {e : Event o} (h : Kept log s)
    (hserves : Serves e) (hunmarked : Unmarked e s) (hst : s.step e = some s') :
    Kept (log ++ returned e s s') s' ∧ Passes (log.map ObservedPayment.xrplTxId)
      ((log ++ returned e s s').map ObservedPayment.xrplTxId) s s' := by
  obtain ⟨hsections, hchanged⟩ := Sectioned.step h.sections hst
  suffices hpasses : Passes (log.map ObservedPayment.xrplTxId)
      ((log ++ returned e s s').map ObservedPayment.xrplTxId) s s' from
    ⟨⟨hsections, hpasses.1⟩, hpasses⟩
  rw [List.map_append]
  -- an event that returns nothing and leaves the books and the places alone
  have hstill : returned e s s' = [] → marks s'.mem = marks s.mem → places s' = places s →
      Passes (log.map ObservedPayment.xrplTxId) (log.map ObservedPayment.xrplTxId ++
        (returned e s s').map ObservedPayment.xrplTxId) s s' := by
    intro hreturned hm hplaces
    rw [hreturned, List.map_nil, List.append_nil]
    exact .of_eq hm hplaces h.custody
  cases hchanged with
  | spawned l =>
    rw [show returned (.spawn l) s _ = [] from rfl, List.map_nil, List.append_nil]
    cases l with
    | register | prepare | start | tick => exact .spawned ⟨rfl, rfl⟩ rfl h.custody
    | polling | looking | creating | advance | stepping => cases hserves
  | answered w hi hlabel hopen => exact hstill rfl rfl (places_set hi hlabel)
  | disturbed w => exact hstill rfl rfl rfl
  | @resumed i t t' m hi hopen hmoved =>
    obtain ⟨hlt, hget⟩ := List.getElem?_eq_some_iff.mp hi
    have hreturned : returned (.resume i) s { s with mem := m, tasks := s.tasks.set i t' } =
        results (place t) (place t') := by
      simp only [returned, hi, List.getElem?_set_self hlt]
    -- a task that does not jump stays in its stage
    have hstay : t'.label = t.label → marks m = marks s.mem →
        Passes (log.map ObservedPayment.xrplTxId) (log.map ObservedPayment.xrplTxId ++
          (returned (.resume i) s { s with mem := m, tasks := s.tasks.set i t' }).map
            ObservedPayment.xrplTxId) s { s with mem := m, tasks := s.tasks.set i t' } := by
      intro hlabel hm
      refine hstill ?_ hm (places_set hi hlabel)
      rw [hreturned, show place t' = place t from hlabel, results_self]
    cases hmoved with
    | stopped p hm => exact hstay rfl hm
    | ended _ hlabel hdone hres hafter => exact hstay hlabel (marks_of_ended hafter hres)
    | jumped next hafter =>
      rw [hreturned]
      exact .jumped hi hafter (fun x hx => hunmarked t hi x hx) h.custody
  | idle =>
    refine hstill ?_ rfl rfl
    simp only [returned]
    split
    · next t t' ht ht' =>
      obtain rfl := Option.some.inj (ht.symm.trans ht')
      exact results_self _
    · rfl
  | outside x =>
    refine hstill rfl ?_ rfl
    cases x <;> rfl
  | crashed => cases hserves

theorem Polls.kept {s₀ s : Sys o} {log : List ObservedPayment}
    (h : Polls (fun e s => Serves e ∧ Unmarked e s) s₀ log s) (h₀ : Kept [] s₀) : Kept log s := by
  induction h with
  | start => exact h₀
  | next e _ hok hst ih => exact (ih.step hok.1 hok.2 hst).1

/-- What has been settled stays settled. -/
theorem Polls.settled {s s' : Sys o} {log log' : List ObservedPayment}
    (h : Polls (fun e s => Serves e ∧ Unmarked e s) s log' s') (hkept : Kept log s) {hash : Str}
    {r : Ref} (hs : Settled (log.map ObservedPayment.xrplTxId) s.mem.live (places s) hash r) :
    Kept (log ++ log') s' ∧ Settled ((log ++ log').map ObservedPayment.xrplTxId) s'.mem.live
      (places s') hash r := by
  induction h with
  | start =>
    rw [List.append_nil]
    exact ⟨hkept, hs⟩
  | next e _ hok hst ih =>
    obtain ⟨hkept', hpasses⟩ := ih.1.step hok.1 hok.2 hst
    rw [← List.append_assoc]
    exact ⟨hkept', hpasses.2 hash r ih.2⟩

theorem Kept.init (now : Int) (w : Outside) : Kept [] (⟨Memory.boot now, w, []⟩ : Sys o) where
  sections := by
    intro i t hi
    cases hi
  custody := by
    constructor
    case once => exact List.nodup_nil
    case held => exact List.nodup_nil
    case put =>
      rintro hash r (hput | hput)
      · cases hput
      · cases hput
    all_goals
      intro hash hmem
      cases hmem

end Runs

end OnePayment

open OnePayment

/-- **One payment, one job.**  Ticks may overlap in any way: as long as no poll goes on with a
lookup of a payment that has been marked meanwhile, every hash is returned at most once by all
polls, and only one job is ever put in the live map for it. -/
theorem one_payment_one_job {o : Options} {now : Int} {w : Outside} {log : List ObservedPayment}
    {s : OnePayment.Sys o} (hrun : Polls (fun e s => Serves e ∧ Unmarked e s)
      ⟨Memory.boot now, w, []⟩ log s) :
    (log.map ObservedPayment.xrplTxId).Nodup ∧ ∀ log' s',
      Polls (fun e s => Serves e ∧ Unmarked e s) s log' s' →
        ∀ hash r r', Puts s hash r → Puts s' hash r' → r' = r := by
  have hkept := hrun.kept (Kept.init now w)
  refine ⟨hkept.custody.once, fun log' s' hrun' hash r r' hput hput' => ?_⟩
  exact (hrun'.settled hkept (hkept.custody.put hash r hput)).2.only r' hput'

/-! ## 4. Two polls that look up one payment -/

namespace OnePayment

instance {o : Options} (e : Event o) : Decidable (Serves e) :=
  match e with
  | .spawn (.register _) | .spawn (.prepare _) | .spawn .start | .spawn .tick => .isTrue trivial
  | .spawn (.polling _ _) | .spawn (.looking _ _ _ _ _) | .spawn (.creating _)
  | .spawn (.advance _) | .spawn (.stepping _ _ _) | .crash => .isFalse fun h => h
  | .perform _ _ | .disturb _ | .resume _ | .outside _ => .isTrue trivial

instance {o : Options} (e : Event o) (s : Sys o) : Decidable (Unmarked e s) :=
  match e with
  | .resume i => inferInstanceAs (Decidable (∀ t ∈ s.tasks[i]?, ∀ hash ∈ (place t).looksUp,
      hash ∉ s.mem.seen))
  | .spawn _ | .perform _ _ | .disturb _ | .outside _ | .crash => .isTrue trivial

/-- A run computed from its events, with all that its polls return. -/
def runPolls {o : Options} (ok : Event o → Sys o → Prop) [∀ e s, Decidable (ok e s)] :
    List (Event o) → List ObservedPayment → Sys o → Option (List ObservedPayment × Sys o)
  | [], log, s => some (log, s)
  | e :: es, log, s =>
    if ok e s then (s.step e).bind fun s' => runPolls ok es (log ++ returned e s s') s' else none

theorem Polls.of_runPolls {o : Options} {ok : Event o → Sys o → Prop} [∀ e s, Decidable (ok e s)]
    {s₀ : Sys o} {log' : List ObservedPayment} {s' : Sys o} (es : List (Event o))
    {log : List ObservedPayment} {s : Sys o} (h : Polls ok s₀ log s)
    (hrun : runPolls ok es log s = some (log', s')) : Polls ok s₀ log' s' := by
  induction es generalizing log s with
  | nil =>
    obtain ⟨rfl, rfl⟩ := Prod.mk.inj (Option.some.inj hrun)
    exact h
  | cons e es ih =>
    rw [runPolls] at hrun
    split at hrun
    case isTrue hok =>
      obtain ⟨s₁, hst, hrest⟩ := Option.bind_eq_some_iff.mp hrun
      exact ih (.next e h hok hst) hrest
    case isFalse => cases hrun

end OnePayment

namespace Sample

/-- The registered operation, read from the disk of an earlier process. -/
def registeredBefore : Outside :=
  effect .full (.fresh []) (.writePending (PendingStore.fileName commitment)
    { commitment := commitment
      userOpData := userOpData
      personalAccount := .str "0xcdcdcdcdcdcdcdcdcdcdcdcdcdcdcdcdcdcdcdcd".toList
      nonce := .str "7".toList
      totalCallValue := .str "5".toList
      label := .str "pay".toList
      registeredAt := 0 })

/-- Two ticks start; both get the page with the payment. -/
def bothTakeUp : List (OnePayment.Event (options tables)) :=
  [.spawn .tick, .resume 0, .spawn .tick, .resume 1] ++
    [.perform 0 (.transactions (.result (some [payment txId 10 commitment]))),
      .resume 0, .resume 0, .resume 0] ++
    [.perform 1 (.transactions (.result (some [payment txId 10 commitment]))), .resume 1]

/-- The store answers a poll, which returns the payment. -/
def lookedUp (i : Nat) : List (OnePayment.Event (options tables)) :=
  [.perform i .done, .resume i, .resume i]

/-- The files of the new job. -/
def jobCreated (i : Nat) : List (OnePayment.Event (options tables)) :=
  creating.flatMap fun c => [.perform i c, .resume i]

/-- The job is loaded from the file that is there by now. -/
def jobLoaded (i : Nat) : List (OnePayment.Event (options tables)) := [.perform i .done, .resume i]

/-- The first poll has returned the payment before the second one takes it up. -/
def oneAfterTheOther : List (OnePayment.Event (options tables)) :=
  bothTakeUp ++ lookedUp 0 ++ [.resume 0] ++ jobCreated 0 ++ [.resume 1, .resume 1, .resume 1]

/-- The second poll takes the payment up while the first one looks it up. -/
def bothLookUp : List (OnePayment.Event (options tables)) :=
  bothTakeUp ++ [.resume 1, .resume 1] ++ lookedUp 0 ++ [.resume 0] ++ lookedUp 1 ++ [.resume 1] ++
    jobCreated 0

end Sample

/-- Two ticks overlap, and their payment gets one job. -/
theorem one_payment_one_job_overlapping :
    ∃ (log : List ObservedPayment) (s : OnePayment.Sys (Sample.options Sample.tables)),
      log.map ObservedPayment.xrplTxId = [Sample.txId] ∧ Puts s Sample.txId 0 ∧
      ∀ log' s', Polls (fun e s => Serves e ∧ Unmarked e s) s log' s' →
        ∀ r, Puts s' Sample.txId r → r = 0 := by
  have hrun : (runPolls (fun e s => Serves e ∧ Unmarked e s) Sample.oneAfterTheOther []
      ⟨Memory.boot 0, Sample.registeredBefore, []⟩).map (fun p =>
        (p.1.map ObservedPayment.xrplTxId, p.2.mem.live.pairs)) =
      some ([Sample.txId], [(Sample.txId, 0)]) := by
    decide +kernel
  obtain ⟨⟨log, s⟩, hs, hend⟩ := Option.map_eq_some_iff.mp hrun
  obtain ⟨hlog, hlive⟩ := Prod.mk.inj hend
  have hputs : Puts s Sample.txId 0 := Or.inl (hlive ▸ List.mem_singleton_self _)
  refine ⟨log, s, hlog, hputs, fun log' s' hrun' r hput => ?_⟩
  exact (one_payment_one_job (.of_runPolls _ .start hs)).2 log' s' hrun' _ _ _ hputs hput

/-- **Two jobs for one payment**: two polls look it up at a time, both return it, and the second
tick puts another job in the place of the first one's. -/
theorem overlapping_polls_repeat_payment :
    ∃ (log : List ObservedPayment) (s s' : OnePayment.Sys (Sample.options Sample.tables)),
      Polls (fun e _ => Serves e) ⟨Memory.boot 0, Sample.registeredBefore, []⟩ log s ∧
      log.map ObservedPayment.xrplTxId = [Sample.txId, Sample.txId] ∧
      Puts s Sample.txId 0 ∧ Polls (fun e _ => Serves e) s [] s' ∧ Puts s' Sample.txId 1 := by
  have hrun : ((runPolls (fun e _ => Serves e) Sample.bothLookUp []
      ⟨Memory.boot 0, Sample.registeredBefore, []⟩).bind fun p =>
        (runPolls (fun e _ => Serves e) (Sample.jobLoaded 1) [] p.2).map fun p' =>
          decide (p.1.map ObservedPayment.xrplTxId = [Sample.txId, Sample.txId] ∧
            p'.1.map ObservedPayment.xrplTxId = [] ∧ p.2.mem.live.pairs = [(Sample.txId, 0)] ∧
            p'.2.mem.live.pairs = [(Sample.txId, 1)])) = some true := by
    decide +kernel
  obtain ⟨⟨log, s⟩, hs, hrest⟩ := Option.bind_eq_some_iff.mp hrun
  obtain ⟨⟨log', s'⟩, hs', hend⟩ := Option.map_eq_some_iff.mp hrest
  obtain ⟨hlog, hlog', hlive, hlive'⟩ := of_decide_eq_true hend
  obtain rfl := List.map_eq_nil_iff.mp hlog'
  exact ⟨log, s, s', .of_runPolls _ .start hs, hlog, Or.inl (hlive ▸ List.mem_singleton_self _),
    .of_runPolls _ .start hs', Or.inl (hlive' ▸ List.mem_singleton_self _)⟩

end OneSig.Executor
