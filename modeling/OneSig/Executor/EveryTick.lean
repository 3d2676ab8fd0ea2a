/-
# Every live job has its turn

"A slow round on one must not block the rest": a tick creates jobs for the payments it finds and
then walks the live map, stepping one job after the other.  A step catches what its services
throw, the walk catches what the step throws, and a job is dropped from the map only when it is
executed or failed.  So as long as it is live a job is stepped once in every tick (`served`), from
where the step before has left it, and with `job_ends` it leaves the map after a bounded number of
ticks, waits and lags apart.

The walk is over a map that changes under it: a job that ends is deleted while the iterator stands
on it, and an iterator of a JavaScript `Map` goes on with the entries that are left (`walk`).
That nobody is skipped or visited twice needs that the jobs in the map are objects of their own,
which is what `Housed` says.  It is not assumed: a service that has just been started has no live
job (`Started.housed`), and ticks keep it (`Ticks.housed`).

Ticks come one after the other here.  Between two of them the requests are served: they leave the
live map and the jobs in it alone, and `load` adds objects (`Grows`).

* `advanced`, `Sweep.swept`: one job's turn and the whole walk, by induction over the places of
  the map.
* `runs_createJobs`: the first half of a tick only adds.
* `ticked`, `Ticks.attended`: one tick and a run of ticks, as a job sees them that was live
  before.
* `served`: the three together, with the bound of `Retry`.
-/
import OneSig.Executor.Stages
import OneSig.Executor.Lifespan

namespace OneSig.Executor

open OneSig Async ExecutorPipeline ExecutorService Solo

namespace Walk

/-! ## 1. The walk -/

/-- A job's turn in a tick. -/
structure Visit where
  id : Str
  ref : Ref
  turn : Retry.Turn

/-- The walk over the live map from a place on, when nothing else runs. -/
inductive Sweep (o : Options) : Nat → St → List Visit → St → Prop
  | done {place : Nat} {s : St} : walk place s.mem.live = none → Sweep o place s [] s
  | skip {place next : Nat} {s s' : St} {visits : List Visit} :
      walk place s.mem.live = some (.advance next) → Sweep o next s visits s' →
      Sweep o place s visits s'
  | visit {place : Nat} {v : Visit} {s s' : St} {visits : List Visit}
      {answers : List (Choice × Int)} {out : Async.Outcome sig world Int Unit} :
      walk place s.mem.live = some (.stepping place v.id v.ref) →
      exec (W := world) clockTo (advanceOne o v.id v.ref) answers s = some out →
      s.mem.heap[v.ref]? = some v.turn.before →
      Retry.ending o v.ref answers s = some v.turn.ending →
      out.st.mem.heap[v.ref]? = some v.turn.after →
      Sweep o (place + 1) out.st visits s' → Sweep o place s (v :: visits) s'

/-- Every live job is an object of its own. -/
structure Housed (s : St) : Prop where
  held : ∀ p ∈ s.mem.live.pairs, p.2 < s.mem.heap.length
  apart : (s.mem.live.pairs.map Prod.snd).Nodup

/-! ## 2. One job's turn -/

/-- What the walk does with one job. -/
structure Advanced (o : Options) (id : Str) (r : Ref) (t : Retry.Turn) (s s' : St) : Prop where
  taken : Retry.Taken o t
  heap : s'.mem.heap = s.mem.heap.set r t.after
  live : s'.mem.live = s.mem.live ∨
    s'.mem.live = s.mem.live.delete id ∧ t.after.state.terminal = true

theorem clockTo_marks (now : Int) (m : Memory) : marks (clockTo now m) = marks m := rfl

theorem isTerminal_eq (st : JobState) : isTerminal st = st.terminal := by
  cases st <;> rfl

/-- What follows a step that does not throw. -/
theorem runs_relive {id : Str} {r : Ref} {s : St} {job : Job} (hj : s.mem.heap[r]? = some job) :
    Runs (fun _ _ => True) (do
      Prog.modify (S := sig) (setLive id r)
      let next ← deref r
      if isTerminal next.state = true then
        Prog.modify (S := sig) (deleteLive id)
      else return ()) (fun _ res s' => res = .ok () ∧ s'.mem =
        if job.state.terminal = true then deleteLive id (setLive id r s.mem)
        else setLive id r s.mem) s := by
  refine alone_then (alone_modify ⟨rfl, _, rfl, ?_⟩)
  refine alone_then (runs_deref hj ⟨rfl, _, rfl, ?_⟩)
  rw [isTerminal_eq]
  split
  · exact alone_modify ⟨rfl, rfl⟩
  · exact alone_pure ⟨rfl, rfl⟩

section Advance

variable {o : Options} {id : Str} {r : Ref} {s : St} {t : Retry.Turn}
  {answers : List (Choice × Int)} {out : Async.Outcome sig world Int Unit}

theorem advanced (hlive : (id, r) ∈ s.mem.live.pairs)
    (hexec : exec (W := world) clockTo (advanceOne o id r) answers s = some out)
    (hbefore : s.mem.heap[r]? = some t.before)
    (hending : Retry.ending o r answers s = some t.ending)
    (hafter : out.st.mem.heap[r]? = some t.after) : Advanced o id r t s out.st := by
  unfold advanceOne at hexec
  rw [exec_tryCatch, exec_bind] at hexec
  obtain ⟨tried, htried, hcatch⟩ := Option.bind_eq_some_iff.mp hexec
  obtain ⟨stepped, hstepped, hthen⟩ := Option.bind_eq_some_iff.mp htried
  obtain ⟨-, -, e, job', hheap, -⟩ := runs_step .any o hbefore _ _ hstepped fun _ _ => trivial
  have hjob' : stepped.st.mem.heap[r]? = some job' := by
    rw [hheap, List.getElem?_set_self (List.getElem?_eq_some_iff.mp hbefore).1]
  have hstill : marks stepped.st.mem = marks s.mem :=
    exec_spares clockTo_marks (still_step o r) hstepped
  have hlive' : stepped.st.mem.live = s.mem.live := congrArg Prod.snd hstill
  have htaken : out.st.mem.heap = stepped.st.mem.heap → Retry.Taken o t := fun hsame =>
    ⟨r, s, answers, stepped, hbefore, hstepped, hending, hsame ▸ hafter⟩
  have hset : out.st.mem.heap = stepped.st.mem.heap → out.st.mem.heap = s.mem.heap.set r t.after := by
    intro hsame
    rw [hsame, hjob'] at hafter
    rw [hsame, hheap, Option.some.inj hafter]
  obtain ⟨res, st, calls, rest⟩ := stepped
  cases res with
  | error e =>
    cases hthen
    cases hcatch
    exact ⟨htaken rfl, hset rfl, Or.inl hlive'⟩
  | ok u =>
    -- the job is put where it already is
    have hsame : (setLive id r st.mem).live = s.mem.live := by
      rw [setLive, hlive', JsMap.set_same hlive]
    obtain ⟨last, hlast, rfl⟩ := Option.map_eq_some_iff.mp hthen
    obtain ⟨hok, hmem⟩ := runs_relive hjob' _ _ hlast fun _ _ => trivial
    obtain ⟨res, st', calls', rest'⟩ := last
    cases hok
    cases hcatch
    have hheap' : st'.mem.heap = st.mem.heap := by
      rw [hmem]
      split <;> rfl
    refine ⟨htaken hheap', hset hheap', ?_⟩
    have hjob'' : job' = t.after := by
      have hget : st'.mem.heap[r]? = some t.after := hafter
      rw [hheap', hjob'] at hget
      exact Option.some.inj hget
    rw [hjob''] at hmem
    split at hmem
    case isTrue hterminal =>
      refine Or.inr ⟨?_, hterminal⟩
      rw [show (Outcome.after calls ⟨.ok (), st', calls', rest'⟩).st.mem = st'.mem from rfl, hmem,
        deleteLive, hsame]
    case isFalse =>
      refine Or.inl ?_
      rw [show (Outcome.after calls ⟨.ok (), st', calls', rest'⟩).st.mem = st'.mem from rfl, hmem,
        hsame]

end Advance

/-! ## 3. The whole walk -/

def Visit.pair (v : Visit) : Str × Ref := (v.id, v.ref)

/-- What a walk from a place on has done. -/
structure Swept (o : Options) (place : Nat) (s : St) (visits : List Visit) (s' : St) : Prop where
  /-- Every job from there on once, in the order of the map. -/
  visited : visits.map Visit.pair = (s.mem.live.entries.drop place).filterMap id
  taken : ∀ v ∈ visits, Retry.Taken o v.turn ∧ s.mem.heap[v.ref]? = some v.turn.before ∧
    s'.mem.heap[v.ref]? = some v.turn.after
  others : ∀ r, r ∉ visits.map Visit.ref → s'.mem.heap[r]? = s.mem.heap[r]?
  length : s'.mem.heap.length = s.mem.heap.length
  kept : s'.mem.live.pairs.Sublist s.mem.live.pairs
  dropped : ∀ p ∈ s.mem.live.pairs, p ∉ s'.mem.live.pairs →
    ∃ v ∈ visits, v.pair = p ∧ v.turn.after.state.terminal = true

theorem walk_done {place : Nat} {live : JsMap Str Ref} (h : walk place live = none) :
    live.entries.drop place = [] := by
  unfold walk at h
  split at h
  case h_1 hnone => exact List.drop_eq_nil_of_le (List.getElem?_eq_none_iff.mp hnone)
  case h_2 => cases h
  case h_3 => cases h

theorem walk_skip {place next : Nat} {live : JsMap Str Ref}
    (h : walk place live = some (.advance next)) : next = place + 1 ∧
      live.entries.drop place = none :: live.entries.drop (place + 1) := by
  unfold walk at h
  split at h
  case h_1 => cases h
  case h_2 hnone =>
    cases h
    obtain ⟨hlt, hget⟩ := List.getElem?_eq_some_iff.mp hnone
    exact ⟨rfl, hget ▸ List.drop_eq_getElem_cons hlt⟩
  case h_3 => cases h

theorem walk_visit {place place' : Nat} {id : Str} {r : Ref} {live : JsMap Str Ref}
    (h : walk place live = some (.stepping place' id r)) :
    live.entries[place]? = some (some (id, r)) ∧
      live.entries.drop place = some (id, r) :: live.entries.drop (place + 1) := by
  unfold walk at h
  split at h
  case h_1 => cases h
  case h_2 => cases h
  case h_3 hsome =>
    cases h
    obtain ⟨hlt, hget⟩ := List.getElem?_eq_some_iff.mp hsome
    exact ⟨hsome, hget ▸ List.drop_eq_getElem_cons hlt⟩

/-- Deleting a key leaves the others in their order. -/
theorem delete_sublist (live : JsMap Str Ref) (id : Str) :
    (live.delete id).pairs.Sublist live.pairs := by
  have h := JsMap.filterMap_deletePlace id live.entries
  rw [JsMap.pairs, JsMap.delete, h]
  exact List.filter_sublist

theorem Housed.mono {s s' : St} (h : Housed s) (hheap : s'.mem.heap.length = s.mem.heap.length)
    (hlive : s'.mem.live.pairs.Sublist s.mem.live.pairs) : Housed s' where
  held p hp := hheap ▸ h.held p (hlive.subset hp)
  apart := h.apart.sublist (hlive.map Prod.snd)

namespace Advanced

variable {o : Options} {id : Str} {r : Ref} {t : Retry.Turn} {s s' : St} {place : Nat}

theorem kept (h : Advanced o id r t s s') : s'.mem.live.pairs.Sublist s.mem.live.pairs := by
  rcases h.live with hsame | ⟨hdelete, -⟩
  · rw [hsame]
  · rw [hdelete]
    exact delete_sublist _ _

/-- The walk goes on over the places it would have gone on over. -/
theorem behind (h : Advanced o id r t s s')
    (hplace : s.mem.live.entries[place]? = some (some (id, r))) :
    s'.mem.live.entries.drop (place + 1) = s.mem.live.entries.drop (place + 1) := by
  rcases h.live with hsame | ⟨hdelete, -⟩
  · rw [hsame]
  · rw [hdelete]
    exact JsMap.delete_drop hplace

theorem dropped (h : Advanced o id r t s s') (hlive : (id, r) ∈ s.mem.live.pairs)
    {p : Str × Ref} (hp : p ∈ s.mem.live.pairs) (hgone : p ∉ s'.mem.live.pairs) :
    p = (id, r) ∧ t.after.state.terminal = true := by
  rcases h.live with hsame | ⟨hdelete, hterminal⟩
  · exact absurd (hsame ▸ hp) hgone
  · refine ⟨?_, hterminal⟩
    obtain ⟨id', r'⟩ := p
    by_cases hid : id' = id
    · subst hid
      rw [JsMap.value_unique hp hlive]
    · rw [hdelete] at hgone
      exact absurd (JsMap.mem_pairs_delete.mpr ⟨hid, hp⟩) hgone

end Advanced

/-- **The walk gives every live job its turn**, exactly one, in the order of the map and whatever
comes of the others; who is gone afterwards has ended. -/
theorem Sweep.swept {o : Options} {place : Nat} {s s' : St} {visits : List Visit}
    (h : Sweep o place s visits s') (hh : Housed s) : Swept o place s visits s' := by
  induction h with
  | done hwalk =>
    refine ⟨?_, fun v hv => absurd hv List.not_mem_nil, fun _ _ => rfl, rfl,
      List.Sublist.refl _, fun p hp hgone => absurd hp hgone⟩
    rw [walk_done hwalk]
    rfl
  | skip hwalk _ ih =>
    obtain ⟨rfl, hdrop⟩ := walk_skip hwalk
    have hrest := ih hh
    refine ⟨?_, hrest.taken, hrest.others, hrest.length, hrest.kept, hrest.dropped⟩
    rw [hdrop, List.filterMap_cons]
    exact hrest.visited
  | @visit place v s s' visits answers out hwalk hexec hbefore hending hafter _ ih =>
    obtain ⟨hplace, hdrop⟩ := walk_visit hwalk
    have hlive : (v.id, v.ref) ∈ s.mem.live.pairs := JsMap.mem_pairs.mpr (List.mem_of_getElem? hplace)
    have hadv := advanced hlive hexec hbefore hending hafter
    have hlength : out.st.mem.heap.length = s.mem.heap.length := by
      rw [hadv.heap, List.length_set]
    have hrest := ih (hh.mono hlength hadv.kept)
    have hvisited : (v :: visits).map Visit.pair = (s.mem.live.entries.drop place).filterMap id := by
      rw [hdrop, List.filterMap_cons, List.map_cons, hrest.visited, hadv.behind hplace]
      rfl
    -- a job behind this one is another object
    have hother : v.ref ∉ visits.map Visit.ref := by
      have hapart : (((v :: visits).map Visit.pair).map Prod.snd).Nodup := by
        rw [hvisited]
        refine hh.apart.sublist (List.Sublist.map _ ?_)
        exact (List.drop_sublist _ _).filterMap _
      rw [List.map_map] at hapart
      exact (List.nodup_cons.mp hapart).1
    refine ⟨hvisited, fun v' hv' => ?_, fun r hr => ?_, hrest.length.trans hlength,
      hrest.kept.trans hadv.kept, fun p hp hgone => ?_⟩
    · rcases List.mem_cons.mp hv' with rfl | hv'
      · exact ⟨hadv.taken, hbefore, (hrest.others _ hother).trans hafter⟩
      · obtain ⟨htaken, hbefore', hafter'⟩ := hrest.taken v' hv'
        have hne : v.ref ≠ v'.ref := fun heq => hother (heq ▸ List.mem_map_of_mem hv')
        rw [hadv.heap, List.getElem?_set_ne hne] at hbefore'
        exact ⟨htaken, hbefore', hafter'⟩
    · rw [List.map_cons, List.mem_cons, not_or] at hr
      rw [hrest.others r hr.2, hadv.heap, List.getElem?_set_ne (Ne.symm hr.1)]
    · by_cases hmid : p ∈ out.st.mem.live.pairs
      · obtain ⟨v', hv', hpair, hterminal⟩ := hrest.dropped p hmid hgone
        exact ⟨v', List.mem_cons_of_mem _ hv', hpair, hterminal⟩
      · obtain ⟨rfl, hterminal⟩ := hadv.dropped hlive hp hmid
        exact ⟨v, List.mem_cons_self, rfl, hterminal⟩

/-! ## 4. The first half of a tick -/

/-- Objects and live jobs have been added, and none is gone. -/
structure Grows (s s' : St) : Prop where
  heap : s.mem.heap <+: s'.mem.heap
  kept : ∀ p ∈ s.mem.live.pairs, p ∈ s'.mem.live.pairs
  fresh : ∀ p ∈ s'.mem.live.pairs, p ∈ s.mem.live.pairs ∨ s.mem.heap.length ≤ p.2
  housed : Housed s → Housed s'

namespace Grows

variable {s s' s'' : St}

theorem refl (s : St) : Grows s s :=
  ⟨List.prefix_refl _, fun _ hp => hp, fun _ hp => Or.inl hp, fun h => h⟩

theorem trans (h : Grows s s') (h' : Grows s' s'') : Grows s s'' where
  heap := h.heap.trans h'.heap
  kept p hp := h'.kept p (h.kept p hp)
  fresh p hp := by
    rcases h'.fresh p hp with hold | hnew
    · exact h.fresh p hold
    · exact Or.inr (h.heap.length_le.trans hnew)
  housed hh := h'.housed (h.housed hh)

/-- Objects have been added, the live map is the same. -/
theorem of_heap (hheap : s.mem.heap <+: s'.mem.heap) (hlive : s'.mem.live = s.mem.live) :
    Grows s s' where
  heap := hheap
  kept _ hp := hlive ▸ hp
  fresh _ hp := Or.inl (hlive ▸ hp)
  housed hh := ⟨fun p hp => (hh.held p (hlive ▸ hp)).trans_le hheap.length_le, hlive ▸ hh.apart⟩

/-- A live job whose object is new. -/
theorem of_set {id : Str} (hheap : s.mem.heap <+: s'.mem.heap)
    (hlt : s.mem.heap.length < s'.mem.heap.length) (hnew : s.mem.live.has id = false)
    (hlive : s'.mem.live = s.mem.live.set id s.mem.heap.length) : Grows s s' := by
  have hpairs : s'.mem.live.pairs = s.mem.live.pairs ++ [(id, s.mem.heap.length)] := by
    rw [hlive, JsMap.pairs_set_new hnew]
  refine ⟨hheap, fun p hp => ?_, fun p hp => ?_, fun hh => ⟨fun p hp => ?_, ?_⟩⟩
  · rw [hpairs]
    exact List.mem_append_left _ hp
  · rw [hpairs, List.mem_append, List.mem_singleton] at hp
    rcases hp with hp | rfl
    · exact Or.inl hp
    · exact Or.inr (Nat.le_refl _)
  · rw [hpairs, List.mem_append, List.mem_singleton] at hp
    rcases hp with hp | rfl
    · exact (hh.held p hp).trans hlt
    · exact hlt
  · rw [hpairs, List.map_append, List.nodup_append]
    refine ⟨hh.apart, List.nodup_singleton _, ?_⟩
    rintro r hr r' hr' rfl
    obtain ⟨p, hp, rfl⟩ := List.mem_map.mp hr
    have hlt' := hh.held p hp
    exact absurd (List.mem_singleton.mp hr') (Nat.ne_of_lt hlt')

end Grows

/-- The objects and the live map. -/
def places (m : Memory) : List Job × JsMap Str Ref := (m.heap, m.live)

theorem clockTo_places (now : Int) (m : Memory) : places (clockTo now m) = places m := rfl

/-- Programs that leave both alone. -/
abbrev Apart {α : Type} (p : Prog α) : Prop := Spares (S := sig) places p

theorem Grows.of_places {s s' : St} (h : places s'.mem = places s.mem) : Grows s s' := by
  obtain ⟨hheap, hlive⟩ := Prod.mk.inj h
  exact .of_heap ⟨[], by rw [List.append_nil, hheap]⟩ hlive

theorem apart_get (commitment : Hex) : Apart (PendingStore.get commitment) := by
  unfold PendingStore.get PendingStore.readRecord
  refine spares_bind (spares_gets _) fun cached => ?_
  cases cached with
  | some record => exact spares_pure _
  | none =>
    refine spares_tryCatch ?_ fun _ => spares_pure _
    refine spares_bind (spares_call _) fun raw => ?_
    refine spares_bind (spares_lift _) fun record => ?_
    exact spares_bind (spares_modify fun _ => rfl) fun _ => spares_pure _

theorem apart_pollEntry (entry : AccountTxEntry) : Apart (Watcher.pollEntry entry) := by
  rw [Watcher.pollEntry_eq]
  refine spares_bind ?_ fun taken => ?_
  · unfold Watcher.takeUp
    cases entry.payment with
    | none => exact spares_pure _
    | some tx =>
      refine spares_bind (spares_modify fun _ => rfl) fun _ => ?_
      refine spares_bind (spares_gets _) fun seen => ?_
      split
      · exact spares_pure _
      · exact spares_pure _
  · cases taken with
    | none => exact spares_pure _
    | some taken =>
      unfold Watcher.lookUp
      refine spares_bind (apart_get _) fun pending => ?_
      cases pending with
      | none => exact spares_pure _
      | some pending =>
        dsimp only
        split
        · refine spares_bind (spares_modify fun _ => rfl) fun _ => ?_
          exact spares_bind (spares_lift _) fun _ => spares_pure _
        · exact spares_pure _

theorem apart_pollLoop (entries : List AccountTxEntry) : Apart (Watcher.pollLoop entries) := by
  induction entries with
  | nil => exact spares_pure _
  | cons entry entries ih =>
    refine spares_bind (apart_pollEntry entry) fun payment => ?_
    exact spares_bind ih fun found => spares_pure _

theorem apart_poll (o : Options) : Apart (Watcher.poll o) := by
  unfold Watcher.poll XrplHttpClient.accountTx
  refine spares_bind (spares_gets _) fun lastLedger => ?_
  refine spares_bind (spares_bind (spares_call _) fun reply => spares_lift _) fun transactions => ?_
  exact apart_pollLoop _

/-- `create` makes one object, unless it throws. -/
theorem runs_create_object (o : Options) (params : CreateParams) (s : St) :
    Runs (fun _ _ => True) (create params) (fun _ res s' => s.mem.heap <+: s'.mem.heap ∧
      ∀ r, res = .ok r → r = s.mem.heap.length ∧ r < s'.mem.heap.length) s := by
  unfold create
  refine alone_lift_seq (fun id _ => ?_) fun e _ => ⟨List.prefix_rfl, nofun⟩
  refine alone_seq (runs_load .any o _) ?_ ?_
  case refine_2 =>
    rintro calls e s₁ ⟨-, -, -, found, hfound, -⟩
    cases hfound
  rintro calls found s₁ ⟨-, -, -, found', hres, hfound⟩
  cases hres
  generalize hheap : s₁.mem.heap = heap at hfound
  cases hfound with
  | job hfile =>
    refine alone_pure ⟨?_, ?_⟩
    · rw [hheap]
      exact List.prefix_append _ _
    · rintro r hr
      cases hr
      rw [hheap, List.length_append]
      exact ⟨rfl, Nat.lt_add_of_pos_right Nat.one_pos⟩
  | nothing =>
    refine alone_then (alone_gets ⟨rfl, _, rfl, ?_⟩)
    refine alone_then (runs_newJob .any fun s₂ hheap₂ _ _ => ⟨rfl, _, rfl, ?_⟩)
    have hr : s₂.mem.heap[s₁.mem.heap.length]? = some (params.job id s₁.mem.now) := by
      rw [hheap₂, List.getElem?_concat_length]
    -- the save only writes to the new object
    have hsaved : ∀ time, s₂.mem.heap.set s₁.mem.heap.length
        { params.job id s₁.mem.now with updatedAt := time } =
          s.mem.heap ++ [{ params.job id s₁.mem.now with updatedAt := time }] := by
      intro time
      rw [hheap₂, hheap, List.set_append_right _ _ (Nat.le_refl _), Nat.sub_self]
      rfl
    refine alone_seq (runs_save .any o hr) ?_ ?_
    · rintro calls' u s₃ ⟨-, -, time, -, hheap₃, -⟩
      rw [hsaved] at hheap₃
      refine alone_pure ⟨?_, ?_⟩
      · rw [hheap₃]
        exact List.prefix_append _ _
      · rintro r hr'
        cases hr'
        rw [hheap₃, hheap, List.length_append]
        exact ⟨rfl, Nat.lt_add_of_pos_right Nat.one_pos⟩
    · rintro calls' e s₃ ⟨-, -, time, -, hheap₃, -⟩
      rw [hsaved] at hheap₃
      refine ⟨?_, nofun⟩
      rw [hheap₃]
      exact List.prefix_append _ _

theorem runs_apart {α : Type} {p : Prog α} (h : Apart p) (s : St) :
    Runs (fun _ _ => True) p (fun _ _ s' => places s'.mem = places s.mem) s := by
  intro answers out hexec _
  exact exec_spares clockTo_places h hexec

theorem runs_created (o : Options) (params : CreateParams) (s : St) :
    Runs (fun _ _ => True) (create params) (fun _ res s' => s.mem.heap <+: s'.mem.heap ∧
      s'.mem.live = s.mem.live ∧
      ∀ r, res = .ok r → r = s.mem.heap.length ∧ r < s'.mem.heap.length) s := by
  intro answers out hexec hadm
  obtain ⟨hheap, hobject⟩ := runs_create_object o params s _ _ hexec hadm
  have hstill : marks out.st.mem = marks s.mem :=
    exec_spares clockTo_marks (still_create params) hexec
  exact ⟨hheap, congrArg Prod.snd hstill, hobject⟩

theorem runs_createOne (o : Options) (observed : ObservedPayment) (s : St) :
    Runs (fun _ _ => True) (createOne observed) (fun _ _ s' => Grows s s') s := by
  unfold createOne
  refine alone_then (alone_gets ⟨rfl, _, rfl, ?_⟩)
  split
  case isTrue => exact alone_pure (.refl s)
  case isFalse hnew =>
    rw [Bool.not_eq_true] at hnew
    refine alone_seq (runs_apart (apart_get _) s) ?_ fun _ _ _ h => .of_places h
    intro calls pending s₁ hplaces
    have hgrows := Grows.of_places hplaces
    obtain ⟨hheap, hlive⟩ := Prod.mk.inj hplaces
    cases pending with
    | none => exact alone_pure hgrows
    | some pending =>
      refine alone_lift_seq (fun totalCallValue _ => ?_) fun _ _ => hgrows
      refine alone_lift_seq (fun nonce _ => ?_) fun _ _ => hgrows
      refine alone_seq (runs_created o _ s₁) ?_ fun _ _ _ h => hgrows.trans (.of_heap h.1 h.2.1)
      rintro calls' r s₂ ⟨hheap₂, hlive₂, hobject⟩
      obtain ⟨rfl, hlt⟩ := hobject r rfl
      refine alone_then (alone_modify ⟨rfl, _, rfl, ?_⟩)
      -- the new object goes live, and then the log line may throw
      have hnew₁ : s₁.mem.live.has observed.xrplTxId = false := by
        rw [hlive]
        exact hnew
      have hset : Grows s₁ ⟨setLive observed.xrplTxId s₁.mem.heap.length s₂.mem, s₂.world⟩ := by
        refine .of_set hheap₂ hlt hnew₁ ?_
        rw [setLive, hlive₂]
      exact alone_lift_seq (fun _ _ => alone_pure (hgrows.trans hset)) fun _ _ => hgrows.trans hset

theorem runs_createLoop (o : Options) (payments : List ObservedPayment) (s : St) :
    Runs (fun _ _ => True) (createLoop payments) (fun _ _ s' => Grows s s') s := by
  induction payments generalizing s with
  | nil => exact alone_pure (.refl s)
  | cons observed rest ih =>
    refine alone_seq (runs_createOne o observed s) ?_ fun _ _ _ h => h
    intro calls u s₁ hgrows
    exact alone_mono (ih s₁) fun _ _ _ h => hgrows.trans h

/-- **The first half of a tick**, the poll and the creation of jobs, only adds objects and live
jobs, also when it throws half-way. -/
theorem runs_createJobs (o : Options) (s : St) :
    Runs (fun _ _ => True) (createJobs o) (fun _ _ s' => Grows s s') s := by
  unfold createJobs
  refine alone_tryCatch (R := fun _ _ s' => Grows s s') ?_ (fun _ _ _ h => h)
    fun _ _ _ h => alone_pure h
  refine alone_seq (runs_apart (apart_poll o) s) ?_ fun _ _ _ h => .of_places h
  intro calls payments s₁ hplaces
  exact alone_mono (runs_createLoop o payments s₁) fun _ _ _ h => (Grows.of_places hplaces).trans h

/-! ## 5. Ticks -/

/-- Ticks one after the other, the latest first.  What is served after a tick may add objects. -/
inductive Ticks (o : Options) (s : St) : List (List Visit) → St → Prop
  | nil : Ticks o s [] s
  | tick {days : List (List Visit)} {visits : List Visit} {s₁ s₂ s' : St}
      {answers : List (Choice × Int)} {out : Async.Outcome sig world Int Unit} :
      Ticks o s days s₁ → exec (W := world) clockTo (createJobs o) answers s₁ = some out →
      Sweep o 0 out.st visits s₂ → s₂.mem.heap <+: s'.mem.heap → s'.mem.live = s₂.mem.live →
      Ticks o s (visits :: days) s'

theorem get_grown {heap heap' : List Job} (h : heap <+: heap') {r : Ref} (hr : r < heap.length) :
    heap'[r]? = heap[r]? := by
  obtain ⟨more, rfl⟩ := h
  exact List.getElem?_append_left hr

/-- In a walk over distinct objects, each has one visit. -/
theorem filter_ref {visits : List Visit} (hnodup : (visits.map Visit.ref).Nodup) {v : Visit}
    (hv : v ∈ visits) : visits.filter (fun w => w.ref = v.ref) = [v] := by
  induction visits with
  | nil => exact absurd hv List.not_mem_nil
  | cons w visits ih =>
    rw [List.map_cons, List.nodup_cons] at hnodup
    rcases List.mem_cons.mp hv with rfl | hv
    · have hrest : visits.filter (fun w => w.ref = v.ref) = [] := by
        refine List.filter_eq_nil_iff.mpr fun w hw heq => hnodup.1 ?_
        exact decide_eq_true_iff.mp heq ▸ List.mem_map_of_mem hw
      simp only [List.filter_cons, decide_true, if_true, hrest]
    · have hne : w.ref ≠ v.ref := fun heq => hnodup.1 (heq ▸ List.mem_map_of_mem hv)
      rw [List.filter_cons_of_neg (by rw [decide_eq_true_iff]; exact hne)]
      exact ih hnodup.2 hv

/-- One tick, as a job sees it that was live before. -/
structure Ticked (o : Options) (s : St) (visits : List Visit) (s' : St) : Prop where
  housed : Housed s'
  length : s.mem.heap.length ≤ s'.mem.heap.length
  old : ∀ p ∈ s'.mem.live.pairs, p ∈ s.mem.live.pairs ∨ s.mem.heap.length ≤ p.2
  turn : ∀ id r, (id, r) ∈ s.mem.live.pairs → ∃ t, Retry.Taken o t ∧
    visits.filter (fun w => w.ref = r) = [⟨id, r, t⟩] ∧
    s.mem.heap[r]? = some t.before ∧ s'.mem.heap[r]? = some t.after ∧
    ((id, r) ∉ s'.mem.live.pairs → t.after.state.terminal = true)
  rest : ∀ r, r < s.mem.heap.length → (∀ p ∈ s.mem.live.pairs, p.2 ≠ r) →
    s'.mem.heap[r]? = s.mem.heap[r]?

theorem ticked {o : Options} {s s₂ s' : St} {visits : List Visit} {answers : List (Choice × Int)}
    {out : Async.Outcome sig world Int Unit} (hh : Housed s)
    (hcreate : exec (W := world) clockTo (createJobs o) answers s = some out)
    (hsweep : Sweep o 0 out.st visits s₂) (hheap : s₂.mem.heap <+: s'.mem.heap)
    (hlive : s'.mem.live = s₂.mem.live) : Ticked o s visits s' := by
  have hgrows := runs_createJobs o s _ _ hcreate fun _ _ => trivial
  have hhoused := hgrows.housed hh
  have hswept := hsweep.swept hhoused
  have hvisited : visits.map Visit.pair = out.st.mem.live.pairs := hswept.visited
  have hrefs : visits.map Visit.ref = out.st.mem.live.pairs.map Prod.snd := by
    rw [← hvisited, List.map_map]
    rfl
  have hnodup : (visits.map Visit.ref).Nodup := hrefs ▸ hhoused.apart
  have hle := hgrows.heap.length_le
  have hle' := hheap.length_le
  refine ⟨⟨fun p hp => ?_, ?_⟩, ?_, fun p hp => ?_, fun id r hp => ?_, fun r hr hnone => ?_⟩
  · rw [hlive] at hp
    exact (hhoused.held p (hswept.kept.subset hp)).trans_le (hswept.length ▸ hle')
  · rw [hlive]
    exact hhoused.apart.sublist (hswept.kept.map Prod.snd)
  · rw [hswept.length] at hle'
    exact hle.trans hle'
  · rw [hlive] at hp
    exact hgrows.fresh p (hswept.kept.subset hp)
  · have hr := hh.held _ hp
    obtain ⟨v, hv, hpair⟩ := List.mem_map.mp (hvisited ▸ hgrows.kept _ hp)
    obtain ⟨t, rfl⟩ : ∃ t, v = ⟨id, r, t⟩ := ⟨v.turn, by
      cases v
      cases hpair
      rfl⟩
    obtain ⟨htaken, hbefore, hafter⟩ := hswept.taken _ hv
    refine ⟨t, htaken, filter_ref hnodup hv, ?_, ?_, fun hgone => ?_⟩
    · rw [← get_grown hgrows.heap hr]
      exact hbefore
    · rw [get_grown hheap (by rw [hswept.length]; exact hr.trans_le hle)]
      exact hafter
    · rw [hlive] at hgone
      obtain ⟨v', hv', hpair', hterminal⟩ := hswept.dropped _ (hgrows.kept _ hp) hgone
      have hsame : [v'] = [(⟨id, r, t⟩ : Visit)] := by
        rw [← filter_ref hnodup hv, ← filter_ref hnodup hv']
        exact congrArg (fun r => visits.filter fun w => w.ref = r) (Prod.mk.inj hpair').2
      cases hsame
      exact hterminal
  · have hr' : r < s₂.mem.heap.length := by
      rw [hswept.length]
      exact hr.trans_le hle
    rw [get_grown hheap hr', hswept.others, get_grown hgrows.heap hr]
    rw [hrefs]
    intro hmem
    obtain ⟨p, hp, rfl⟩ := List.mem_map.mp hmem
    rcases hgrows.fresh p hp with hold | hnew
    · exact hnone p hold rfl
    · exact absurd hr (Nat.not_lt.mpr hnew)

/-- What some ticks are for a job that was live before them. -/
structure Attended (o : Options) (s : St) (id : Str) (r : Ref) (days : List (List Visit)) (s' : St) :
    Prop where
  housed : Housed s'
  held : r < s'.mem.heap.length
  own : ∀ p ∈ s'.mem.live.pairs, p.2 = r → p = (id, r)
  /-- While it is live it has one turn a tick, each from where the one before has left it. -/
  live : (id, r) ∈ s'.mem.live.pairs → ∃ turns : List Retry.Turn,
    days.map (fun visits => visits.filter fun v => v.ref = r) = turns.map (fun t => [⟨id, r, t⟩]) ∧
      (∀ t earlier, turns = t :: earlier → s'.mem.heap[r]? = some t.after) ∧
      (turns ≠ [] → Retry.Life o 0 turns)
  /-- When it no longer is it is done with. -/
  gone : (id, r) ∉ s'.mem.live.pairs →
    ∃ job, s'.mem.heap[r]? = some job ∧ job.state.terminal = true

theorem Ticks.attended {o : Options} {s s' : St} {days : List (List Visit)} (h : Ticks o s days s')
    (hh : Housed s) {id : Str} {r : Ref} (hlive : (id, r) ∈ s.mem.live.pairs) :
    Attended o s id r days s' := by
  induction h with
  | nil =>
    refine ⟨hh, hh.held _ hlive, fun p hp hr => ?_, fun _ => ⟨[], rfl, fun t earlier heq => ?_,
      fun hne => absurd rfl hne⟩, fun hgone => absurd hlive hgone⟩
    · exact List.inj_on_of_nodup_map hh.apart hp hlive hr
    · cases heq
  | @tick days visits s₁ s₂ s' answers out _ hcreate hsweep hheap hsame ih =>
    have ht := ticked ih.housed hcreate hsweep hheap hsame
    -- an object that is live now was live before, or is new
    have hold : ∀ p ∈ s'.mem.live.pairs, p.2 = r → p ∈ s₁.mem.live.pairs := by
      intro p hp hr
      rcases ht.old p hp with hold | hnew
      · exact hold
      · exact absurd ih.held (Nat.not_lt.mpr (hr ▸ hnew))
    refine ⟨ht.housed, ih.held.trans_le ht.length, fun p hp hr => ih.own p (hold p hp hr) hr,
      fun hstill => ?_, fun hgone => ?_⟩
    · have hbefore := hold _ hstill rfl
      obtain ⟨turns, hturns, hlast, hlife⟩ := ih.live hbefore
      obtain ⟨t, htaken, hvisit, hget, hget', -⟩ := ht.turn id r hbefore
      refine ⟨t :: turns, ?_, ?_, fun _ => ?_⟩
      · rw [List.map_cons, List.map_cons, hvisit, hturns]
      · rintro t' earlier heq
        cases heq
        exact hget'
      · cases turns with
        | nil => exact .first htaken
        | cons t' earlier =>
          refine .next (hlife (List.cons_ne_nil _ _)) htaken ?_
          exact Option.some.inj (hget.symm.trans (hlast t' earlier rfl))
    · by_cases hbefore : (id, r) ∈ s₁.mem.live.pairs
      · obtain ⟨t, -, -, -, hget', hterminal⟩ := ht.turn id r hbefore
        exact ⟨t.after, hget', hterminal hgone⟩
      · obtain ⟨job, hjob, hterminal⟩ := ih.gone hbefore
        refine ⟨job, ?_, hterminal⟩
        rw [ht.rest r ih.held fun p hp hr => hbefore (ih.own p hp hr ▸ hp), hjob]

theorem Ticks.housed {o : Options} {s s' : St} {days : List (List Visit)} (h : Ticks o s days s')
    (hh : Housed s) : Housed s' := by
  induction h with
  | nil => exact hh
  | tick _ hcreate hsweep hheap hsame ih => exact (ticked ih hcreate hsweep hheap hsame).housed

/-! ## 6. From the start on -/

/-- A service between `start` and its first tick; what it has served may have added objects. -/
def Started (s : St) : Prop :=
  ∃ (now : Int) (w : Outside) (answers : List (Choice × Int))
    (out : Async.Outcome sig world Int Unit),
    exec (W := world) clockTo ExecutorService.start answers ⟨Memory.boot now, w⟩ = some out ∧
      out.st.mem.heap <+: s.mem.heap ∧ s.mem.live = out.st.mem.live

theorem apart_start : Apart ExecutorService.start := by
  unfold ExecutorService.start XrplHttpClient.currentLedger
  refine spares_bind (spares_bind (spares_call _) fun reply => spares_lift _) fun ledger => ?_
  exact spares_bind (spares_modify fun _ => rfl) fun _ => spares_modify fun _ => rfl

/-- Nothing is live in a service that has only been started. -/
theorem Started.housed {s : St} (h : Started s) : Housed s := by
  obtain ⟨now, w, answers, out, hexec, -, hlive⟩ := h
  have hplaces : places out.st.mem = places (Memory.boot now) :=
    exec_spares clockTo_places apart_start hexec
  have hnone : s.mem.live.pairs = [] := by
    rw [hlive, (Prod.mk.inj hplaces).2]
    rfl
  refine ⟨fun p hp => ?_, ?_⟩
  · rw [hnone] at hp
    exact absurd hp List.not_mem_nil
  · rw [hnone]
    exact List.nodup_nil

end Walk

/-- **Every live job has its turn.**  However the services answer, and whatever becomes of the other
jobs: in a service that has been started and has ticked any number of times, a job that is live is
stepped once in every further tick, from where the step before has left it.  So there are no more
ticks than `job_ends` says while it is live, and when it no longer is it has been executed or has
failed. -/
theorem served {o : Options} {boot s s' : St} {before days : List (List Walk.Visit)}
    (hstart : Walk.Started boot) (hbefore : Walk.Ticks o boot before s)
    (h : Walk.Ticks o s days s') {id : Str} {r : Ref} (hlive : (id, r) ∈ s.mem.live.pairs) :
    ((id, r) ∈ s'.mem.live.pairs → ∃ turns : List Retry.Turn,
      days.map (fun visits => visits.filter fun v => v.ref = r) =
        turns.map (fun t => [⟨id, r, t⟩]) ∧
      (turns ≠ [] → Retry.Life o 0 turns) ∧
      (∀ t earlier, turns = t :: earlier → s'.mem.heap[r]? = some t.after) ∧
      days.length ≤ Retry.ended .waited turns + Retry.ended .lag turns + 30 +
        10 * Retry.delayed turns) ∧
    ((id, r) ∉ s'.mem.live.pairs →
      ∃ job, s'.mem.heap[r]? = some job ∧ job.state.terminal = true) := by
  have hattended := h.attended (hbefore.housed hstart.housed) hlive
  refine ⟨fun hstill => ?_, hattended.gone⟩
  obtain ⟨turns, hturns, hlast, hlife⟩ := hattended.live hstill
  refine ⟨turns, hturns, hlife, hlast, ?_⟩
  have hlength : days.length = turns.length := by
    have hlengths := congrArg List.length hturns
    rwa [List.length_map, List.length_map] at hlengths
  cases turns with
  | nil =>
    rw [hlength]
    exact Nat.zero_le _
  | cons t earlier =>
    rw [hlength]
    exact job_ends (hlife (List.cons_ne_nil _ _))

namespace SampleTicks

def options : Options := Sample.options Sample.tables

def record : PendingUserOp where
  commitment := Sample.commitment
  userOpData := Sample.userOpData
  personalAccount := .str "0xcd".toList
  nonce := .str "7".toList
  totalCallValue := .str "5".toList
  label := .str "pay".toList
  registeredAt := 0

/-- The directories before the start: the record of one operation, and no job. -/
def onDisk : Outside where
  pending := fun name => if name = Sample.commitment.drop 2 then some (.whole record) else none
  jobs := fun _ => none
  chain := []
  history := []

def started : Option (Async.Outcome sig world Int Unit) :=
  exec (W := world) clockTo ExecutorService.start [(.ledger (.result 10), 0)] ⟨Memory.boot 0, onDisk⟩

/-- The service after its start, in ledger 10. -/
def boot : St := (started.map Async.Outcome.st).getD ⟨Memory.boot 0, onDisk⟩

/-- A tick that finds the payment, reads the record, and writes the file of a new job. -/
def paying : List (Choice × Int) :=
  [(.transactions (.result (some [Sample.payment Sample.txId 11 Sample.commitment])), 0),
    (.done, 0), (.done, 0), (.done, 0), (.done, 0)]

/-- A tick that finds no payment. -/
def quiet : List (Choice × Int) := [(.transactions (.result (some [])), 0)]

/-- A tick with one live job, whose step meets a lagging verifier. -/
def round (answers : List (Choice × Int)) (s : St) : Option (Retry.Turn × St) := do
  let created ← exec (W := world) clockTo (createJobs options) answers s
  let before ← created.st.mem.heap[0]?
  let ending ← Retry.ending options 0 SampleRetry.lagging created.st
  let stepped ← exec (W := world) clockTo (advanceOne options Sample.txId 0) SampleRetry.lagging
    created.st
  let after ← stepped.st.mem.heap[0]?
  if created.st.mem.live.entries = [some (Sample.txId, 0)] ∧
      stepped.st.mem.live.entries = [some (Sample.txId, 0)] then
    some (⟨before, ending, after⟩, stepped.st)
  else none

open Walk

theorem round_tick {days : List (List Visit)} {answers : List (Choice × Int)} {s₀ s s' : St}
    {t : Retry.Turn} (h : Ticks options s₀ days s) (hround : round answers s = some (t, s')) :
    Ticks options s₀ ([⟨Sample.txId, 0, t⟩] :: days) s' ∧
      s'.mem.live.entries = [some (Sample.txId, 0)] := by
  obtain ⟨created, hcreate, hround⟩ := Option.bind_eq_some_iff.mp hround
  obtain ⟨before, hbefore, hround⟩ := Option.bind_eq_some_iff.mp hround
  obtain ⟨ending, hending, hround⟩ := Option.bind_eq_some_iff.mp hround
  obtain ⟨stepped, hstep, hround⟩ := Option.bind_eq_some_iff.mp hround
  obtain ⟨after, hafter, hround⟩ := Option.bind_eq_some_iff.mp hround
  obtain ⟨⟨hentries, hentries'⟩, hround⟩ := Option.ite_none_right_eq_some.mp hround
  cases hround
  have hplace : walk 0 created.st.mem.live = some (.stepping 0 Sample.txId 0) := by
    rw [walk, hentries]
    rfl
  have hend : walk 1 stepped.st.mem.live = none := by
    rw [walk, hentries']
    rfl
  have hsweep : Sweep options 0 created.st [⟨Sample.txId, 0, ⟨before, ending, after⟩⟩] stepped.st :=
    .visit hplace hstep hbefore hending hafter (.done hend)
  exact ⟨.tick h hcreate hsweep List.prefix_rfl rfl, hentries'⟩

theorem boot_started : Started boot :=
  ⟨0, onDisk, [(.ledger (.result 10), 0)], _, rfl, List.prefix_rfl, rfl⟩

/-- The first tick creates the job, and in both it has its turn. -/
theorem rounds : ((round paying boot).bind fun first => (round quiet first.2).map fun second =>
    (first.1.ending, second.1.ending, second.1.after.attempts)) = some (.lag, .lag, 2) := by
  decide +kernel

end SampleTicks

open SampleTicks in
/-- A service is started, creates a job in its first tick, and gives it its turn in the second. -/
theorem served_started : ∃ (t : Retry.Turn) (turns : List Retry.Turn),
    [[Walk.Visit.mk Sample.txId 0 t]].map (fun visits => visits.filter fun v => v.ref = 0) =
      turns.map (fun t => [⟨Sample.txId, 0, t⟩]) ∧
    t.ending = .lag ∧ t.after.attempts = 2 ∧ (turns ≠ [] → Retry.Life options 0 turns) ∧
    1 ≤ Retry.ended .waited turns + Retry.ended .lag turns + 30 + 10 * Retry.delayed turns := by
  obtain ⟨⟨t, s⟩, hfirst, hrest⟩ := Option.bind_eq_some_iff.mp rounds
  obtain ⟨⟨t', s'⟩, hsecond, hvalues⟩ := Option.map_eq_some_iff.mp hrest
  obtain ⟨-, hending, hattempts⟩ := (Prod.mk.inj hvalues).imp_right Prod.mk.inj
  obtain ⟨hbefore, hentries⟩ := round_tick .nil hfirst
  obtain ⟨hticks, hentries'⟩ := round_tick .nil hsecond
  have hlive : (Sample.txId, 0) ∈ s.mem.live.pairs := by
    rw [JsMap.mem_pairs, hentries]
    exact List.mem_singleton_self _
  have hstill : (Sample.txId, 0) ∈ s'.mem.live.pairs := by
    rw [JsMap.mem_pairs, hentries']
    exact List.mem_singleton_self _
  obtain ⟨turns, hturns, hlife, -, hbound⟩ :=
    (served boot_started hbefore hticks hlive).1 hstill
  exact ⟨t', turns, hturns, hending, hattempts, hlife, hbound⟩

end OneSig.Executor
