/-
# One tick, alone

`tick` is documented to evaluate every armed intent once.  It runs a loop whose body can throw: a
check that rejects, and `describeTrigger` in the log line of an intent that has just fired, when
its `notBefore` is no `Date` (ARM stores such an intent).  What is thrown leaves the loop, and the
armed intents behind it are not looked at.

`Evaluated` is the documented meaning, over the map as it stands when the tick begins: an armed
intent past its deadline has expired and lost its bytes, one whose check says so has fired at the
time of the tick and keeps them, any other armed one is as it was, each that was not past its
deadline has been asked about exactly once, and what is not armed is untouched.

The tick itself is a task of the event loop that nothing comes between, with any answers to its
checks.

* `visit` is what one evaluation does to the memory and `walk` a list of them.  Each intent has
  its own outcome and the others are untouched (`walk_heap`), because no object is in the map
  twice.
* `Ticking.stands` follows the task: whatever it has done, it stands somewhere on the walk
  (`TickAt`), with a number that falls with every step; so it ends (`tick_ends`), whatever the
  checks say.
* `tick_walks`: when it has ended, it has walked the map up to the first intent that throws.
* `evaluated_iff`: such a walk evaluates every armed intent exactly when no armed one lies behind
  one that throws (`Unhindered`), which is a condition on the map, the time and the checks.

`tick_evaluates_iff` puts them together: a tick ends, and when it has, every armed intent has been
evaluated once if and only if the map was unhindered.
-/
import Mathlib.Algebra.Order.Ring.Unbundled.Rat
import OneSig.Latch.Seal
import OneSig.Latch.Steps

namespace OneSig.Latch

open Async (Task Prog)

variable {o : Options}

/-! ## 1. A tick that nothing comes between -/

/-- Every key of the map leads to an intent of that commitment. -/
def Memory.Keyed (m : Memory) : Prop :=
  ∀ k r, (k, r) ∈ m.intents.pairs → ∃ intent, m.heap[r]? = some intent ∧ intent.commitment = k

theorem Memory.Sound.keyed {m : Memory} (h : m.Sound o) : m.Keyed := h.refs

/-- The objects of the map, in order. -/
def Memory.refs (m : Memory) : List Ref := m.intents.pairs.map Prod.snd

/-- Task `i` goes on and nothing else happens, from `s₀`.  `check` says what comes of the check of
each intent, and the list is what it was asked about. -/
inductive Ticking (check : Ref → Except JsError Bool) (i : Nat) (s₀ : Sys o) :
    List Ref → Sys o → Prop
  | start : Ticking check i s₀ [] s₀
  | resumes {calls : List Ref} {s s' : Sys o} (h : Ticking check i s₀ calls s)
      (hst : s.step (.resume i) = some s') : Ticking check i s₀ calls s'
  | answers {calls : List Ref} {s s' : Sys o} {r : Ref} {place : Nat} {now : ℚ} {op : Op}
      (h : Ticking check i s₀ calls s) (ha : s.awaiting i = some (Label.visit r place now, op))
      (hst : s.step (.perform i (check r)) = some s') : Ticking check i s₀ (calls ++ [r]) s'

/-- `await tick(now, check)`, from its call to its end. -/
def TickRun (check : Ref → Except JsError Bool) (now : ℚ) (s s' : Sys o) (calls : List Ref) :
    Prop :=
  ∃ s₀, s.step (Event.tick now) = some s₀ ∧ Ticking check s.tasks.length s₀ calls s' ∧
    ∃ t, s'.tasks[s.tasks.length]? = some t ∧ t.done = true

/-! ## 2. The walk -/

section Walk

variable (check : Ref → Except JsError Bool) (now : ℚ)

/-- What becomes of an intent that is evaluated. -/
def outcome (r : Ref) (intent : Intent) : Intent :=
  if intent.state ≠ .armed then intent
  else if intent.deadline ≤ now then intent.drop .expired
  else if check r = .ok true then intent.fire now
  else intent

/-- The intent is armed and its deadline is ahead. -/
def asks (m : Memory) (r : Ref) : Bool :=
  (m.heap[r]?).any fun intent => intent.state = .armed ∧ now < intent.deadline

/-- And its check says that it fires. -/
def fires (m : Memory) (r : Ref) : Bool := asks now m r && check r = .ok true

/-- The evaluation of the intent throws. -/
def throws (m : Memory) (r : Ref) : Bool :=
  asks now m r && match check r with
    | .error _ => true
    | .ok fired => fired && (m.heap[r]?).any fun intent => !(describeTrigger intent.trigger).isOk

/-- One intent is evaluated. -/
def visit (m : Memory) (r : Ref) : Memory :=
  { m.update r (outcome check now r) with
    firedTotal := m.firedTotal + if fires check now m r then 1 else 0 }

def walk (m : Memory) (rs : List Ref) : Memory := rs.foldl (visit check now) m

/-- As far as a loop comes whose body can throw. -/
def upTo (p : Ref → Bool) : List Ref → List Ref
  | [] => []
  | r :: rs => if p r then [r] else r :: upTo p rs

/-- **Every armed intent is evaluated once, and nothing else is touched**: one whose deadline has
passed expires unchecked, one whose check says so fires, and the others stay. -/
structure Evaluated (calls : List Ref) (m m' : Memory) : Prop where
  expired : ∀ r ∈ m.refs, ∀ intent, m.heap[r]? = some intent → intent.state = .armed →
    intent.deadline ≤ now → m'.heap[r]? = some (intent.drop .expired) ∧ r ∉ calls
  fired : ∀ r ∈ m.refs, ∀ intent, m.heap[r]? = some intent → intent.state = .armed →
    now < intent.deadline → check r = .ok true → m'.heap[r]? = some (intent.fire now)
  calm : ∀ r ∈ m.refs, ∀ intent, m.heap[r]? = some intent → intent.state = .armed →
    now < intent.deadline → check r ≠ .ok true → m'.heap[r]? = some intent
  asked : ∀ r ∈ m.refs, ∀ intent, m.heap[r]? = some intent → intent.state = .armed →
    now < intent.deadline → calls.count r = 1
  unarmed : ∀ r ∈ m.refs, ∀ intent, m.heap[r]? = some intent → intent.state ≠ .armed →
    m'.heap[r]? = some intent ∧ r ∉ calls
  apart : ∀ r, r ∉ m.refs → m'.heap[r]? = m.heap[r]? ∧ r ∉ calls
  map : m'.intents = m.intents
  firedTotal : m'.firedTotal = m.firedTotal + m.refs.countP (fires check now m)
  report : reportState m' = {
    armed := m.refs.countP fun r => asks now m r && !fires check now m r
    awaitingCollection := (reportState m).awaitingCollection + m.refs.countP (fires check now m)
    armedTotal := m.armedTotal
    firedTotal := m.firedTotal + m.refs.countP (fires check now m) }

end Walk

/-! ## 3. What a walk leaves -/

section Left

variable {check : Ref → Except JsError Bool} {now : ℚ} {m m' : Memory} {r j : Ref} {rs : List Ref}
  {intent : Intent}

theorem asks_iff (h : m.heap[r]? = some intent) :
    asks now m r = true ↔ intent.state = .armed ∧ now < intent.deadline := by
  simp [asks, h]

theorem armed_of_asks (h : asks now m r = true) : m.Armed r := by
  obtain ⟨intent, hr, hboth⟩ := (Option.any_eq_true _ _).mp h
  rw [decide_eq_true_eq] at hboth
  exact ⟨intent, hr, hboth.1⟩

theorem asks_congr (h : m'.heap[r]? = m.heap[r]?) : asks now m' r = asks now m r := by
  rw [asks, asks, h]

theorem fires_congr (h : m'.heap[r]? = m.heap[r]?) :
    fires check now m' r = fires check now m r := by
  rw [fires, fires, asks_congr h]

theorem Memory.update_eq {f : Intent → Intent} (h : m.heap[r]? = some intent) :
    m.update r f = { m with heap := m.heap.set r (f intent) } := by
  obtain ⟨hlt, rfl⟩ := List.getElem?_eq_some_iff.mp h
  rw [update, List.modify_eq_set_get f hlt]
  rfl

theorem outcome_unarmed (h : intent.state ≠ .armed) : outcome check now r intent = intent :=
  if_pos h

theorem outcome_expired (h : intent.state = .armed) (hdue : intent.deadline ≤ now) :
    outcome check now r intent = intent.drop .expired := by
  rw [outcome, if_neg (not_not.mpr h), if_pos hdue]

theorem outcome_fired (h : intent.state = .armed) (hdue : now < intent.deadline)
    (hr : check r = .ok true) : outcome check now r intent = intent.fire now := by
  rw [outcome, if_neg (not_not.mpr h), if_neg (not_le.mpr hdue), if_pos hr]

theorem outcome_calm (h : intent.state = .armed) (hdue : now < intent.deadline)
    (hr : check r ≠ .ok true) : outcome check now r intent = intent := by
  rw [outcome, if_neg (not_not.mpr h), if_neg (not_le.mpr hdue), if_neg hr]

@[simp] theorem visit_intents : (visit check now m r).intents = m.intents := rfl

@[simp] theorem visit_armedTotal : (visit check now m r).armedTotal = m.armedTotal := rfl

theorem visit_heap : (visit check now m r).heap[j]? =
    if r = j then (m.heap[j]?).map (outcome check now r) else m.heap[j]? :=
  Memory.update_heap j

/-- An intent that is not armed is passed over. -/
theorem visit_unarmed (h : ∀ intent, m.heap[r]? = some intent → intent.state ≠ .armed) :
    visit check now m r = m := by
  have hheap : m.heap.modify r (outcome check now r) = m.heap := by
    refine List.ext_getElem? fun j => ?_
    rw [List.getElem?_modify]
    split
    case isFalse => simp
    case isTrue hj =>
      subst hj
      cases hr : m.heap[r]? with
      | none => rfl
      | some intent => exact congrArg some (outcome_unarmed (h intent hr))
  have hasks : asks now m r = false := by
    cases hr : m.heap[r]? with
    | none => simp [asks, hr]
    | some intent => simp [asks, hr, h intent hr]
  rw [visit, Memory.update, hheap, fires, hasks]
  rfl

/-- A visit of the intent that is there. -/
theorem visit_eq (hr : m.heap[r]? = some intent) : visit check now m r =
    { m with
      heap := m.heap.set r (outcome check now r intent)
      firedTotal := m.firedTotal + if fires check now m r then 1 else 0 } := by
  rw [visit, Memory.update_eq hr]

theorem visit_expired (hr : m.heap[r]? = some intent) (hstate : intent.state = .armed)
    (hdue : intent.deadline ≤ now) : visit check now m r = m.update r (Intent.drop .expired) := by
  have hfires : fires check now m r = false := by
    simp [fires, asks, hr, not_lt.mpr hdue]
  rw [visit_eq hr, Memory.update_eq hr, outcome_expired hstate hdue, hfires]
  rfl

theorem visit_fired (hr : m.heap[r]? = some intent) (hasks : asks now m r = true)
    (hc : check r = .ok true) : visit check now m r =
      { m.update r (Intent.fire now) with firedTotal := m.firedTotal + 1 } := by
  have hfires : fires check now m r = true := by simp [fires, hasks, hc]
  obtain ⟨hstate, hdue⟩ := (asks_iff hr).mp hasks
  rw [visit_eq hr, Memory.update_eq hr, outcome_fired hstate hdue hc, hfires]
  rfl

theorem visit_calm (hr : m.heap[r]? = some intent) (hasks : asks now m r = true)
    (hc : check r ≠ .ok true) : visit check now m r = m := by
  have hfires : fires check now m r = false := by simp [fires, hc]
  obtain ⟨hstate, hdue⟩ := (asks_iff hr).mp hasks
  obtain ⟨hlt, hget⟩ := List.getElem?_eq_some_iff.mp hr
  rw [visit_eq hr, outcome_calm hstate hdue hc, hfires, ← hget, List.set_getElem_self]
  rfl

theorem walk_cons : walk check now m (r :: rs) = walk check now (visit check now m r) rs := rfl

theorem walk_snoc : walk check now m (rs ++ [r]) = visit check now (walk check now m rs) r := by
  simp [walk]

@[simp] theorem walk_intents : (walk check now m rs).intents = m.intents := by
  induction rs generalizing m with
  | nil => rfl
  | cons r rs ih => rw [walk_cons, ih, visit_intents]

@[simp] theorem walk_armedTotal : (walk check now m rs).armedTotal = m.armedTotal := by
  induction rs generalizing m with
  | nil => rfl
  | cons r rs ih => rw [walk_cons, ih, visit_armedTotal]

/-- **Each intent of the walk has its own outcome, and the others are untouched**: what becomes of
it depends on nothing but itself, its check and the time. -/
theorem walk_heap (hrs : rs.Nodup) : (walk check now m rs).heap[j]? =
    if j ∈ rs then (m.heap[j]?).map (outcome check now j) else m.heap[j]? := by
  induction rs generalizing m with
  | nil => simp [walk]
  | cons r rs ih =>
    obtain ⟨hr, hrs⟩ := List.nodup_cons.mp hrs
    rw [walk_cons, ih hrs, visit_heap]
    by_cases hj : r = j
    · subst hj
      simp [hr]
    · simp [hj, Ne.symm hj]

theorem walk_firedTotal (hrs : rs.Nodup) : (walk check now m rs).firedTotal =
    m.firedTotal + rs.countP (fires check now m) := by
  induction rs generalizing m with
  | nil => simp [walk]
  | cons r rs ih =>
    obtain ⟨hr, hrs⟩ := List.nodup_cons.mp hrs
    have hrest : rs.countP (fires check now (visit check now m r)) =
        rs.countP (fires check now m) := by
      refine List.countP_congr fun j hj => ?_
      have hne : r ≠ j := fun h => hr (h ▸ hj)
      exact iff_of_eq (congrArg (· = true) (fires_congr (by rw [visit_heap, if_neg hne])))
    rw [walk_cons, ih hrs, hrest, List.countP_cons, visit]
    dsimp only
    omega

/-- What the rest of a walk would do to intents that are not armed. -/
theorem walk_unarmed (h : ∀ r ∈ rs, ∀ intent, m.heap[r]? = some intent → intent.state ≠ .armed) :
    walk check now m rs = m := by
  induction rs with
  | nil => rfl
  | cons r rs ih =>
    rw [walk_cons, visit_unarmed (h r (List.mem_cons_self ..))]
    exact ih fun j hj => h j (List.mem_cons_of_mem r hj)

theorem Memory.Keyed.refs_nodup (h : m.Keyed) : m.refs.Nodup := by
  have hinj : ∀ p ∈ m.intents.pairs, ∀ q ∈ m.intents.pairs, p.2 = q.2 → p = q := by
    rintro ⟨k, r⟩ hp ⟨k', r'⟩ hq rfl
    obtain ⟨intent, hr, rfl⟩ := h k r hp
    obtain ⟨intent', hr', rfl⟩ := h k' r hq
    rw [hr, Option.some.injEq] at hr'
    rw [hr']
  exact List.Nodup.map_on (fun p hp q hq => hinj p hp q hq) (m.intents.keys_nodup.of_map _)

theorem Memory.Keyed.object (h : m.Keyed) (hr : r ∈ m.refs) : ∃ intent, m.heap[r]? = some intent := by
  obtain ⟨⟨k, j⟩, hp, rfl⟩ := List.mem_map.mp hr
  obtain ⟨intent, hj, -⟩ := h k j hp
  exact ⟨intent, hj⟩

theorem Memory.values_eq (m : Memory) : m.values = m.refs.filterMap fun r => m.heap[r]? := by
  rw [values, refs, List.filterMap_map]
  rfl

/-- What two exclusive conditions count together. -/
theorem countP_or {α : Type} (p q : α → Bool) {l : List α}
    (h : ∀ a ∈ l, p a = true → q a = false) :
    l.countP (fun a => p a || q a) = l.countP p + l.countP q := by
  induction l with
  | nil => rfl
  | cons a l ih =>
    have htail := ih fun b hb => h b (List.mem_cons_of_mem a hb)
    have hhead := h a (List.mem_cons_self ..)
    rw [List.countP_cons, List.countP_cons, List.countP_cons, htail]
    cases hp : p a with
    | false =>
      simp
      omega
    | true =>
      simp [hhead hp]
      omega

/-- The walk over the whole map, in the counters that are public. -/
theorem reportState_walk (h : m.Keyed) : reportState (walk check now m m.refs) = {
    armed := m.refs.countP fun r => asks now m r && !fires check now m r
    awaitingCollection := (reportState m).awaitingCollection + m.refs.countP (fires check now m)
    armedTotal := m.armedTotal
    firedTotal := m.firedTotal + m.refs.countP (fires check now m) } := by
  have hrefs : (walk check now m m.refs).refs = m.refs := by
    rw [Memory.refs, walk_intents, Memory.refs]
  have hobject : ∀ r ∈ m.refs, ∃ intent, m.heap[r]? = some intent ∧
      (walk check now m m.refs).heap[r]? = some (outcome check now r intent) := by
    intro r hr
    obtain ⟨intent, hj⟩ := h.object hr
    refine ⟨intent, hj, ?_⟩
    rw [walk_heap h.refs_nodup, if_pos hr, hj]
    rfl
  have harmed : ∀ r ∈ m.refs, ((((walk check now m m.refs).heap[r]?).map fun intent =>
      decide (intent.state = .armed)).getD false = true ↔
        (asks now m r && !fires check now m r) = true) := by
    intro r hr
    obtain ⟨intent, hj, hj'⟩ := hobject r hr
    rw [hj']
    by_cases hstate : intent.state = .armed
    · rcases lt_or_ge now intent.deadline with hdue | hdue
      · by_cases hc : check r = .ok true
        · simp [outcome_fired hstate hdue hc, fires, hc, Intent.fire]
        · simp [outcome_calm hstate hdue hc, fires, hc, hstate, (asks_iff hj).mpr ⟨hstate, hdue⟩]
      · simp [outcome_expired hstate hdue, asks, hj, Intent.drop, not_lt.mpr hdue]
    · simp [outcome_unarmed hstate, asks, hj, hstate]
  have hfired : ∀ r ∈ m.refs, ((((walk check now m m.refs).heap[r]?).map fun intent =>
      decide (intent.state = .fired)).getD false = true ↔
        (((m.heap[r]?).map fun intent => decide (intent.state = .fired)).getD false ||
          fires check now m r) = true) := by
    intro r hr
    obtain ⟨intent, hj, hj'⟩ := hobject r hr
    rw [hj', hj]
    by_cases hstate : intent.state = .armed
    · rcases lt_or_ge now intent.deadline with hdue | hdue
      · by_cases hc : check r = .ok true
        · simp [outcome_fired hstate hdue hc, fires, hc, Intent.fire,
            (asks_iff hj).mpr ⟨hstate, hdue⟩]
        · simp [outcome_calm hstate hdue hc, fires, hc]
      · simp [outcome_expired hstate hdue, fires, asks, hj, hstate, Intent.drop, not_lt.mpr hdue]
    · simp [outcome_unarmed hstate, fires, asks, hj, hstate]
  have hexclusive : ∀ r ∈ m.refs,
      ((m.heap[r]?).map fun intent => decide (intent.state = .fired)).getD false = true →
        fires check now m r = false := by
    intro r hr hstate
    obtain ⟨intent, hj⟩ := h.object hr
    have hne : intent.state = .fired := by simpa [hj] using hstate
    simp [fires, asks, hj, hne]
  have hwaiting : (walk check now m m.refs).values.countP (fun intent => intent.state = .fired) =
      m.values.countP (fun intent => intent.state = .fired) +
        m.refs.countP (fires check now m) := by
    rw [Memory.values_eq, Memory.values_eq, hrefs, List.countP_filterMap, List.countP_filterMap,
      List.countP_congr hfired]
    exact countP_or _ _ hexclusive
  rw [reportState, reportState, Report.mk.injEq]
  refine ⟨?_, hwaiting, walk_armedTotal, walk_firedTotal h.refs_nodup⟩
  rw [Memory.values_eq, hrefs, List.countP_filterMap]
  exact List.countP_congr harmed

/-- **The walk over the whole map evaluates every armed intent once**, since no intent stands
under two keys, and asks for a check exactly where one is due. -/
theorem evaluated_walk (h : m.Keyed) :
    Evaluated check now (m.refs.filter (asks now m)) m (walk check now m m.refs) := by
  have hheap : ∀ r ∈ m.refs, ∀ intent, m.heap[r]? = some intent →
      (walk check now m m.refs).heap[r]? = some (outcome check now r intent) := by
    intro r hr intent hj
    rw [walk_heap h.refs_nodup, if_pos hr, hj]
    rfl
  have hasked : ∀ r intent, m.heap[r]? = some intent →
      ¬(intent.state = .armed ∧ now < intent.deadline) → r ∉ m.refs.filter (asks now m) := by
    intro r intent hj hnot hr
    exact hnot ((asks_iff hj).mp (List.mem_filter.mp hr).2)
  refine ⟨?_, ?_, ?_, ?_, ?_, ?_, walk_intents, walk_firedTotal h.refs_nodup, reportState_walk h⟩
  · intro r hr intent hj hstate hdue
    rw [hheap r hr intent hj, outcome_expired hstate hdue]
    exact ⟨rfl, hasked r intent hj fun hboth => absurd hboth.2 (not_lt.mpr hdue)⟩
  · intro r hr intent hj hstate hdue hc
    rw [hheap r hr intent hj, outcome_fired hstate hdue hc]
  · intro r hr intent hj hstate hdue hc
    rw [hheap r hr intent hj, outcome_calm hstate hdue hc]
  · intro r hr intent hj hstate hdue
    rw [List.count_filter ((asks_iff hj).mpr ⟨hstate, hdue⟩)]
    exact List.count_eq_one_of_mem h.refs_nodup hr
  · intro r hr intent hj hstate
    rw [hheap r hr intent hj, outcome_unarmed hstate]
    exact ⟨rfl, hasked r intent hj fun hboth => hstate hboth.1⟩
  · intro r hr
    rw [walk_heap h.refs_nodup, if_neg hr]
    exact ⟨rfl, fun hcall => hr (List.mem_filter.mp hcall).1⟩

end Left

/-! ## 4. How far a loop comes that can throw -/

section UpTo

variable {check : Ref → Except JsError Bool} {now : ℚ} {m : Memory} {p : Ref → Bool} {r : Ref}
  {rs rs' : List Ref}

theorem upTo_append (h : ∀ r ∈ rs, p r = false) : upTo p (rs ++ rs') = rs ++ upTo p rs' := by
  induction rs with
  | nil => rfl
  | cons r rs ih =>
    have hr := h r (List.mem_cons_self ..)
    simp [upTo, hr, ih fun j hj => h j (List.mem_cons_of_mem r hj)]

theorem upTo_throws (h : ∀ r ∈ rs, p r = false) (hr : p r = true) :
    upTo p (rs ++ r :: rs') = rs ++ [r] := by
  rw [upTo_append h, upTo, if_pos hr]

theorem upTo_all (h : ∀ r ∈ rs, p r = false) : upTo p rs = rs := by
  have hall : upTo p (rs ++ []) = rs ++ upTo p [] := upTo_append h
  simpa [upTo] using hall

/-- A loop that does not come to its end stops at the first throw. -/
theorem upTo_split (p : Ref → Bool) (rs : List Ref) : (∀ r ∈ rs, p r = false) ∨
    ∃ pre r post, rs = pre ++ r :: post ∧ (∀ j ∈ pre, p j = false) ∧ p r = true := by
  by_cases h : ∀ r ∈ rs, p r = false
  · exact Or.inl h
  · simp only [not_forall, Bool.not_eq_false] at h
    obtain ⟨r, hr, hp⟩ := h
    have hsome : rs.find? p ≠ none := fun hnone => absurd hp (List.find?_eq_none.mp hnone r hr)
    obtain ⟨j, hj⟩ := Option.ne_none_iff_exists'.mp hsome
    obtain ⟨hpj, pre, post, rfl, hpre⟩ := List.find?_eq_some_iff_append.mp hj
    exact Or.inr ⟨pre, j, post, rfl, fun i hi => by simpa using hpre i hi, hpj⟩

/-- No armed intent lies behind one whose evaluation throws. -/
def Unhindered (check : Ref → Except JsError Bool) (now : ℚ) (m : Memory) : Prop :=
  m.refs.Pairwise fun r j => throws check now m r = true → ¬m.Armed j

theorem unhindered_of_calm (h : ∀ r ∈ m.refs, throws check now m r = false) :
    Unhindered check now m := by
  refine List.pairwise_of_forall_mem_list fun r hr j _ hthrows => ?_
  rw [h r hr] at hthrows
  cases hthrows

/-- With one intent that throws, it is about what lies behind the first of them. -/
theorem unhindered_split {pre post : List Ref} (hsplit : m.refs = pre ++ r :: post)
    (hpre : ∀ j ∈ pre, throws check now m j = false) (hr : throws check now m r = true) :
    Unhindered check now m ↔ ∀ j ∈ post, ¬m.Armed j := by
  rw [Unhindered, hsplit, List.pairwise_append, List.pairwise_cons]
  constructor
  · rintro ⟨-, ⟨hpost, -⟩, -⟩ j hj
    exact hpost j hj hr
  · intro hpost
    refine ⟨List.pairwise_of_forall_mem_list fun i hi j _ hi' => ?_, ⟨fun j hj _ => hpost j hj,
      List.pairwise_of_forall_mem_list fun i _ j hj _ => hpost j hj⟩, fun i hi j _ hi' => ?_⟩
    · rw [hpre i hi] at hi'
      cases hi'
    · rw [hpre i hi] at hi'
      cases hi'

/-- **A walk that stops at the first throw evaluates every armed intent once, unless it leaves one
behind.** -/
theorem evaluated_iff (h : m.Keyed) :
    Evaluated check now ((upTo (throws check now m) m.refs).filter (asks now m)) m
      (walk check now m (upTo (throws check now m) m.refs)) ↔ Unhindered check now m := by
  rcases upTo_split (throws check now m) m.refs with hcalm | ⟨pre, r, post, hsplit, hpre, hr⟩
  · rw [upTo_all hcalm]
    exact iff_of_true (evaluated_walk h) (unhindered_of_calm hcalm)
  have hnodup : (pre ++ [r] ++ post).Nodup := by
    have := h.refs_nodup
    rwa [hsplit, List.append_cons] at this
  have hapart : ∀ j ∈ post, j ∉ pre ++ [r] := fun j hj hj' =>
    (List.nodup_append.mp hnodup).2.2 j hj' j hj rfl
  have hbehind : ∀ j ∈ post, (walk check now m (pre ++ [r])).heap[j]? = m.heap[j]? := by
    intro j hj
    rw [walk_heap (List.nodup_append.mp hnodup).1, if_neg (hapart j hj)]
  have hupTo : upTo (throws check now m) m.refs = pre ++ [r] := by
    rw [hsplit, upTo_throws hpre hr]
  rw [hupTo, unhindered_split hsplit hpre hr]
  constructor
  · rintro hev j hj ⟨intent, hintent, hstate⟩
    have hmem : j ∈ m.refs := by
      rw [hsplit]
      exact List.mem_append_right _ (List.mem_cons_of_mem r hj)
    have hkept := hbehind j hj
    rcases lt_or_ge now intent.deadline with hdue | hdue
    · -- its check was never asked
      have hcount := hev.asked j hmem intent hintent hstate hdue
      rw [List.count_eq_zero_of_not_mem fun hj' => hapart j hj (List.mem_filter.mp hj').1] at hcount
      cases hcount
    · -- it is past its deadline and still armed
      rw [(hev.expired j hmem intent hintent hstate hdue).1, hintent, Option.some.injEq] at hkept
      have hdropped : (intent.drop .expired).state = .armed := by rw [hkept, hstate]
      cases hdropped
  · intro hpost
    have hunarmed : ∀ j ∈ post, ∀ intent, m.heap[j]? = some intent → intent.state ≠ .armed :=
      fun j hj intent hintent hstate => hpost j hj ⟨intent, hintent, hstate⟩
    have hwalk : walk check now m m.refs = walk check now m (pre ++ [r]) := by
      rw [hsplit, List.append_cons]
      rw [walk, List.foldl_append]
      exact walk_unarmed fun j hj intent hintent =>
        hunarmed j hj intent ((hbehind j hj).symm.trans hintent)
    have hcalls : m.refs.filter (asks now m) = (pre ++ [r]).filter (asks now m) := by
      have hnone : post.filter (asks now m) = [] := by
        refine List.filter_eq_nil_iff.mpr fun j hj hasks => ?_
        exact hpost j hj (armed_of_asks hasks)
      rw [hsplit, List.append_cons, List.filter_append, hnone, List.append_nil]
    rw [← hwalk, ← hcalls]
    exact evaluated_walk h

end UpTo

/-! ## 5. The run -/

/-- The objects at the places before one. -/
def Memory.before (m : Memory) (place : Nat) : List Ref :=
  ((m.intents.entries.take place).filterMap id).map Prod.snd

section Places

variable {m : Memory} {place : Nat}

theorem before_end (h : m.intents.entries[place]? = none) : m.before place = m.refs := by
  rw [Memory.before, List.take_of_length_le (List.getElem?_eq_none_iff.mp h)]
  rfl

theorem before_hole (h : m.intents.entries[place]? = some none) :
    m.before (place + 1) = m.before place := by
  rw [Memory.before, List.take_add_one, h]
  simp [Memory.before]

theorem before_next {k : Str} {r : Ref} (h : m.intents.entries[place]? = some (some (k, r))) :
    m.before (place + 1) = m.before place ++ [r] := by
  rw [Memory.before, List.take_add_one, h]
  simp [Memory.before]

/-- The intent at a place lies between those before it and the rest. -/
theorem refs_split {k : Str} {r : Ref} (h : m.intents.entries[place]? = some (some (k, r))) :
    ∃ rest, m.refs = m.before place ++ r :: rest := by
  refine ⟨((m.intents.entries.drop (place + 1)).filterMap id).map Prod.snd, ?_⟩
  rw [List.append_cons, ← before_next h, Memory.before, ← List.map_append, ← List.filterMap_append,
    List.take_append_drop]
  rfl

end Places

/-- Where the tick stands that was started on `m`, what it has made of the memory and what it has
asked; the last number falls with every step but a wait. -/
inductive TickAt (check : Ref → Except JsError Bool) (now : ℚ) (m : Memory) :
    Memory → Task (machine o) → List Ref → Nat → Prop
  | called : TickAt check now m m (Task.start (M := machine o) (.tick now)) []
      (4 * m.intents.entries.length + 5)
  | next {place : Nat} (h : ∀ r ∈ m.before place, throws check now m r = false) :
      TickAt check now m (walk check now m (m.before place))
        (Task.start (M := machine o) (.next place now)) ((m.before place).filter (asks now m))
        (4 * (m.intents.entries.length - place) + 4)
  | visits {place : Nat} {k : Str} {r : Ref}
      (h : ∀ r ∈ m.before place, throws check now m r = false)
      (hplace : m.intents.entries[place]? = some (some (k, r))) :
      TickAt check now m (walk check now m (m.before place))
        (Task.start (M := machine o) (.visit r place now)) ((m.before place).filter (asks now m))
        (4 * (m.intents.entries.length - place) + 3)
  | checks {place : Nat} {k : Str} {r : Ref} {intent : Intent}
      (h : ∀ r ∈ m.before place, throws check now m r = false)
      (hplace : m.intents.entries[place]? = some (some (k, r)))
      (hr : m.heap[r]? = some intent) (hasks : asks now m r = true) :
      TickAt check now m (walk check now m (m.before place))
        (checking o r place now intent.trigger) ((m.before place).filter (asks now m))
        (4 * (m.intents.entries.length - place) + 2)
  | answered {place : Nat} {k : Str} {r : Ref} {intent : Intent} {fired : Bool}
      (h : ∀ r ∈ m.before place, throws check now m r = false)
      (hplace : m.intents.entries[place]? = some (some (k, r)))
      (hr : m.heap[r]? = some intent) (hasks : asks now m r = true) (hc : check r = .ok fired) :
      TickAt check now m (walk check now m (m.before place))
        (answered o r place now intent.trigger fired)
        ((m.before place).filter (asks now m) ++ [r])
        (4 * (m.intents.entries.length - place) + 1)
  | finished {t : Task (machine o)} (ht : t.done = true) :
      TickAt check now m (walk check now m (upTo (throws check now m) m.refs)) t
        ((upTo (throws check now m) m.refs).filter (asks now m)) 0

section Run

variable {check : Ref → Except JsError Bool} {now : ℚ} {m m' : Memory} {t : Task (machine o)}
  {calls : List Ref} {n : Nat}

/-- The intent is behind the walk and stands as it stood. -/
theorem heap_ahead (check : Ref → Except JsError Bool) (now : ℚ) (hm : m.Keyed) {place : Nat} {k : Str} {r : Ref}
    (hplace : m.intents.entries[place]? = some (some (k, r))) :
    (walk check now m (m.before place)).heap[r]? = m.heap[r]? := by
  obtain ⟨rest, hrefs⟩ := refs_split hplace
  have hnodup := hm.refs_nodup
  rw [hrefs] at hnodup
  obtain ⟨hbefore, -, hapart⟩ := List.nodup_append.mp hnodup
  rw [walk_heap hbefore, if_neg fun hr => hapart r hr r (List.mem_cons_self ..) rfl]

/-- The loop goes on behind an intent whose evaluation does not throw. -/
theorem TickAt.step {place : Nat} {k : Str} {r : Ref}
    (h : ∀ r ∈ m.before place, throws check now m r = false)
    (hplace : m.intents.entries[place]? = some (some (k, r))) (hr : throws check now m r = false)
    (hmem : m' = visit check now (walk check now m (m.before place)) r)
    (hcalls : calls = (m.before place).filter (asks now m) ++ if asks now m r then [r] else []) :
    TickAt (o := o) check now m m' (Task.start (M := machine o) (.next (place + 1) now)) calls
      (4 * (m.intents.entries.length - (place + 1)) + 4) := by
  have hbefore := before_next hplace
  have hmem' : m' = walk check now m (m.before (place + 1)) := by
    rw [hmem, hbefore, walk_snoc]
  have hcalls' : calls = (m.before (place + 1)).filter (asks now m) := by
    rw [hcalls, hbefore, List.filter_append]
    simp [List.filter_cons]
  rw [hmem', hcalls']
  refine .next fun j hj => ?_
  rw [hbefore, List.mem_append, List.mem_singleton] at hj
  rcases hj with hj | rfl
  · exact h j hj
  · exact hr

/-- And ends at one whose evaluation throws. -/
theorem TickAt.stop {place : Nat} {k : Str} {r : Ref}
    (h : ∀ r ∈ m.before place, throws check now m r = false)
    (hplace : m.intents.entries[place]? = some (some (k, r))) (hr : throws check now m r = true)
    (ht : t.done = true) (hmem : m' = visit check now (walk check now m (m.before place)) r)
    (hcalls : calls = (m.before place).filter (asks now m) ++ [r]) :
    TickAt check now m m' t calls 0 := by
  obtain ⟨rest, hrefs⟩ := refs_split hplace
  have hupTo : upTo (throws check now m) m.refs = m.before place ++ [r] := by
    rw [hrefs, upTo_throws h hr]
  have hasks : asks now m r = true := by
    rw [throws, Bool.and_eq_true] at hr
    exact hr.1
  have hmem' : m' = walk check now m (upTo (throws check now m) m.refs) := by
    rw [hmem, hupTo, walk_snoc]
  have hcalls' : calls = (upTo (throws check now m) m.refs).filter (asks now m) := by
    rw [hcalls, hupTo, List.filter_append, List.filter_singleton, hasks]
    rfl
  rw [hmem', hcalls']
  exact .finished ht

theorem TickAt.resume_next {place : Nat} (h : ∀ r ∈ m.before place, throws check now m r = false) :
    ∃ n' < 4 * (m.intents.entries.length - place) + 4, TickAt (o := o) check now m
      ((code (.next place now)).advance (walk check now m (m.before place))).1
      (Task.next (M := machine o) (.next place now)
        ((code (.next place now)).advance (walk check now m (m.before place))).2)
      ((m.before place).filter (asks now m)) n' := by
  rw [advance_next, walk_intents]
  cases hplace : m.intents.entries[place]? with
  | none =>
    have hall := before_end hplace
    refine ⟨0, Nat.succ_pos _, ?_⟩
    have hfinished := @TickAt.finished o check now m ⟨Label.next place now, .ret none⟩ rfl
    rw [← hall, upTo_all h] at hfinished
    exact hfinished
  | some entry =>
    have hlt : place < m.intents.entries.length := (List.getElem?_eq_some_iff.mp hplace).1
    cases entry with
    | none =>
      have hbefore := before_hole hplace
      refine ⟨4 * (m.intents.entries.length - (place + 1)) + 4, by omega, ?_⟩
      have hnext := @TickAt.next o check now m (place + 1) (by rwa [hbefore])
      rw [hbefore] at hnext
      exact hnext
    | some p => exact ⟨_, by omega, .visits h hplace⟩

theorem TickAt.resume_visit (hm : m.Keyed) {place : Nat} {k : Str} {r : Ref}
    (h : ∀ r ∈ m.before place, throws check now m r = false)
    (hplace : m.intents.entries[place]? = some (some (k, r))) :
    ∃ n' < 4 * (m.intents.entries.length - place) + 3, TickAt (o := o) check now m
      ((code (.visit r place now)).advance (walk check now m (m.before place))).1
      (Task.next (M := machine o) (.visit r place now)
        ((code (.visit r place now)).advance (walk check now m (m.before place))).2)
      ((m.before place).filter (asks now m)) n' := by
  have hlt : place < m.intents.entries.length := (List.getElem?_eq_some_iff.mp hplace).1
  have hahead := heap_ahead check now hm hplace
  obtain ⟨intent, hr, -⟩ := hm k r (JsMap.mem_pairs.mpr (List.mem_of_getElem? hplace))
  have hcalm : asks now m r = false → throws check now m r = false := fun hasks => by
    rw [throws, hasks, Bool.false_and]
  rw [hr] at hahead
  rw [advance_visit, hahead]
  dsimp only
  unfold evaluate
  split_ifs with hstate hdue
  · have hasks : asks now m r = false := by simp [asks, hr, hstate]
    have hpass : visit check now (walk check now m (m.before place)) r =
        walk check now m (m.before place) := by
      refine visit_unarmed fun i hi => ?_
      rw [hahead, Option.some.injEq] at hi
      exact hi ▸ hstate
    refine ⟨_, ?_, .step h hplace (hcalm hasks) hpass.symm (by simp [hasks])⟩
    omega
  · have hasks : asks now m r = false := by simp [asks, hr, not_lt.mpr hdue]
    refine ⟨_, ?_, .step h hplace (hcalm hasks)
      (visit_expired hahead (not_not.mp hstate) hdue).symm (by simp [hasks])⟩
    omega
  · rw [check_bind]
    have hasks := (asks_iff hr).mpr ⟨not_not.mp hstate, not_le.mp hdue⟩
    exact ⟨_, by omega, .checks h hplace hr hasks⟩

theorem TickAt.resume_answered (hm : m.Keyed) {place : Nat} {k : Str} {r : Ref} {intent : Intent}
    {fired : Bool} (h : ∀ r ∈ m.before place, throws check now m r = false)
    (hplace : m.intents.entries[place]? = some (some (k, r)))
    (hr : m.heap[r]? = some intent) (hasks : asks now m r = true) (hc : check r = .ok fired) :
    ∃ n' < 4 * (m.intents.entries.length - place) + 1, TickAt (o := o) check now m
      ((settled r place now intent.trigger (.ok fired)).advance
        (walk check now m (m.before place))).1
      (Task.next (M := machine o) (.visit r place now)
        ((settled r place now intent.trigger (.ok fired)).advance
          (walk check now m (m.before place))).2)
      ((m.before place).filter (asks now m) ++ [r]) n' := by
  have hlt : place < m.intents.entries.length := (List.getElem?_eq_some_iff.mp hplace).1
  have hahead := heap_ahead check now hm hplace
  have hasks' : asks now (walk check now m (m.before place)) r = true :=
    (asks_congr hahead).trans hasks
  rw [hr] at hahead
  have hthrows : throws check now m r = (fired && !(describeTrigger intent.trigger).isOk) := by
    simp [throws, hasks, hc, hr]
  cases fired with
  | false =>
    refine ⟨_, ?_, .step h hplace hthrows (visit_calm hahead hasks' (by simp [hc])).symm
      (by simp [hasks])⟩
    omega
  | true =>
    have hvisit := visit_fired hahead hasks' hc
    have hadv : (settled r place now intent.trigger (.ok true)).advance
        (walk check now m (m.before place)) =
        (Prog.lift (S := sig) (describeTrigger intent.trigger) >>= fun _ =>
          Prog.ret (some (Label.next (place + 1) now))).advance
            { (walk check now m (m.before place)).update r (Intent.fire now) with
              firedTotal := (walk check now m (m.before place)).firedTotal + 1 } := rfl
    rw [hadv]
    cases hdescribe : describeTrigger intent.trigger with
    | ok u =>
      refine ⟨_, ?_, .step h hplace (hthrows.trans (by rw [hdescribe]; rfl)) hvisit.symm
        (by simp [hasks])⟩
      omega
    | error e =>
      exact ⟨0, by omega, .stop h hplace (hthrows.trans (by rw [hdescribe]; rfl)) rfl hvisit.symm
        rfl⟩

/-- **The tick goes on** from where it stands to its next check or to its end, and comes closer to
the end with every intent it passes. -/
theorem TickAt.resume (hm : m.Keyed) (h : TickAt check now m m' t calls n) :
    ∃ n', TickAt check now m (t.prog.advance m').1 (Task.next t.label (t.prog.advance m').2)
      calls n' ∧ (n' < n ∨ t.done = true ∨ ∃ r place trigger, t = checking o r place now trigger) := by
  cases h with
  | called =>
    exact ⟨_, @TickAt.next o check now m 0 (by simp [Memory.before]), Or.inl (by omega)⟩
  | next h =>
    obtain ⟨n', hlt, hat⟩ := TickAt.resume_next (o := o) h
    exact ⟨n', hat, Or.inl hlt⟩
  | visits h hplace =>
    obtain ⟨n', hlt, hat⟩ := TickAt.resume_visit (o := o) hm h hplace
    exact ⟨n', hat, Or.inl hlt⟩
  | checks h hplace hr hasks =>
    exact ⟨_, .checks h hplace hr hasks, Or.inr (Or.inr ⟨_, _, _, rfl⟩)⟩
  | answered h hplace hr hasks hc =>
    obtain ⟨n', hlt, hat⟩ := TickAt.resume_answered (o := o) hm h hplace hr hasks hc
    exact ⟨n', hat, Or.inl hlt⟩
  | finished ht =>
    obtain ⟨hadv, hnext⟩ := Task.advance_of_done (l := t.label) (p := t.prog) ht
      (walk check now m (upTo (throws check now m) m.refs))
    rw [hadv, hnext]
    exact ⟨0, .finished ht, Or.inr (Or.inl ht)⟩

/-- **Its check settles**, with a verdict or an error: the tick still stands at the same intent,
with this check on record. -/
theorem TickAt.perform (hm : m.Keyed) {r : Ref} {place : Nat} {trigger : Trigger}
    (h : TickAt check now m m' (checking o r place now trigger) calls n) :
    ∃ n' < n, TickAt (o := o) check now m m'
      ⟨Label.visit r place now, settled r place now trigger (check r)⟩ (calls ++ [r]) n' := by
  generalize ht : checking o r place now trigger = t at h
  cases h with
  | called => cases ht
  | next h => cases ht
  | visits h hplace => cases ht
  | @checks place k r intent h hplace hr hasks =>
    cases ht
    cases hc : check r with
    | ok fired => exact ⟨_, by omega, .answered h hplace hr hasks hc⟩
    | error e =>
      have hahead := heap_ahead check now hm hplace
      have hcalm : check r ≠ .ok true := by simp [hc]
      have hpass := visit_calm (hahead.trans hr) ((asks_congr hahead).trans hasks) hcalm
      have hthrows : throws check now m r = true := by simp [throws, hasks, hc]
      exact ⟨0, by omega, .stop h hplace hthrows rfl hpass.symm rfl⟩
  | @answered place k r intent fired h hplace hr hasks hc =>
    cases fired with
    | true => cases ht
    | false => cases ht
  | finished hdone =>
    subst ht
    cases hdone

/-- Only a visit waits for something. -/
theorem TickAt.await {l : Label} {op : Op} {k : Except JsError Bool → Prog sig (Option Label)}
    (h : TickAt (o := o) check now m m' ⟨l, .await op k⟩ calls n) : ∃ r place trigger,
      (⟨l, .await op k⟩ : Task (machine o)) = checking o r place now trigger := by
  generalize ht : (⟨l, .await op k⟩ : Task (machine o)) = t at h
  cases h with
  | called => cases ht
  | next h => cases ht
  | visits h hplace => cases ht
  | checks h hplace hr hasks => exact ⟨_, _, _, rfl⟩
  | @answered place k r intent fired h hplace hr hasks hc =>
    cases fired with
    | true => cases ht
    | false => cases ht
  | finished hdone =>
    subst ht
    cases hdone

/-- What it has left when it is over. -/
theorem TickAt.ended (h : TickAt check now m m' t calls n) (ht : t.done = true) :
    m' = walk check now m (upTo (throws check now m) m.refs) ∧
      calls = (upTo (throws check now m) m.refs).filter (asks now m) := by
  cases h with
  | called => cases ht
  | next h => cases ht
  | visits h hplace => cases ht
  | checks h hplace hr hasks => cases ht
  | @answered place k r intent fired h hplace hr hasks hc =>
    cases fired with
    | true => cases ht
    | false => cases ht
  | finished ht => exact ⟨rfl, rfl⟩

variable {i : Nat} {s₀ s s' : Sys o}

/-- The tick stands somewhere in the state. -/
def Standing (check : Ref → Except JsError Bool) (now : ℚ) (m : Memory) (i : Nat) (s : Sys o)
    (calls : List Ref) (n : Nat) : Prop :=
  ∃ t, s.tasks[i]? = some t ∧ TickAt check now m s.mem t calls n

theorem standing_called (check : Ref → Except JsError Bool) (hst : s.step (Event.tick now) = some s₀) :
    Standing check now s.mem s.tasks.length s₀ [] (4 * s.mem.intents.entries.length + 5) := by
  simp only [Event.tick, Async.Sys.step, Option.some.injEq] at hst
  subst hst
  exact ⟨_, List.getElem?_concat_length .., .called⟩

theorem Standing.resumes (hm : m.Keyed) (h : Standing check now m i s calls n) : ∃ s' n',
    s.step (.resume i) = some s' ∧ Standing check now m i s' calls n' ∧
      (n' < n ∨ ∃ t, s.tasks[i]? = some t ∧
        (t.done = true ∨ ∃ r place trigger, t = checking o r place now trigger)) := by
  obtain ⟨t, ht, hat⟩ := h
  obtain ⟨n', hat', hlt⟩ := hat.resume hm
  obtain ⟨l, p⟩ := t
  refine ⟨_, n', by simp only [Async.Sys.step, ht]; rfl, ⟨_, ?_, hat'⟩, ?_⟩
  · exact List.getElem?_set_self (List.getElem?_eq_some_iff.mp ht).1
  · rcases hlt with hlt | hstays
    · exact Or.inl hlt
    · exact Or.inr ⟨_, ht, hstays⟩

theorem Standing.answers (hm : m.Keyed) (h : Standing check now m i s calls n) {r : Ref}
    {place : Nat} {trigger : Trigger} (ht : s.tasks[i]? = some (checking o r place now trigger)) :
    ∃ s' n', s.step (.perform i (check r)) = some s' ∧ n' < n ∧
      Standing check now m i s' (calls ++ [r]) n' := by
  obtain ⟨t, ht', hat⟩ := h
  rw [ht, Option.some.injEq] at ht'
  subst ht'
  obtain ⟨n', hlt, hat'⟩ := hat.perform hm
  have hsettles : ∃ w, world.perform (.check trigger now) (check r) s.world = some (check r, w) := by
    cases check r with
    | ok fired => exact ⟨_, rfl⟩
    | error e => exact ⟨_, rfl⟩
  obtain ⟨w, hw⟩ := hsettles
  have hst : s.step (.perform i (check r)) = some { s with
      world := w
      tasks := s.tasks.set i ⟨Label.visit r place now, settled r place now trigger (check r)⟩ } := by
    simp only [Async.Sys.step, ht, checking, hw]
    rfl
  refine ⟨_, n', hst, hlt, _, ?_, hat'⟩
  exact List.getElem?_set_self (List.getElem?_eq_some_iff.mp ht).1

/-- **Whatever a tick has done that nothing comes between, it stands somewhere** in the walk that
the specification describes, by induction over its events. -/
theorem Ticking.stands (hm : m.Keyed) (h : Ticking check i s₀ calls s)
    (h₀ : Standing check now m i s₀ [] n) : ∃ n', Standing check now m i s calls n' := by
  induction h with
  | start => exact ⟨n, h₀⟩
  | resumes h hst ih =>
    obtain ⟨n', hstands⟩ := ih
    obtain ⟨s', n'', hst', hstands', -⟩ := hstands.resumes hm
    rw [hst, Option.some.injEq] at hst'
    subst hst'
    exact ⟨n'', hstands'⟩
  | @answers calls s s' r place now' op h ha hst ih =>
    obtain ⟨n', hstands⟩ := ih
    have hchecks : ∃ trigger, s.tasks[i]? = some (checking o r place now trigger) := by
      obtain ⟨⟨l, p⟩, ht, hat⟩ := hstands
      unfold Async.Sys.awaiting at ha
      rw [ht] at ha
      cases p with
      | await op' k =>
        obtain ⟨r', place', trigger, heq⟩ := hat.await
        cases heq
        cases ha
        exact ⟨trigger, ht⟩
      | _ => cases ha
    obtain ⟨trigger, ht⟩ := hchecks
    obtain ⟨s'', n'', hst', -, hstands'⟩ := hstands.answers hm ht
    rw [hst, Option.some.injEq] at hst'
    subst hst'
    exact ⟨n'', hstands'⟩

/-- It comes to its end. -/
theorem Standing.finishes (hm : m.Keyed) (h : Standing check now m i s calls n)
    (hrun : Ticking check i s₀ calls s) : ∃ calls' s', Ticking check i s₀ calls' s' ∧
      ∃ t, s'.tasks[i]? = some t ∧ t.done = true := by
  induction n using Nat.strong_induction_on generalizing s calls with
  | _ n ih =>
    obtain ⟨s', n', hst, hstands, hlt | ⟨t, ht, hdone | ⟨r, place, trigger, rfl⟩⟩⟩ := h.resumes hm
    · exact ih n' hlt hstands (.resumes hrun hst)
    · exact ⟨calls, s, hrun, t, ht, hdone⟩
    · obtain ⟨s'', n'', hst', hlt, hstands'⟩ := h.answers hm ht
      exact ih n'' hlt hstands' (.answers hrun (Async.Sys.awaiting_eq ht) hst')

/-- **A tick ends, whatever the checks say**, and whether or not one of them is rejected, since
the walk has finitely many intents before it. -/
theorem tick_ends (check : Ref → Except JsError Bool) (now : ℚ) (hm : s.mem.Keyed) :
    ∃ s' calls, TickRun check now s s' calls := by
  obtain ⟨calls, s', hrun, hdone⟩ :=
    (standing_called check (s := s) rfl).finishes hm .start
  exact ⟨s', calls, _, rfl, hrun, hdone⟩

/-- **It walks the map up to the first intent that throws**, and to its end if there is none; it
has called the checks of those that ask for one, in order. -/
theorem tick_walks (hm : s.mem.Keyed) (h : TickRun check now s s' calls) :
    s'.mem = walk check now s.mem (upTo (throws check now s.mem) s.mem.refs) ∧
      calls = (upTo (throws check now s.mem) s.mem.refs).filter (asks now s.mem) := by
  obtain ⟨s₀, hst, hrun, t, ht, hdone⟩ := h
  obtain ⟨n, t', ht', hat⟩ := hrun.stands hm (standing_called check hst)
  rw [ht, Option.some.injEq] at ht'
  subst ht'
  exact hat.ended hdone

end Run

/-- **One tick evaluates every armed intent once, exactly when no armed intent lies behind one
whose evaluation throws.** -/
theorem tick_evaluates_iff (check : Ref → Except JsError Bool) (now : ℚ) {s : Sys o}
    (hm : s.mem.Keyed) : (∃ s' calls, TickRun check now s s' calls) ∧
      ∀ s' calls, TickRun check now s s' calls →
        (Evaluated check now calls s.mem s'.mem ↔ Unhindered check now s.mem) := by
  refine ⟨tick_ends check now hm, fun s' calls hrun => ?_⟩
  obtain ⟨hmem, hcalls⟩ := tick_walks hm hrun
  rw [hmem, hcalls]
  exact evaluated_iff hm

namespace SampleTick

def first : Str := "0xaa".toList

def second : Str := "0xbb".toList

def intent (commitment : Str) (notBefore deadline : ℚ) : Intent :=
  ⟨commitment, "0x1234".toList, .time notBefore, deadline, .armed, 0, none⟩

/-- Two intents are armed, and the first waits until a time that is no `Date`. -/
def memory (notBefore : ℚ) : Memory where
  intents := ⟨[some (first, 0), some (second, 1)], by decide⟩
  heap := [intent first notBefore 20, intent second 5 10]
  armedTotal := 2
  firedTotal := 0
  now := 10

def state (notBefore : ℚ) : Sys Sample.options := ⟨memory notBefore, ([] : List Seen), []⟩

def late : ℚ := 9000000000000000

/-- It has come, says the check. -/
def yes : Ref → Except JsError Bool := fun _ => .ok true

theorem keyed (notBefore : ℚ) : (memory notBefore).Keyed := by
  intro k r h
  have hmem : (k, r) = (first, 0) ∨ (k, r) = (second, 1) := by simpa [memory, JsMap.pairs] using h
  rcases hmem with heq | heq
  · cases heq
    exact ⟨_, rfl, rfl⟩
  · cases heq
    exact ⟨_, rfl, rfl⟩

end SampleTick

open SampleTick in
/-- Both intents are evaluated: the first fires at the time of the tick and keeps its bytes, and the
second, whose deadline has come, expires without having been asked for. -/
theorem tick_evaluates_iff_sample : ∃ s' calls, TickRun yes 10 (state 5) s' calls ∧
    Evaluated yes 10 calls (memory 5) s'.mem ∧
    s'.mem.heap[0]? = some ((intent first 5 20).fire 10) ∧
    s'.mem.heap[1]? = some ((intent second 5 10).drop .expired) ∧ calls.count 0 = 1 ∧ 1 ∉ calls ∧
    s'.mem.firedTotal = 1 := by
  obtain ⟨⟨s', calls, hrun⟩, hiff⟩ := tick_evaluates_iff yes 10 (s := state 5) (keyed 5)
  have hcalm : Unhindered yes 10 (memory 5) := unhindered_of_calm (by decide +kernel)
  have hevaluated : Evaluated yes 10 calls (memory 5) s'.mem := (hiff s' calls hrun).mpr hcalm
  have hrefs : (memory 5).refs = [0, 1] := rfl
  have hfirst : 0 ∈ (memory 5).refs := by simp [hrefs]
  have hsecond : 1 ∈ (memory 5).refs := by simp [hrefs]
  obtain ⟨hexpired, hunasked⟩ := hevaluated.expired 1 hsecond _ rfl rfl (by decide)
  refine ⟨s', calls, hrun, hevaluated, hevaluated.fired 0 hfirst _ rfl rfl (by decide) rfl,
    hexpired, hevaluated.asked 0 hfirst _ rfl rfl (by decide), hunasked, ?_⟩
  rw [hevaluated.firedTotal]
  decide +kernel

open SampleTick in
/-- **The second intent is past its deadline and keeps its bytes**: the tick has ended at the first
one, which it has marked as fired. -/
theorem tick_leaves_behind : ∃ s' calls,
    TickRun yes 10 (state late) s' calls ∧
    ¬Evaluated yes 10 calls (memory late) s'.mem := by
  obtain ⟨s', calls, hrun⟩ := tick_ends (s := state late) yes 10 (keyed _)
  obtain ⟨hmem, hcalls⟩ := tick_walks (keyed _) hrun
  refine ⟨s', calls, hrun, ?_⟩
  rw [hmem, hcalls]
  refine mt (evaluated_iff (keyed _)).mp ?_
  have hthrows : throws yes 10 (memory late) 0 = true := by decide +kernel
  have hsplit : (memory late).refs = [] ++ 0 :: [1] := rfl
  have harmed : (memory late).Armed 1 := ⟨_, rfl, rfl⟩
  intro hunhindered
  exact (unhindered_split hsplit (by simp) hthrows).mp hunhindered 1 (by simp) harmed

end OneSig.Latch
