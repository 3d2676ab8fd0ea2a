/-
# The life of an intent

An intent is armed, and ends fired and collected, cancelled, or expired.  A tick tests that it is
armed and marks it as fired on the other side of an `await`, so whatever reaches the intent in
between breaks the order: a CANCEL that is acknowledged, or a second tick.  And a COLLECT that
finds the intent collected releases the bytes again.

`Orderly` excludes these and nothing else.  It is a condition on each step and the state it is
taken in, and allows any commands and any number of ticks in progress as long as no two are at one
intent.  Under it the proofs keep two things:

* `Queue`: every task stands somewhere, no two are at the same intent, and the intent a tick is at
  is still armed when the tick writes it;
* `Books`: what was seen of an intent against the state it is in.  A success since its ARM that
  ends an intent finds it closed, one that is collected has its release in what was seen, what
  tells that an intent has fired was seen before anything that ends it, and `firedTotal` counts
  the objects that have fired.

`Books` is kept by the three ways in which an intent is written (`Books.write`, `Books.create`,
`Books.collect`) and by everything that is only seen (`Books.note`); a command and a task that
goes on are each one of these.

`fires_only_from_armed` is the result over every orderly run: no more intents fire than were
armed, nothing is told of an intent after a CANCEL or a COLLECT of it succeeded until a new ARM,
and no step takes an object to fired from anything but armed.  The two runs at the end break it,
each by one step that is not orderly.
-/
import OneSig.Latch.Seal
import OneSig.Latch.Steps

namespace OneSig.Latch

open Async (Task Run)

namespace Lifecycle

variable {o : Options}

/-! ## 1. Orderly runs -/

/-- The intent a command names. -/
def target (o : Options) (m : Memory) (msg : Str) : Option (Ref × Intent) :=
  (namedCommitment o.engine msg).toOption.bind m.lookup

/-- The intent a pending task takes up next. -/
def taking (m : Memory) (t : Task (machine o)) : Option Ref :=
  if t.done then none
  else match (t.label : Label) with
    | .next place _ => (m.intents.entries[place]?).join.map Prod.snd
    | _ => none

/-- A tick is at an intent. -/
def held (s : Sys o) (r : Ref) : Bool := s.tasks.any fun t => visiting t = some r

/-- Tasks are ticks, and nothing restarts. -/
def plain : Event o → Bool
  | .spawn l =>
    match (l : Label) with
    | .tick _ => true
    | _ => false
  | .crash => false
  | _ => true

/-- No CANCEL is handled for an intent that a tick is at, and no other tick takes it up. -/
def undisturbed (s : Sys o) : Event o → Bool
  | .resume i => ((s.tasks[i]?).bind (taking s.mem)).all fun r => !held s r
  | .outside x =>
    match (x : Ext) with
    | .request .cancel msg => (target o s.mem msg).all fun p => !held s p.1
    | _ => true
  | _ => true

/-- No COLLECT is delivered for an intent that was collected before. -/
def uncollected (s : Sys o) : Event o → Bool
  | .outside x =>
    match (x : Ext) with
    | .request .collect msg => (target o s.mem msg).all fun p => p.2.state ≠ .collected
    | _ => true
  | _ => true

def Orderly (e : Event o) (s : Sys o) : Prop :=
  plain e = true ∧ undisturbed s e = true ∧ uncollected s e = true

instance (e : Event o) (s : Sys o) : Decidable (Orderly e s) :=
  inferInstanceAs (Decidable (plain e = true ∧ undisturbed s e = true ∧ uncollected s e = true))

/-! ## 2. The ticks -/

/-- Every task stands somewhere, and no two are at the same intent. -/
structure Queue (m : Memory) (tasks : List (Task (machine o))) : Prop where
  shape : ∀ t ∈ tasks, Shape m t
  alone : ∀ (i j : Nat) t t' r, tasks[i]? = some t → tasks[j]? = some t' →
    visiting t = some r → visiting t' = some r → i = j

section Queue

variable {m m' : Memory} {tasks : List (Task (machine o))}

/-- A write from outside spares the intents that ticks are at. -/
theorem Queue.write (h : Queue m tasks)
    (hm : ∀ r, m.Armed r → (∃ t ∈ tasks, visiting t = some r) → m'.Armed r) : Queue m' tasks :=
  ⟨fun t ht => (h.shape t ht).write fun r harmed hr => hm r harmed ⟨t, ht, hr⟩, h.alone⟩

/-- One task goes on: it may write the intent it is at, and take up one that no other is at. -/
theorem Queue.set (h : Queue m tasks) {i : Nat} {t t' : Task (machine o)}
    (ht : tasks[i]? = some t) (hshape : Shape m' t')
    (hm : ∀ r, m.Armed r → visiting t ≠ some r → m'.Armed r)
    (hvisit : ∀ r, visiting t' = some r → visiting t = some r ∨ ∀ u ∈ tasks, visiting u ≠ some r) :
    Queue m' (tasks.set i t') := by
  have hget : ∀ (j : Nat) u, (tasks.set i t')[j]? = some u →
      (j = i ∧ u = t') ∨ (j ≠ i ∧ tasks[j]? = some u) := by
    intro j u hu
    rw [List.getElem?_set] at hu
    by_cases hji : i = j
    · subst hji
      rw [if_pos rfl] at hu
      split at hu
      · exact Or.inl ⟨rfl, (Option.some.inj hu).symm⟩
      · cases hu
    · rw [if_neg hji] at hu
      exact Or.inr ⟨fun e => hji e.symm, hu⟩
  -- the others at an intent keep the new task away from it
  have hother : ∀ (j : Nat) u r, j ≠ i → tasks[j]? = some u → visiting u = some r →
      visiting t' ≠ some r := by
    intro j u r hji hu hr ht'
    rcases hvisit r ht' with hold | hfree
    · exact hji (h.alone j i u t r hu ht hr hold)
    · exact hfree u (List.mem_of_getElem? hu) hr
  refine ⟨?_, ?_⟩
  · intro u hu
    obtain ⟨j, hj⟩ := List.mem_iff_getElem?.mp hu
    rcases hget j u hj with ⟨-, rfl⟩ | ⟨hji, hj⟩
    · exact hshape
    · refine (h.shape u (List.mem_of_getElem? hj)).write fun r harmed hr => hm r harmed fun hold => ?_
      exact hji (h.alone j i u t r hj ht hr hold)
  · intro j j' u u' r hj hj' hr hr'
    rcases hget j u hj with ⟨rfl, rfl⟩ | ⟨hji, hj₁⟩ <;>
      rcases hget j' u' hj' with ⟨rfl, rfl⟩ | ⟨hji', hj₁'⟩
    · rfl
    · exact absurd hr (hother j' u' r hji' hj₁' hr')
    · exact absurd hr' (hother j u r hji hj₁ hr)
    · exact h.alone j j' u u' r hj₁ hj₁' hr hr'

end Queue

/-! ## 3. What was seen of an intent -/

/-- A success that ends the life of an intent. -/
def ends (o : Options) (k : Str) (e : Seen) : Bool := e.cancels k || e.releases o k

/-- A reply that says that an intent has fired, or gives its bytes. -/
def tells (o : Options) (k : Str) (e : Seen) : Bool := e.saysFired o k || e.releases o k

def Closed (intent : Intent) : Prop :=
  intent.state = .cancelled ∨ intent.state = .collected

/-- The intent counts in `firedTotal`. -/
def hasFired (intent : Intent) : Bool := intent.state = .fired || intent.state = .collected

/-- What tells of an intent was seen before anything that ends it. -/
def Fresh (o : Options) (e : Seen) (earlier : List Seen) : Prop :=
  ∀ k, tells o k e = true → ∀ e' ∈ sinceArm o k earlier, ends o k e' = false

structure Books (o : Options) (m : Memory) (seen : List Seen) : Prop where
  sound : m.Sound o
  counted : m.firedTotal = m.heap.countP hasFired
  ended : ∀ k r intent, m.lookup k = some (r, intent) →
    ∀ e ∈ sinceArm o k seen, ends o k e = true → Closed intent
  released : ∀ k r intent, m.lookup k = some (r, intent) → intent.state = .collected →
    ∃ e ∈ sinceArm o k seen, e.releases o k = true
  told : Throughout (Fresh o) seen

theorem countP_modify {α : Type} (p : α → Bool) (f : α → α) {l : List α} {r : Nat} {a : α}
    (h : l[r]? = some a) : (l.modify r f).countP p + (if p a then 1 else 0) =
      l.countP p + (if p (f a) then 1 else 0) := by
  induction l generalizing r with
  | nil => simp at h
  | cons b l ih =>
    cases r with
    | zero =>
      simp only [List.getElem?_cons_zero, Option.some.injEq] at h
      subst h
      rw [List.modify_zero_cons, List.countP_cons, List.countP_cons]
      omega
    | succ r =>
      have htail := ih (by simpa using h)
      rw [List.modify_succ_cons, List.countP_cons, List.countP_cons]
      omega

section Books

variable {m : Memory} {seen : List Seen}

theorem lookup_update {r r' : Ref} {f : Intent → Intent} {k : Str} {intent : Intent}
    (h : (m.update r f).lookup k = some (r', intent)) :
    (r' = r ∧ ∃ old, m.lookup k = some (r, old) ∧ intent = f old) ∨
      (r' ≠ r ∧ m.lookup k = some (r', intent)) := by
  obtain ⟨hk, hr⟩ := Memory.lookup_eq_some.mp h
  rw [Memory.update_heap] at hr
  split at hr
  case isTrue heq =>
    subst heq
    obtain ⟨old, hold, rfl⟩ := Option.map_eq_some_iff.mp hr
    exact Or.inl ⟨rfl, old, Memory.lookup_eq_some.mpr ⟨hk, hold⟩, rfl⟩
  case isFalse hne =>
    exact Or.inr ⟨fun e => hne e.symm, Memory.lookup_eq_some.mpr ⟨hk, hr⟩⟩

/-- A tick or a CANCEL writes an armed intent. -/
theorem Books.write (h : Books o m seen) {r : Ref} {intent : Intent} {f : Intent → Intent}
    {total : Nat} (hr : m.heap[r]? = some intent) (harmed : intent.state = .armed)
    (hf : ∀ i : Intent, i.Kept (f i)) (hstate : (f intent).state ≠ .collected)
    (htotal : total = m.firedTotal + if hasFired (f intent) then 1 else 0) :
    Books o { m.update r f with firedTotal := total } seen := by
  have hsound := h.sound.update (r := r) hf
  have hlookup : ∀ k r' i, Memory.lookup { m.update r f with firedTotal := total } k = some (r', i) →
      (r' = r ∧ ∃ old, m.lookup k = some (r, old) ∧ i = f old) ∨
        (r' ≠ r ∧ m.lookup k = some (r', i)) := fun k r' i hk => lookup_update hk
  refine ⟨⟨hsound.refs, hsound.hashed, hsound.counted⟩, ?_, ?_, ?_, h.told⟩
  · have hcount := countP_modify hasFired f hr
    have hnot : hasFired intent = false := by simp [hasFired, harmed]
    rw [hnot] at hcount
    simp only [Bool.false_eq_true, if_false, Nat.add_zero] at hcount
    have hheap : (m.update r f).heap = m.heap.modify r f := rfl
    dsimp only
    rw [htotal, hheap, hcount, h.counted]
  · intro k r' i hk e he hends
    rcases hlookup k r' i hk with ⟨rfl, old, hold, rfl⟩ | ⟨-, hold⟩
    · -- nothing has ended an armed intent
      obtain ⟨-, hr'⟩ := Memory.lookup_eq_some.mp hold
      rw [hr, Option.some.injEq] at hr'
      subst hr'
      rcases h.ended k _ _ hold e he hends with hc | hc
      · rw [harmed] at hc
        cases hc
      · rw [harmed] at hc
        cases hc
    · exact h.ended k r' i hold e he hends
  · intro k r' i hk hcollected
    rcases hlookup k r' i hk with ⟨rfl, old, hold, rfl⟩ | ⟨-, hold⟩
    · obtain ⟨-, hr'⟩ := Memory.lookup_eq_some.mp hold
      rw [hr, Option.some.injEq] at hr'
      subst hr'
      exact absurd hcollected hstate
    · exact h.released k r' i hold hcollected

/-- Something is seen that creates no intent. -/
theorem Books.note (h : Books o m seen) {e : Seen} (hcreated : e.created o = none)
    (hends : ∀ k r intent, m.lookup k = some (r, intent) → ends o k e = true → Closed intent)
    (htells : Fresh o e seen) : Books o m (e :: seen) := by
  have hsince : ∀ k, sinceArm o k (e :: seen) = e :: sinceArm o k seen :=
    fun k => sinceArm_of_none seen (creates_none hcreated)
  refine ⟨h.sound, h.counted, ?_, ?_, h.told.cons htells⟩
  · intro k r intent hk e' he'
    rw [hsince] at he'
    rcases List.mem_cons.mp he' with rfl | hold
    · exact hends k r intent hk
    · exact h.ended k r intent hk e' hold
  · intro k r intent hk hcollected
    obtain ⟨e', he', hr⟩ := h.released k r intent hk hcollected
    rw [hsince]
    exact ⟨e', List.mem_cons_of_mem e he', hr⟩

/-- An ARM stores a new intent. -/
theorem Books.create (h : Books o m seen) {e : Seen} {req : ArmRequest}
    (hcreated : e.created o = some req) (hends : ∀ k, ends o k e = false)
    (htells : ∀ k, tells o k e = false)
    (hhash : o.viem.keccak256 req.userOpData = .ok req.commitment) :
    Books o (m.create req) (e :: seen) := by
  have hnew : ∀ k r intent, (m.create req).lookup k = some (r, intent) →
      (k = req.commitment ∧ intent.state = .armed ∧ sinceArm o k (e :: seen) = []) ∨
        (m.lookup k = some (r, intent) ∧ sinceArm o k (e :: seen) = e :: sinceArm o k seen) := by
    intro k r intent hk
    obtain ⟨hk, hr⟩ := Memory.lookup_eq_some.mp hk
    rcases JsMap.mem_pairs_set.mp hk with ⟨rfl, rfl⟩ | ⟨hne, hk⟩
    · have hcreates : e.creates o req.commitment = some req := by
        simp [Seen.creates, hcreated, Option.filter]
      rcases Memory.create_heap hr with hold | ⟨-, rfl⟩
      · exact absurd (List.getElem?_eq_some_iff.mp hold).1 (Nat.lt_irrefl _)
      · exact Or.inl ⟨rfl, rfl, sinceArm_of_creates seen hcreates⟩
    · have hcreates : e.creates o k = none := by
        simp [Seen.creates, hcreated, Option.filter, Ne.symm hne]
      rw [Memory.create_heap_old (h.sound.ref_lt hk)] at hr
      exact Or.inr ⟨Memory.lookup_eq_some.mpr ⟨hk, hr⟩, sinceArm_of_none seen hcreates⟩
  refine ⟨h.sound.create ⟨_, hhash⟩, ?_, ?_, ?_, h.told.cons fun k hk => ?_⟩
  · simp [Memory.create, List.countP_append, h.counted, hasFired]
  · intro k r intent hk e' he' hend
    rcases hnew k r intent hk with ⟨-, -, hsince⟩ | ⟨hold, hsince⟩
    · rw [hsince] at he'
      cases he'
    · rw [hsince] at he'
      rcases List.mem_cons.mp he' with rfl | he'
      · rw [hends k] at hend
        cases hend
      · exact h.ended k r intent hold e' he' hend
  · intro k r intent hk hcollected
    rcases hnew k r intent hk with ⟨-, harmed, -⟩ | ⟨hold, hsince⟩
    · rw [harmed] at hcollected
      cases hcollected
    · obtain ⟨e', he', hr⟩ := h.released k r intent hold hcollected
      rw [hsince]
      exact ⟨e', List.mem_cons_of_mem e he', hr⟩
  · rw [htells k] at hk
    cases hk

/-- A COLLECT releases a fired intent. -/
theorem Books.collect (h : Books o m seen) {e : Seen} {k : Str} {r : Ref} {intent : Intent}
    (hlookup : m.lookup k = some (r, intent)) (hfired : intent.state = .fired)
    (hcreated : e.created o = none) (hreleases : ∀ k', e.releases o k' = true ↔ k' = k)
    (hcancels : ∀ k', e.cancels k' = false) (hfires : ∀ k', e.saysFired o k' = false) :
    Books o (m.update r Intent.collect) (e :: seen) := by
  obtain ⟨hk, hr⟩ := Memory.lookup_eq_some.mp hlookup
  have hsince : ∀ k, sinceArm o k (e :: seen) = e :: sinceArm o k seen :=
    fun k => sinceArm_of_none seen (creates_none hcreated)
  have hopen : ∀ e' ∈ sinceArm o k seen, ends o k e' = false := by
    intro e' he'
    cases hend : ends o k e' with
    | false => rfl
    | true =>
      rcases h.ended k r intent hlookup e' he' hend with hc | hc
      · rw [hfired] at hc
        cases hc
      · rw [hfired] at hc
        cases hc
  -- the intent of another commitment is another object
  have hother : ∀ k' r' i, (m.update r Intent.collect).lookup k' = some (r', i) →
      (k' = k ∧ i = intent.collect) ∨ (k' ≠ k ∧ m.lookup k' = some (r', i)) := by
    intro k' r' i hk'
    rcases lookup_update hk' with ⟨rfl, old, hold, rfl⟩ | ⟨hne, hold⟩
    · obtain ⟨hk₁, hr₁⟩ := Memory.lookup_eq_some.mp hold
      rw [hr, Option.some.injEq] at hr₁
      subst hr₁
      exact Or.inl ⟨h.sound.ref_unique hk₁ hk, rfl⟩
    · refine Or.inr ⟨?_, hold⟩
      rintro rfl
      rw [hlookup, Option.some.injEq, Prod.mk.injEq] at hold
      exact hne hold.1.symm
  refine ⟨h.sound.update Intent.collect_kept, ?_, ?_, ?_, h.told.cons ?_⟩
  · have hcount := countP_modify hasFired Intent.collect hr
    have hbefore : hasFired intent = true := by simp [hasFired, hfired]
    have hafter : hasFired intent.collect = true := by simp [hasFired, Intent.collect]
    rw [hbefore, hafter] at hcount
    have hheap : (m.update r Intent.collect).heap = m.heap.modify r Intent.collect := rfl
    have htotal : (m.update r Intent.collect).firedTotal = m.firedTotal := rfl
    rw [htotal, hheap, h.counted]
    omega
  · intro k' r' i hk' e' he' hend
    rcases hother k' r' i hk' with ⟨rfl, rfl⟩ | ⟨hne, hold⟩
    · exact Or.inr rfl
    · rw [hsince] at he'
      rcases List.mem_cons.mp he' with rfl | he'
      · rw [ends, hcancels, Bool.false_or, hreleases] at hend
        exact absurd hend hne
      · exact h.ended k' r' i hold e' he' hend
  · intro k' r' i hk' hcollected
    rw [hsince]
    rcases hother k' r' i hk' with ⟨rfl, rfl⟩ | ⟨-, hold⟩
    · exact ⟨e, List.mem_cons_self, (hreleases k').mpr rfl⟩
    · obtain ⟨e', he', hrel⟩ := h.released k' r' i hold hcollected
      exact ⟨e', List.mem_cons_of_mem e he', hrel⟩
  · intro k' hk'
    rw [tells, hfires, Bool.false_or, hreleases] at hk'
    subst hk'
    exact hopen

end Books

/-! ## 4. The states of an object -/

/-- What becomes of an intent in one step. -/
inductive Lives : IntentState → IntentState → Prop
  | stays (state : IntentState) : Lives state state
  | fires : Lives .armed .fired
  | ends : Lives .armed .cancelled
  | expires : Lives .armed .expired
  | collects : Lives .fired .collected

/-- Every object lives on. -/
def Steps (m m' : Memory) : Prop :=
  ∀ (r : Ref) (intent : Intent), m.heap[r]? = some intent →
    ∃ intent', m'.heap[r]? = some intent' ∧ Lives intent.state intent'.state

theorem Steps.refl (m : Memory) : Steps m m :=
  fun _ intent h => ⟨intent, h, .stays _⟩

theorem Steps.update {m : Memory} {r : Ref} {f : Intent → Intent} (total : Nat)
    (h : ∀ intent, m.heap[r]? = some intent → Lives intent.state (f intent).state) :
    Steps m { m.update r f with firedTotal := total } := by
  intro j intent hj
  dsimp only
  rw [Memory.update_heap]
  split
  case isTrue heq =>
    subst heq
    exact ⟨f intent, by rw [hj]; rfl, h intent hj⟩
  case isFalse => exact ⟨intent, hj, .stays _⟩

/-- Armed intents but one stay armed. -/
theorem armed_update {m : Memory} {r j : Ref} {f : Intent → Intent} (total : Nat)
    (h : m.Armed j) (hne : r ≠ j) : Memory.Armed { m.update r f with firedTotal := total } j := by
  obtain ⟨intent, hj, harmed⟩ := h
  refine ⟨intent, ?_, harmed⟩
  dsimp only
  rw [Memory.update_heap, if_neg hne]
  exact hj

/-! ## 5. A command -/

section Request

variable {m : Memory} {seen : List Seen}

/-- The commitments of the map are in lower case. -/
theorem key_lower (hv : o.viem.Lawful) (hm : m.Sound o) {k : Str} {r : Ref} {intent : Intent}
    (h : m.lookup k = some (r, intent)) : toLowerCase k = k := by
  obtain ⟨hk, -⟩ := Memory.lookup_eq_some.mp h
  obtain ⟨intent', hr, rfl⟩ := hm.refs k r hk
  obtain ⟨b, hb⟩ := hm.hashed intent' (List.mem_of_getElem? hr)
  exact (hv.keccak256_shape b _ hb).toLowerCase_eq

theorem Quiet.ends_tells {e : Seen} (h : Quiet o e) (k : Str) :
    ends o k e = false ∧ tells o k e = false := by
  obtain ⟨hcancels, hreleases, hfires⟩ := h.2 k
  simp [ends, tells, hcancels, hreleases, hfires]

/-- A STATUS that says fired has found the intent fired. -/
theorem status_tells (hv : o.viem.Lawful) (hm : m.Sound o) {msg named k k' : Str} {r : Ref}
    {intent : Intent} {firedAt : Option ℚ} (hname : namedCommitment o.engine msg = .ok named)
    (hkey : k = toLowerCase named ∨ k = named) (hlookup : m.lookup k = some (r, intent))
    (htells : tells o k' (.reply .status msg
      (ok (.status intent.state intent.armedAt intent.deadline firedAt))) = true) :
    m.lookup k' = some (r, intent) ∧ intent.state = .fired := by
  simp only [tells, Seen.releases, Bool.or_false] at htells
  cases hstate : intent.state with
  | fired =>
    simp only [hstate, Seen.saysFired, ok, hname, Except.map, decide_eq_true_eq,
      Except.ok.injEq] at htells
    refine ⟨?_, rfl⟩
    rcases hkey with rfl | rfl
    · rw [← htells]
      exact hlookup
    · rw [← htells, key_lower hv hm hlookup]
      exact hlookup
  | _ => simp [hstate, Seen.saysFired, ok] at htells

/-- Nothing has ended an intent that is fired. -/
theorem fired_open (h : Books o m seen) {k : Str} {r : Ref} {intent : Intent}
    (hlookup : m.lookup k = some (r, intent)) (hfired : intent.state = .fired) :
    ∀ e ∈ sinceArm o k seen, ends o k e = false := by
  intro e he
  cases hend : ends o k e with
  | false => rfl
  | true =>
    rcases h.ended k r intent hlookup e he hend with hc | hc
    · rw [hfired] at hc
      cases hc
    · rw [hfired] at hc
      cases hc

/-- What a command tells of an intent is that it has found it fired. -/
theorem request_tells (hv : o.viem.Lawful) (hm : m.Sound o) {command : Command} {msg : Str}
    (hlate : command = .collect → ∀ p ∈ target o m msg, p.2.state ≠ .collected) {k : Str}
    (htells : tells o k (.reply command msg (handle o command msg m).2) = true) :
    ∃ r intent, m.lookup k = some (r, intent) ∧ intent.state = .fired := by
  have hdo := handled o command msg m
  generalize (handle o command msg m).1 = m' at hdo
  generalize (handle o command msg m).2 = result at hdo htells
  cases hdo with
  | quiet hquiet =>
    rw [(Quiet.ends_tells hquiet k).2] at htells
    cases htells
  | created hreq hnew hcreated => cases htells
  | status hname hkey hlookup => exact ⟨_, _, status_tells hv hm hname hkey hlookup htells⟩
  | cancelled hname hlookup harmed => cases htells
  | @collected _ k' r intent hname hlookup hstate =>
    have htarget : (r, intent) ∈ target o m msg := by
      simp [target, hname, Except.toOption, hlookup]
    obtain rfl : k' = k := by simpa [tells, Seen.saysFired, Seen.releases, ok, hname] using htells
    exact ⟨r, intent, hlookup, hstate.resolve_right (hlate rfl _ htarget)⟩

/-- The map keeps an object until an ARM replaces it. -/
theorem request_lookup {command : Command} {msg k : Str} {r : Ref} {intent : Intent}
    (hlookup : m.lookup k = some (r, intent))
    (hcreates : (Seen.reply command msg (handle o command msg m).2).creates o k = none) :
    (k, r) ∈ (handle o command msg m).1.intents.pairs := by
  obtain ⟨hk, -⟩ := Memory.lookup_eq_some.mp hlookup
  have hdo := handled o command msg m
  generalize (handle o command msg m).1 = m' at hdo ⊢
  generalize (handle o command msg m).2 = result at hdo hcreates
  cases hdo with
  | @created _ req _ hreq hnew hcreated =>
    refine JsMap.mem_pairs_set.mpr (Or.inr ⟨?_, hk⟩)
    rintro rfl
    simp [Seen.creates, hcreated, Option.filter] at hcreates
  | _ => exact hk

/-- **A command keeps the books** when no COLLECT comes too late, that is for an intent whose
bytes have been released before; every object only moves on. -/
theorem request_books (hv : o.viem.Lawful) (h : Books o m seen) (command : Command) (msg : Str)
    (hlate : command = .collect → ∀ p ∈ target o m msg, p.2.state ≠ .collected) :
    Books o (handle o command msg m).1 (.reply command msg (handle o command msg m).2 :: seen) ∧
      Steps m (handle o command msg m).1 := by
  have hdo := handled o command msg m
  generalize (handle o command msg m).1 = m' at hdo ⊢
  generalize (handle o command msg m).2 = result at hdo ⊢
  cases hdo with
  | quiet hquiet =>
    refine ⟨h.note hquiet.1 ?_ ?_, .refl m⟩
    · intro k r intent _ hend
      rw [(Quiet.ends_tells hquiet k).1] at hend
      cases hend
    · intro k htells
      rw [(Quiet.ends_tells hquiet k).2] at htells
      cases htells
  | created hreq hnew hcreated =>
    refine ⟨h.create hcreated (fun _ => rfl) (fun _ => rfl) (parseArm_hash hreq).1, ?_⟩
    intro r intent hr
    refine ⟨intent, ?_, .stays _⟩
    rw [Memory.create_heap_old (List.getElem?_eq_some_iff.mp hr).1]
    exact hr
  | status hname hkey hlookup =>
    refine ⟨h.note rfl (fun _ _ _ _ hend => by cases hend) fun k' htells => ?_, .refl m⟩
    obtain ⟨hlookup', hfired⟩ := status_tells hv h.sound hname hkey hlookup htells
    exact fired_open h hlookup' hfired
  | @cancelled _ k r intent hname hlookup harmed =>
    obtain ⟨-, hr⟩ := Memory.lookup_eq_some.mp hlookup
    have hw : Books o { m.update r (Intent.drop .cancelled) with firedTotal := m.firedTotal }
        seen := h.write hr harmed (Intent.drop_kept .cancelled) (by simp [Intent.drop])
      (by simp [hasFired, Intent.drop])
    refine ⟨hw.note rfl ?_ (fun _ htells => by cases htells), ?_⟩
    · intro k' r' i hk' hend
      obtain rfl : k = k' := by simpa [ends, Seen.cancels, Seen.releases, ok] using hend
      have hupdate : (m.update r (Intent.drop .cancelled)).lookup k = some (r', i) := hk'
      rcases lookup_update hupdate with ⟨-, old, -, rfl⟩ | ⟨hne, hold⟩
      · exact Or.inl rfl
      · rw [hlookup, Option.some.injEq, Prod.mk.injEq] at hold
        exact absurd hold.1.symm hne
    · refine Steps.update m.firedTotal fun i hi => ?_
      rw [hr, Option.some.injEq] at hi
      rw [← hi, harmed]
      exact .ends
  | @collected _ k r intent hname hlookup hstate =>
    obtain ⟨-, hr⟩ := Memory.lookup_eq_some.mp hlookup
    have htarget : (r, intent) ∈ target o m msg := by
      simp [target, hname, Except.toOption, hlookup]
    have hfired : intent.state = .fired := hstate.resolve_right (hlate rfl _ htarget)
    refine ⟨h.collect hlookup hfired rfl ?_ (fun _ => rfl) (fun _ => rfl), ?_⟩
    · intro k'
      simp [Seen.releases, ok, hname, eq_comm]
    · refine Steps.update m.firedTotal fun i hi => ?_
      rw [hr, Option.some.injEq] at hi
      rw [← hi, hfired]
      exact .collects

/-- A command spares the intents that ticks are at. -/
theorem request_armed {command : Command} {msg : Str} {r : Ref} (harmed : m.Armed r)
    (hfree : command = .cancel → ∀ p ∈ target o m msg, p.1 ≠ r) :
    (handle o command msg m).1.Armed r := by
  have hdo := handled o command msg m
  generalize (handle o command msg m).1 = m' at hdo ⊢
  generalize (handle o command msg m).2 = result at hdo
  cases hdo with
  | quiet hquiet => exact harmed
  | created hreq hnew hcreated =>
    obtain ⟨intent, hr, hstate⟩ := harmed
    refine ⟨intent, ?_, hstate⟩
    rw [Memory.create_heap_old (List.getElem?_eq_some_iff.mp hr).1]
    exact hr
  | status hname hkey hlookup => exact harmed
  | @cancelled _ k r' intent hname hlookup hstate =>
    have htarget : (r', intent) ∈ target o m msg := by
      simp [target, hname, Except.toOption, hlookup]
    exact armed_update m.firedTotal harmed (hfree rfl _ htarget)
  | @collected _ k r' intent hname hlookup hstate =>
    refine armed_update m.firedTotal harmed ?_
    rintro rfl
    obtain ⟨-, hr⟩ := Memory.lookup_eq_some.mp hlookup
    obtain ⟨i, hi, harmed⟩ := harmed
    rw [hr, Option.some.injEq] at hi
    rw [← hi] at harmed
    rcases hstate with hstate | hstate
    · rw [harmed] at hstate
      cases hstate
    · rw [harmed] at hstate
      cases hstate

end Request

/-! ## 6. An event -/

/-- What is kept along an orderly run. -/
structure Inv (s : Sys o) : Prop where
  books : Books o s.mem s.seen
  queue : Queue s.mem s.tasks

theorem inv_fresh (now : ℚ) : Inv (Sys.fresh o now) where
  books := by
    refine ⟨Memory.boot_sound o now, rfl, ?_, ?_, .nil _⟩
    · intro k r intent h
      cases h
    · intro k r intent h
      cases h
  queue := ⟨by simp [Sys.fresh], by simp [Sys.fresh]⟩

section Step

variable {s s' : Sys o}

theorem spawn_queue {m : Memory} {tasks : List (Task (machine o))} (h : Queue m tasks) (now : ℚ) :
    Queue m (tasks ++ [Task.start (M := machine o) (.tick now)]) := by
  have hget : ∀ (j : Nat) u r, (tasks ++ [Task.start (M := machine o) (.tick now)])[j]? = some u →
      visiting u = some r → tasks[j]? = some u := by
    intro j u r hj hr
    rcases Nat.lt_or_ge j tasks.length with hlt | hge
    · rw [List.getElem?_append_left hlt] at hj
      exact hj
    · rw [List.getElem?_append_right hge, List.getElem?_singleton] at hj
      split at hj
      · rw [← Option.some.inj hj] at hr
        cases hr
      · cases hj
  refine ⟨?_, ?_⟩
  · intro u hu
    rcases List.mem_append.mp hu with hu | hu
    · exact h.shape u hu
    · rw [List.mem_singleton.mp hu]
      exact .start _
  · intro i j u u' r hi hj hr hr'
    exact h.alone i j u u' r (hget i u r hi hr) (hget j u' r hj hr') hr hr'

/-- An armed intent is written by the tick that is at it. -/
theorem written (h : Books o s.mem s.seen) {r : Ref} (harmed : s.mem.Armed r)
    {f : Intent → Intent} {total : Nat} (hf : ∀ i : Intent, i.Kept (f i))
    (hstate : ∀ i : Intent, (f i).state ≠ .collected)
    (htotal : ∀ i : Intent, total = s.mem.firedTotal + if hasFired (f i) then 1 else 0)
    (hlives : ∀ i : Intent, i.state = .armed → Lives i.state (f i).state) :
    Books o { s.mem.update r f with firedTotal := total } s.seen ∧
      Steps s.mem { s.mem.update r f with firedTotal := total } := by
  obtain ⟨intent, hr, hstate'⟩ := harmed
  refine ⟨h.write hr hstate' hf (hstate intent) (htotal intent), Steps.update total ?_⟩
  intro i hi
  rw [hr, Option.some.injEq] at hi
  exact hlives i (hi ▸ hstate')

/-- A task that goes on keeps the books and the queue. -/
theorem resumed_inv (h : Inv s) {i : Nat} {t t' : Task (machine o)} {m' : Memory}
    (ht : s.tasks[i]? = some t) (hres : Resumed s.mem t m' t')
    (hfree : ∀ r, taking s.mem t = some r → ∀ u ∈ s.tasks, visiting u ≠ some r) :
    (Books o m' s.seen ∧ Queue m' (s.tasks.set i t')) ∧ Steps s.mem m' := by
  have hsame : ∀ r, s.mem.Armed r → visiting t ≠ some r → s.mem.Armed r := fun _ h _ => h
  cases hres with
  | finished hover =>
    exact ⟨⟨h.books, h.queue.set ht (.finished hover) hsame fun r hr => Or.inl hr⟩, .refl _⟩
  | waits place now trigger harmed =>
    exact ⟨⟨h.books, h.queue.set ht (.checking place now trigger harmed) hsame
      fun r hr => Or.inl hr⟩, .refl _⟩
  | next l place now hl =>
    exact ⟨⟨h.books, h.queue.set ht (.start _) hsame fun r hr => by cases hr⟩, .refl _⟩
  | ends place now =>
    exact ⟨⟨h.books, h.queue.set ht (.finished rfl) hsame fun r hr => by cases hr⟩, .refl _⟩
  | @visits r place k now hplace =>
    refine ⟨⟨h.books, h.queue.set ht (.start _) hsame fun r' hr' => Or.inr ?_⟩, .refl _⟩
    obtain rfl : r = r' := Option.some.inj hr'
    have htaking : taking s.mem (Task.start (M := machine o) (.next place now)) =
        (s.mem.intents.entries[place]?).join.map Prod.snd := rfl
    exact hfree r (by rw [htaking, hplace]; rfl)
  | passes r place now =>
    exact ⟨⟨h.books, h.queue.set ht (.start _) hsame fun r hr => by cases hr⟩, .refl _⟩
  | @expires r place now harmed =>
    obtain ⟨hbooks, hsteps⟩ := written h.books harmed (f := Intent.drop .expired)
      (Intent.drop_kept .expired) (by simp [Intent.drop])
      (fun _ => (Nat.add_zero s.mem.firedTotal).symm)
      (fun i hi => by rw [hi]; exact .expires)
    refine ⟨⟨hbooks, h.queue.set ht (.start _) ?_ fun r hr => by cases hr⟩, hsteps⟩
    intro r' harmed' hne
    exact armed_update s.mem.firedTotal harmed' fun e => hne (e ▸ rfl)
  | checks place now trigger harmed =>
    exact ⟨⟨h.books, h.queue.set ht (.checking place now trigger harmed) hsame
      fun r hr => Or.inl hr⟩, .refl _⟩
  | calm r place now trigger =>
    exact ⟨⟨h.books, h.queue.set ht (.start _) hsame fun r hr => by cases hr⟩, .refl _⟩
  | @fires r place now trigger _ harmed hend =>
    obtain ⟨hbooks, hsteps⟩ := written h.books harmed (f := Intent.fire now)
      (Intent.fire_kept now) (by simp [Intent.fire]) (fun _ => rfl)
      (fun i hi => by rw [hi]; exact .fires)
    refine ⟨⟨hbooks, h.queue.set ht ?_ ?_ ?_⟩, hsteps⟩
    · rcases hend with rfl | hover
      · exact .start _
      · exact .finished hover
    · intro r' harmed' hne
      exact armed_update (s.mem.firedTotal + 1) harmed' fun e => hne (e ▸ rfl)
    · intro r' hr'
      rcases hend with rfl | hover
      · cases hr'
      · rw [visiting, hover] at hr'
        cases hr'

theorem held_false {r : Ref} (h : held s r = false) : ∀ u ∈ s.tasks, visiting u ≠ some r := by
  intro u hu hr
  have := List.any_eq_false.mp h u hu
  simp [hr] at this

/-- No COLLECT comes too late. -/
theorem Orderly.collect {command : Command} {msg : Str}
    (h : Orderly (.outside (Ext.request command msg)) s) :
    command = .collect → ∀ p ∈ target o s.mem msg, p.2.state ≠ .collected := by
  rintro rfl p hp
  have hall : (target o s.mem msg).all (fun p => p.2.state ≠ .collected) = true := h.2.2
  rw [hp] at hall
  simpa using hall

/-- A command or the passing of time keeps the books and the queue. -/
theorem outside_inv (hv : o.viem.Lawful) (h : Inv s) (x : Ext)
    (hok : Orderly (.outside x) s) :
    (Books o (outside o x s.mem s.seen).1 (outside o x s.mem s.seen).2 ∧
      Queue (outside o x s.mem s.seen).1 s.tasks) ∧ Steps s.mem (outside o x s.mem s.seen).1 := by
  cases x with
  | request command msg =>
    obtain ⟨hbooks, hsteps⟩ := request_books hv h.books command msg hok.collect
    refine ⟨⟨hbooks, h.queue.write fun r harmed ⟨t, ht, hr⟩ => request_armed harmed ?_⟩, hsteps⟩
    rintro rfl p hp rfl
    have hall : (target o s.mem msg).all (fun p => !held s p.1) = true := hok.2.1
    rw [hp] at hall
    exact held_false (by simpa using hall) t ht hr
  | state =>
    exact ⟨⟨h.books.note rfl (fun _ _ _ _ hend => by cases hend) (fun _ htells => by cases htells),
      h.queue⟩, .refl _⟩
  | clock now =>
    exact ⟨⟨⟨⟨h.books.sound.refs, h.books.sound.hashed, h.books.sound.counted⟩, h.books.counted,
      h.books.ended, h.books.released, h.books.told⟩, h.queue.write fun _ harmed _ => harmed⟩,
      .refl _⟩

/-- **An orderly event keeps the books and the queue**, and every object lives on: commands, ticks
and the checks that ticks wait for. -/
theorem Inv.step (hv : o.viem.Lawful) (h : Inv s) {e : Event o} (hok : Orderly e s)
    (hst : s.step e = some s') : Inv s' ∧ Steps s.mem s'.mem := by
  cases e with
  | spawn l =>
    simp only [Async.Sys.step, Option.some.injEq] at hst
    subst hst
    obtain ⟨hplain, -⟩ := hok
    cases l with
    | tick now => exact ⟨⟨h.books, spawn_queue h.queue now⟩, .refl _⟩
    | next place now => cases hplain
    | visit r place now => cases hplain
  | perform i c =>
    simp only [Async.Sys.step] at hst
    split at hst
    case h_2 => cases hst
    case h_1 l op k ht =>
      obtain ⟨⟨res, w⟩, hper, rfl⟩ := Option.map_eq_some_iff.mp hst
      obtain ⟨r, place, now, trigger, harmed, hcheck⟩ :=
        Shape.await (h.queue.shape _ (List.mem_of_getElem? ht))
      cases hcheck
      have hvisit : visiting (Latch.checking o r place now trigger) = some r := rfl
      have hsame : ∀ r', s.mem.Armed r' →
          visiting (Latch.checking o r place now trigger) ≠ some r' → s.mem.Armed r' :=
        fun _ h _ => h
      cases c with
      | ok fired =>
        cases hper
        refine ⟨⟨h.books.note rfl (fun _ _ _ _ hend => by cases hend)
          (fun _ htells => by cases htells), h.queue.set ht
            (.answered place now trigger fired harmed) hsame fun r' hr' => Or.inl ?_⟩, .refl _⟩
        exact hvisit.trans ((visiting_answered r place now trigger fired).symm.trans hr')
      | error e =>
        cases hper
        exact ⟨⟨h.books, h.queue.set ht (.finished rfl) hsame fun r' hr' => by cases hr'⟩, .refl _⟩
  | disturb i =>
    simp only [Async.Sys.step] at hst
    split at hst
    · cases hst
    · cases hst
  | resume i =>
    simp only [Async.Sys.step] at hst
    split at hst
    case h_2 => cases hst
    case h_1 l p ht =>
      cases hst
      have hres := (h.queue.shape _ (List.mem_of_getElem? ht)).resumed
      have hfree : ∀ r, taking s.mem ⟨l, p⟩ = some r → ∀ u ∈ s.tasks, visiting u ≠ some r := by
        intro r hr
        have hall : ((s.tasks[i]?).bind (taking s.mem)).all (fun r => !held s r) = true := hok.2.1
        rw [ht, Option.bind_some, hr] at hall
        exact held_false (by simpa using hall)
      obtain ⟨⟨hbooks, hqueue⟩, hsteps⟩ := resumed_inv h ht hres hfree
      exact ⟨⟨hbooks, hqueue⟩, hsteps⟩
  | outside x =>
    simp only [Async.Sys.step, Option.some.injEq] at hst
    subst hst
    obtain ⟨⟨hbooks, hqueue⟩, hsteps⟩ := outside_inv hv h x hok
    exact ⟨⟨hbooks, hqueue⟩, hsteps⟩
  | crash =>
    obtain ⟨hplain, -⟩ := hok
    cases hplain

theorem inv_run (hv : o.viem.Lawful) {now : ℚ} (hrun : Run Orderly (Sys.fresh o now) s) :
    Inv s :=
  hrun.invariant (inv_fresh now) fun _ _ _ h hok hst => (h.step hv hok hst).1

end Step

/-! ## 7. A whole run -/

section Runs

variable {s s' : Sys o}

/-- What can become of an intent in the end. -/
def Follows : IntentState → IntentState → Prop
  | .armed, _ => True
  | .fired, state => state = .fired ∨ state = .collected
  | state, state' => state' = state

theorem Follows.refl (state : IntentState) : Follows state state := by
  cases state <;> simp [Follows]

theorem Follows.lives {a b c : IntentState} (h : Follows a b) (h' : Lives b c) : Follows a c := by
  cases a <;> cases h' <;> simp_all [Follows]

/-- What becomes of the object that the map holds for a commitment. -/
structure Quieted (o : Options) (k : Str) (r : Ref) (intent : Intent) (s s' : Sys o)
    (new : List Seen) : Prop where
  seen : s'.seen = new ++ s.seen
  silent : (∀ e ∈ new, e.creates o k = none) → (k, r) ∈ s'.mem.intents.pairs ∧
    ∀ e ∈ new, tells o k e = false

/-- The map changes by a new ARM only. -/
theorem step_pairs (h : Inv s) {e : Event o} (hst : s.step e = some s')
    (hout : ∀ x, e ≠ .outside x) : s'.mem.intents = s.mem.intents ∨ e = .crash := by
  cases e with
  | spawn l =>
    simp only [Async.Sys.step, Option.some.injEq] at hst
    subst hst
    exact Or.inl rfl
  | perform i c =>
    simp only [Async.Sys.step] at hst
    split at hst
    · obtain ⟨_, -, rfl⟩ := Option.map_eq_some_iff.mp hst
      exact Or.inl rfl
    · cases hst
  | disturb i =>
    simp only [Async.Sys.step] at hst
    split at hst
    · cases hst
    · cases hst
  | resume i =>
    simp only [Async.Sys.step] at hst
    split at hst
    case h_2 => cases hst
    case h_1 l p ht =>
      cases hst
      exact Or.inl (h.queue.shape _ (List.mem_of_getElem? ht)).resumed.intents
  | outside x => exact absurd rfl (hout x)
  | crash => exact Or.inr rfl

/-- **An intent that is over stays silent** until an ARM puts another in its place: it keeps its
state, and nothing that is seen is a release or a firing of it. -/
theorem quieted_run (hv : o.viem.Lawful) (h : Inv s) (hrun : Run Orderly s s') {k : Str} {r : Ref}
    {intent : Intent} (hlookup : s.mem.lookup k = some (r, intent))
    (hover : intent.state ≠ .armed ∧ intent.state ≠ .fired) :
    Inv s' ∧ (∃ i, s'.mem.heap[r]? = some i ∧ i.state = intent.state) ∧
      ∃ new, Quieted o k r intent s s' new := by
  obtain ⟨hk, hr⟩ := Memory.lookup_eq_some.mp hlookup
  refine hrun.invariant (P := fun s' : Sys o => Inv s' ∧
    (∃ i, s'.mem.heap[r]? = some i ∧ i.state = intent.state) ∧
      ∃ new, Quieted o k r intent s s' new)
    ⟨h, ⟨intent, hr, rfl⟩, [], rfl, fun _ => ⟨hk, fun _ he => by cases he⟩⟩ ?_
  rintro s₁ s₂ e ⟨hinv, ⟨i, hi, hstate⟩, new, hseen, hsilent⟩ hok hst
  obtain ⟨hinv', hsteps⟩ := hinv.step hv hok hst
  have hnext : ∃ i', s₂.mem.heap[r]? = some i' ∧ i'.state = intent.state := by
    obtain ⟨i', hi', hlives⟩ := hsteps r i hi
    refine ⟨i', hi', ?_⟩
    rw [hstate] at hlives
    generalize hb : i'.state = b at hlives ⊢
    generalize intent.state = a at hlives hover ⊢
    cases hlives with
    | stays => rfl
    | fires => exact absurd rfl hover.1
    | ends => exact absurd rfl hover.1
    | expires => exact absurd rfl hover.1
    | collects => exact absurd rfl hover.2
  refine ⟨hinv', hnext, ?_⟩
  by_cases hx : ∃ x, e = .outside x
  case neg =>
    have hpairs : s₂.mem.intents = s₁.mem.intents := by
      rcases step_pairs hinv hst fun x hx' => hx ⟨x, hx'⟩ with hp | rfl
      · exact hp
      · exact absurd hok.1 (by simp [plain])
    rcases seen_step hst with hw | ⟨trigger, now, fired, hw⟩ | ⟨x, rfl, -⟩
    · exact ⟨new, hw.trans hseen, fun hnone => hpairs ▸ hsilent hnone⟩
    · refine ⟨.reading trigger now fired :: new, by rw [hw, hseen]; rfl, fun hnone => ?_⟩
      obtain ⟨hk', htells⟩ := hsilent fun e he => hnone e (List.mem_cons_of_mem _ he)
      refine ⟨hpairs ▸ hk', fun e he => ?_⟩
      rcases List.mem_cons.mp he with rfl | he
      · rfl
      · exact htells e he
    · exact absurd ⟨x, rfl⟩ hx
  case pos =>
    obtain ⟨x, rfl⟩ := hx
    simp only [Async.Sys.step, Option.some.injEq] at hst
    subst hst
    cases x with
    | state =>
      refine ⟨.report (reportState s₁.mem) :: new, congrArg _ hseen, fun hnone => ?_⟩
      obtain ⟨hk', htells⟩ := hsilent fun e he => hnone e (List.mem_cons_of_mem _ he)
      refine ⟨hk', fun e he => ?_⟩
      rcases List.mem_cons.mp he with rfl | he
      · rfl
      · exact htells e he
    | clock now => exact ⟨new, hseen, hsilent⟩
    | request command msg =>
      refine ⟨.reply command msg (handle o command msg s₁.mem).2 :: new, congrArg _ hseen,
        fun hnone => ?_⟩
      obtain ⟨hk', htells⟩ := hsilent fun e he => hnone e (List.mem_cons_of_mem _ he)
      have hlookup₁ : s₁.mem.lookup k = some (r, i) := Memory.lookup_eq_some.mpr ⟨hk', hi⟩
      refine ⟨request_lookup hlookup₁ (hnone _ List.mem_cons_self), fun e he => ?_⟩
      rcases List.mem_cons.mp he with rfl | he
      · -- the reply tells of a fired intent, and this one is not
        rw [Bool.eq_false_iff]
        intro htell
        obtain ⟨r', i', hlookup', hfired⟩ :=
          request_tells hv hinv.books.sound hok.collect htell
        rw [hlookup₁, Option.some.injEq, Prod.mk.injEq] at hlookup'
        rw [← hlookup'.2, hstate] at hfired
        exact hover.2 hfired
      · exact htells e he

/-- An object that was over before is as it was; one that is fired was armed or fired. -/
theorem follows_run (hv : o.viem.Lawful) (h : Inv s) (hrun : Run Orderly s s') {r : Ref}
    {intent : Intent} (hr : s.mem.heap[r]? = some intent) :
    ∃ intent', s'.mem.heap[r]? = some intent' ∧ Follows intent.state intent'.state := by
  have hboth : Inv s' ∧ ∃ intent', s'.mem.heap[r]? = some intent' ∧
      Follows intent.state intent'.state := by
    refine hrun.invariant (P := fun s' : Sys o => Inv s' ∧ ∃ intent',
      s'.mem.heap[r]? = some intent' ∧ Follows intent.state intent'.state)
      ⟨h, intent, hr, .refl _⟩ ?_
    rintro s₁ s₂ e ⟨hinv, i, hi, hfollows⟩ hok hst
    obtain ⟨hinv', hsteps⟩ := hinv.step hv hok hst
    obtain ⟨i', hi', hlives⟩ := hsteps r i hi
    exact ⟨hinv', i', hi', hfollows.lives hlives⟩
  exact hboth.2

end Runs

end Lifecycle

open Lifecycle

/-- **An intent fires only from armed** in every orderly run.  No more intents fire than were
armed; nothing is told of an intent after a CANCEL or a COLLECT of it succeeded, before a new
ARM; no step takes an object to fired from anything but armed; and an intent that is cancelled,
expired or collected stays so, and silent, until an ARM replaces it. -/
theorem fires_only_from_armed {o : Options} (hv : o.viem.Lawful) {now : ℚ} {s : Sys o}
    (hrun : Run Orderly (Sys.fresh o now) s) :
    s.mem.firedTotal ≤ s.mem.armedTotal ∧ Throughout (Fresh o) s.seen ∧
    (∀ e s', Orderly e s → s.step e = some s' → Steps s.mem s'.mem) ∧
    ∀ s' : Sys o, Run Orderly s s' →
      (∀ (r : Ref) (intent : Intent), s.mem.heap[r]? = some intent →
        ∃ intent', s'.mem.heap[r]? = some intent' ∧ Follows intent.state intent'.state) ∧
      ∀ k r intent, s.mem.lookup k = some (r, intent) →
        intent.state ≠ .armed ∧ intent.state ≠ .fired → ∃ new, Quieted o k r intent s s' new := by
  have hinv := inv_run hv hrun
  refine ⟨?_, hinv.books.told, fun e s' hok hst => (hinv.step hv hok hst).2, fun s' hrun' => ?_⟩
  · rw [hinv.books.counted, hinv.books.sound.counted]
    exact List.countP_le_length
  · exact ⟨fun r intent hr => follows_run hv hinv hrun' hr,
      fun k r intent hlookup hover => (quieted_run hv hinv hrun' hlookup hover).2.2⟩

namespace Sample

/-- An armed intent whose check is awaited. -/
def suspended : List (Event options) :=
  [.clock 1000, .request .arm armMessage, .clock 6000, .tick 6000, .resume 0, .resume 0, .resume 0]

/-- A CANCEL is acknowledged while the tick waits, and then the check says that it fires. -/
def overtaken : List (Event options) :=
  suspended ++ [.request .cancel namedMessage, .answer 0 true]

/-- A second tick reaches the intent, and both checks say that it fires. -/
def doubled : List (Event options) :=
  suspended ++ [.tick 6000, .resume 1, .resume 1, .resume 1, .answer 0 true, .resume 0,
    .answer 1 true, .resume 1]

end Sample

theorem fires_only_from_armed_sample :
    ∃ s : Sys Sample.options, Async.Sys.runIf Orderly Sample.collected (Sys.fresh _ 0) = some s ∧
      s.mem.firedTotal = 1 ∧ s.mem.firedTotal ≤ s.mem.armedTotal ∧
      Throughout (Fresh Sample.options) s.seen := by
  have hrun : (Async.Sys.runIf Orderly Sample.collected (Sys.fresh Sample.options 0)).map
      (fun s => s.mem.firedTotal) = some 1 := by decide +kernel
  obtain ⟨s, hs, htotal⟩ := Option.map_eq_some_iff.mp hrun
  obtain ⟨hle, hfresh, -⟩ := fires_only_from_armed Sample.viem_lawful (Run.of_runIf _ hs)
  exact ⟨s, hs, htotal, hle, hfresh⟩

/-- **A cancelled intent fires**: the CANCEL was acknowledged, and the next step of the tick takes
the object from cancelled to fired.  And two ticks at one intent count it twice. -/
theorem overtaken_tick_fires_cancelled :
    (∃ s s' : Sys Sample.options, Async.Sys.run Sample.overtaken (Sys.fresh _ 0) = some s ∧
      s.step (.resume 0) = some s' ∧
      Seen.reply .cancel Sample.namedMessage (ok (.cancelled Sample.commitment)) ∈ s.seen ∧
      (s.mem.heap.map Intent.state) = [.cancelled] ∧ (s'.mem.heap.map Intent.state) = [.fired]) ∧
    ∃ s : Sys Sample.options, Async.Sys.run Sample.doubled (Sys.fresh _ 0) = some s ∧
      s.mem.armedTotal < s.mem.firedTotal := by
  refine ⟨?_, ?_⟩
  · have hrun : ((Async.Sys.run Sample.overtaken (Sys.fresh Sample.options 0)).bind fun s =>
        (s.step (.resume 0)).map fun s' => decide
          (Seen.reply .cancel Sample.namedMessage (ok (.cancelled Sample.commitment)) ∈ Sys.seen s ∧
            s.mem.heap.map Intent.state = [.cancelled] ∧
            s'.mem.heap.map Intent.state = [.fired])) = some true := by decide +kernel
    obtain ⟨s, hs, hstep⟩ := Option.bind_eq_some_iff.mp hrun
    obtain ⟨s', hs', hend⟩ := Option.map_eq_some_iff.mp hstep
    exact ⟨s, s', hs, hs', of_decide_eq_true hend⟩
  · have hrun : (Async.Sys.run Sample.doubled (Sys.fresh Sample.options 0)).map (fun s =>
        decide (s.mem.armedTotal < s.mem.firedTotal)) = some true := by decide +kernel
    obtain ⟨s, hs, hend⟩ := Option.map_eq_some_iff.mp hrun
    exact ⟨s, hs, of_decide_eq_true hend⟩

end OneSig.Latch
