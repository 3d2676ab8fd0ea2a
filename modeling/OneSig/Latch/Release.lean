/-
# Released once

The sealed bytes are to leave the enclave at most once for each ARM.  Two things can break that: a
tick that overlaps another one or a command, so that a test and the write it justifies no longer
belong together, and a COLLECT that finds the intent collected, for which `handleCollect` has no
case of its own: it answers it like the first and hands the bytes out again.

Operations that do not overlap are orderly by themselves, as far as ticks go.  `Sequential` asks
of a run that a command, a report of the clock or a tick starts when every tick is over; then one
task is pending at a time and nothing can reach an intent between a tick's test and its write
(`Sequential.undisturbed`).  With no late COLLECT such a run is orderly (`orderly_of_sequential`),
which is the condition that the life of an intent asks for.

* `ReleasedOnce` reads the replies that were seen: since the ARM that created its intent, a
  release is the first for its commitment.
* `released_once` says that this holds in every sequential run without a late COLLECT, and exactly
  which next message would break it: the COLLECT of an intent that is collected already.

So the two halves together are exact: the first covers every run up to a step, the second that
step.  In the example an intent is armed, fired and collected, and collected once more.
-/
import OneSig.Latch.Lifecycle

namespace OneSig.Latch

open Async (Task Run)

namespace Lifecycle

variable {o : Options}

/-! ## 1. One operation at a time -/

/-- A command, a report or a tick starts when every tick is over. -/
def sequential (s : Sys o) : Event o → Bool
  | .spawn _ => s.quiet
  | .outside x =>
    match (x : Ext) with
    | .clock _ => true
    | _ => s.quiet
  | _ => true

def Sequential (e : Event o) (s : Sys o) : Prop := plain e = true ∧ sequential s e = true

instance (e : Event o) (s : Sys o) : Decidable (Sequential e s) :=
  inferInstanceAs (Decidable (plain e = true ∧ sequential s e = true))

/-- At most one task is pending. -/
def Single (tasks : List (Task (machine o))) : Prop :=
  ∀ (i j : Nat) t t', tasks[i]? = some t → tasks[j]? = some t' → t.done = false →
    t'.done = false → i = j

theorem Single.set {tasks : List (Task (machine o))} (h : Single tasks) {i : Nat}
    {t t' : Task (machine o)} (ht : tasks[i]? = some t) (hdone : t.done = false ∨ t'.done = true) :
    Single (tasks.set i t') := by
  have hget : ∀ (j : Nat) u, (tasks.set i t')[j]? = some u → u.done = false →
      ∃ u', tasks[j]? = some u' ∧ u'.done = false := by
    intro j u hu hud
    rw [List.getElem?_set] at hu
    by_cases hji : i = j
    · subst hji
      rw [if_pos rfl] at hu
      split at hu
      · rw [← Option.some.inj hu] at hud
        rcases hdone with hpending | hover
        · exact ⟨t, ht, hpending⟩
        · rw [hover] at hud
          cases hud
      · cases hu
    · rw [if_neg hji] at hu
      exact ⟨u, hu, hud⟩
  intro j j' u u' hj hj' hu hu'
  obtain ⟨v, hv, hvd⟩ := hget j u hj hu
  obtain ⟨v', hv', hvd'⟩ := hget j' u' hj' hu'
  exact h j j' v v' hv hv' hvd hvd'

theorem quiet_done {s : Sys o} (h : s.quiet = true) : ∀ t ∈ s.tasks, t.done = true :=
  List.all_eq_true.mp h

theorem Single.step {s s' : Sys o} (h : Single s.tasks) {e : Event o} (hok : Sequential e s)
    (hst : s.step e = some s') : Single s'.tasks := by
  cases e with
  | spawn l =>
    simp only [Async.Sys.step, Option.some.injEq] at hst
    subst hst
    have hdone := quiet_done hok.2
    have hlast : ∀ (j : Nat) u, (s.tasks ++ [Task.start (M := machine o) l])[j]? = some u →
        u.done = false → j = s.tasks.length := by
      intro j u hu hud
      rcases Nat.lt_trichotomy j s.tasks.length with hj | hj | hj
      · rw [List.getElem?_append_left hj] at hu
        rw [hdone u (List.mem_of_getElem? hu)] at hud
        cases hud
      · exact hj
      · rw [List.getElem?_append_right (by omega), List.getElem?_singleton, if_neg (by omega)] at hu
        cases hu
    intro i j t t' hi hj htd htd'
    rw [hlast i t hi htd, hlast j t' hj htd']
  | perform i c =>
    simp only [Async.Sys.step] at hst
    split at hst
    · rename_i ht
      obtain ⟨_, -, rfl⟩ := Option.map_eq_some_iff.mp hst
      exact h.set ht (Or.inl rfl)
    · cases hst
  | disturb i =>
    simp only [Async.Sys.step] at hst
    split at hst
    · cases hst
    · cases hst
  | resume i =>
    simp only [Async.Sys.step] at hst
    split at hst
    case h_2 => cases hst
    case h_1 l p ht =>
      cases hst
      refine h.set ht ?_
      cases hd : (⟨l, p⟩ : Task (machine o)).done with
      | false => exact Or.inl rfl
      | true =>
        obtain ⟨hadv, hnext⟩ := Task.advance_of_done hd s.mem
        rw [hadv, hnext]
        exact Or.inr hd
  | outside x =>
    simp only [Async.Sys.step, Option.some.injEq] at hst
    subst hst
    exact h
  | crash => cases hok.1

/-- Nothing disturbs a tick that runs alone. -/
theorem Sequential.undisturbed {s : Sys o} (hsingle : Single s.tasks) {e : Event o}
    (hok : Sequential e s) : undisturbed s e = true := by
  cases e with
  | resume i =>
    rw [Lifecycle.undisturbed, Option.all_eq_true]
    intro r hr
    obtain ⟨t, ht, htaking⟩ := Option.bind_eq_some_iff.mp hr
    rw [Bool.not_eq_true', held, List.any_eq_false]
    intro u hu hvisit
    simp only [decide_eq_true_eq] at hvisit
    -- the task that takes the intent up is the pending one, and it is at no intent
    obtain ⟨j, hj⟩ := List.mem_iff_getElem?.mp hu
    unfold taking at htaking
    unfold visiting at hvisit
    split at htaking
    · cases htaking
    · split at hvisit
      · cases hvisit
      · obtain rfl := hsingle i j t u ht hj (by simpa using ‹¬ t.done = true›)
          (by simpa using ‹¬ u.done = true›)
        rw [ht, Option.some.injEq] at hj
        subst hj
        cases hl : (t.label : Label) with
        | tick now =>
          rw [hl] at hvisit
          cases hvisit
        | next place now =>
          rw [hl] at hvisit
          cases hvisit
        | visit r' place now =>
          rw [hl] at htaking
          cases htaking
  | outside x =>
    cases x with
    | request command msg =>
      cases command with
      | cancel =>
        have hquiet : s.quiet = true := hok.2
        have hfree : ∀ r, held s r = false := by
          intro r
          rw [held, List.any_eq_false]
          intro u hu hvisit
          rw [visiting, quiet_done hquiet u hu] at hvisit
          cases hvisit
        have hall : (target o s.mem msg).all (fun p => !held s p.1) = true := by
          rw [Option.all_eq_true]
          intro p _
          rw [hfree]
          rfl
        exact hall
      | _ => rfl
    | _ => rfl
  | _ => rfl

/-- **A sequential run without a late COLLECT is orderly**: when ticks do not overlap, no check
comes back to an intent that another tick has settled. -/
theorem orderly_of_sequential {now : ℚ} {s : Sys o}
    (hrun : Run (fun e s => Sequential e s ∧ uncollected s e = true) (Sys.fresh o now) s) :
    Run Orderly (Sys.fresh o now) s := by
  have hboth : Run Orderly (Sys.fresh o now) s ∧ Single s.tasks := by
    induction hrun with
    | refl => exact ⟨.refl _, fun i j t t' hi => by cases hi⟩
    | tail e _ hok hst ih =>
      obtain ⟨ih, hsingle⟩ := ih
      exact ⟨.tail e ih ⟨hok.1.1, hok.1.undisturbed hsingle, hok.2⟩ hst, hsingle.step hok.1 hst⟩
  exact hboth.1

end Lifecycle

open Lifecycle

/-! ## 2. At most one release -/

/-- Since the ARM that created its intent, a release is the first for its commitment. -/
def ReleasedOnce (o : Options) (seen : List Seen) : Prop :=
  Throughout (fun e earlier => ∀ k, e.releases o k = true →
    ∀ e' ∈ sinceArm o k earlier, e'.releases o k = false) seen

theorem releasedOnce_of_fresh {o : Options} {seen : List Seen} (h : Throughout (Fresh o) seen) :
    ReleasedOnce o seen := by
  intro later e earlier heq k hrel e' he'
  have hends := h later e earlier heq k (by simp [tells, hrel]) e' he'
  simp only [ends, Bool.or_eq_false_iff] at hends
  exact hends.2

/-- **The bytes are released once** in every sequential run without a late COLLECT, and one late
COLLECT releases them again. -/
theorem released_once {o : Options} (hv : o.viem.Lawful) {now : ℚ} {s : Sys o}
    (hrun : Run (fun e s => Sequential e s ∧ uncollected s e = true) (Sys.fresh o now) s) :
    ReleasedOnce o s.seen ∧ ∀ msg,
      (ReleasedOnce o (.reply .collect msg (handleCollect o msg s.mem).2 :: s.seen) ↔
        ∀ p ∈ target o s.mem msg, p.2.state ≠ .collected) := by
  have hinv := inv_run hv (orderly_of_sequential hrun)
  refine ⟨releasedOnce_of_fresh hinv.books.told, fun msg => ⟨fun honce => ?_, fun hlate => ?_⟩⟩
  · rintro ⟨r, intent⟩ hp hcollected
    have hstate : intent.state = .collected := hcollected
    -- the first release is on record, and this COLLECT succeeds too
    obtain ⟨k, hname, hlookup⟩ : ∃ k, namedCommitment o.engine msg = .ok k ∧
        s.mem.lookup k = some (r, intent) := by
      unfold target at hp
      obtain ⟨k, hk, hlookup⟩ := Option.bind_eq_some_iff.mp hp
      refine ⟨k, ?_, hlookup⟩
      cases hn : namedCommitment o.engine msg with
      | ok k' =>
        rw [hn] at hk
        cases hk
        rfl
      | error refusal =>
        rw [hn] at hk
        cases hk
    obtain ⟨e', he', hrel⟩ := hinv.books.released k r intent hlookup hstate
    have hreply : (handleCollect o msg s.mem).2 =
        ok (.released intent.userOpData intent.firedAt) := by
      simp only [handleCollect, hname, hlookup, hstate]
    have hfalse := honce [] _ s.seen rfl k (by
      rw [hreply]
      simp [Seen.releases, ok, hname]) e' he'
    rw [hrel] at hfalse
    cases hfalse
  · obtain ⟨hbooks, -⟩ := request_books hv hinv.books .collect msg fun _ => hlate
    exact releasedOnce_of_fresh hbooks.told

theorem released_once_sample :
    ∃ s : Sys Sample.options, Async.Sys.runIf
        (fun e s => Sequential e s ∧ uncollected s e = true) Sample.collected (Sys.fresh _ 0) =
          some s ∧ ReleasedOnce Sample.options s.seen := by
  have hrun : ((Async.Sys.runIf (fun e s => Sequential e s ∧ uncollected s e = true)
      Sample.collected (Sys.fresh Sample.options 0)).map fun s => s.mem.firedTotal) = some 1 := by
    decide +kernel
  obtain ⟨s, hs, -⟩ := Option.map_eq_some_iff.mp hrun
  exact ⟨s, hs, (released_once Sample.viem_lawful (Run.of_runIf _ hs)).1⟩

namespace Sample

/-- The intent is collected, and collected again. -/
def collectedTwice : List (Event options) := collected ++ [.request .collect namedMessage]

def release : Seen := .reply .collect namedMessage (ok (.released "0xdead".toList (some 6000)))

end Sample

/-- **The bytes are released twice** when a second COLLECT is sent after the intent has fired,
though one tick ran at a time and nothing was armed again. -/
theorem second_collect_releases :
    ∃ s : Sys Sample.options, Async.Sys.runIf Sequential Sample.collectedTwice (Sys.fresh _ 0) =
      some s ∧ s.seen = Sample.release :: Sample.release :: Sample.beforeCollect ∧
        ¬ ReleasedOnce Sample.options s.seen := by
  have hrun : (Async.Sys.runIf Sequential Sample.collectedTwice (Sys.fresh Sample.options 0)).map
      Sys.seen = some (Sample.release :: Sample.release :: Sample.beforeCollect) := by
    decide +kernel
  obtain ⟨s, hs, hseen⟩ := Option.map_eq_some_iff.mp hrun
  have hrel : Sample.release.releases Sample.options Sample.commitment = true := by decide +kernel
  have hmem : Sample.release ∈ sinceArm Sample.options Sample.commitment
      (Sample.release :: Sample.beforeCollect) := by decide +kernel
  refine ⟨s, hs, hseen, fun honce => ?_⟩
  have hfalse := honce [] _ _ hseen Sample.commitment hrel _ hmem
  rw [hrel] at hfalse
  cases hfalse

end OneSig.Latch
