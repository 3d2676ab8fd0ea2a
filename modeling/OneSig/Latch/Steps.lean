/-
# What one event does

A tick of the enclave is a loop with an `await` in its body, so other commands run between two of
its steps.  The event loop lets a tick go on in one of a few ways only, and `Resumed` lists them:
it moves to the next place of the map, takes up the intent there, passes over it, lets it expire,
waits for its check, or marks it as fired.

This module is where the code of the tick is run, once.  The proofs about ticks that overlap use
what it says and never run a program:

* `Shape` is where a task of the enclave can stand: at the start of its walk, between two places,
  at an intent whose check has not settled, or at one whose check has answered.  Between the test
  of an intent and the write that follows from it, the intent is armed; that is a part of `Shape`,
  and it is what an overlapping command can break.  `Stands` is the same without that part, for
  runs in which nothing keeps it.
* `Shape.resumed` (with `advance_visit`, `advance_next` and `check_bind`) runs each of these
  positions up to its next `await` and reads off the case of `Resumed`.
* `Resumed.intents`: a tick does not change the map, only the objects in it, so places stay where
  they are.
* `seen_step` is what an event adds to what was seen: a command adds its reply, and nothing else
  adds anything.

The checks that a tick waits for are answered by the caller of `tick`; they are operations of the
world, and every answer is possible.
-/
import OneSig.Latch.Commands

namespace OneSig.Latch

open Async (Task Prog Run)

variable {o : Options}

/-! ## 1. Where a tick stands -/

/-- What is left of a visit once its check has settled. -/
def settled (r : Ref) (place : Nat) (now : ℚ) (trigger : Trigger) :
    Except JsError Bool → Prog sig (Option Label)
  | .ok fired => settle r now trigger fired >>= fun _ => .ret (some (.next (place + 1) now))
  | .error e => .throw e

/-- A visit that waits for its check. -/
def checking (o : Options) (r : Ref) (place : Nat) (now : ℚ) (trigger : Trigger) :
    Task (machine o) :=
  ⟨Label.visit r place now, .await (Op.check trigger now) (settled r place now trigger)⟩

/-- A visit whose check has answered. -/
def answered (o : Options) (r : Ref) (place : Nat) (now : ℚ) (trigger : Trigger) (fired : Bool) :
    Task (machine o) :=
  ⟨Label.visit r place now, settled r place now trigger (.ok fired)⟩

/-- The intent a pending task is at. -/
def visiting (t : Task (machine o)) : Option Ref :=
  if t.done then none
  else match (t.label : Label) with
    | .visit r _ _ => some r
    | _ => none

/-- An intent object is armed. -/
def Memory.Armed (m : Memory) (r : Ref) : Prop :=
  ∃ intent, m.heap[r]? = some intent ∧ intent.state = .armed

/-- Where a task can stand: between its test of an intent and its write, the intent is armed. -/
inductive Shape (m : Memory) : Task (machine o) → Prop
  | finished {t : Task (machine o)} (h : t.done = true) : Shape m t
  | start (l : Label) : Shape m (Task.start (M := machine o) l)
  | checking {r : Ref} (place : Nat) (now : ℚ) (trigger : Trigger) (h : m.Armed r) :
      Shape m (checking o r place now trigger)
  | answered {r : Ref} (place : Nat) (now : ℚ) (trigger : Trigger) (fired : Bool) (h : m.Armed r) :
      Shape m (answered o r place now trigger fired)

theorem visiting_answered (r : Ref) (place : Nat) (now : ℚ) (trigger : Trigger) (fired : Bool) :
    visiting (answered o r place now trigger fired) = some r := by
  cases fired <;> rfl

/-- A task only depends on the intent it is at. -/
theorem Shape.write {m m' : Memory} {t : Task (machine o)} (h : Shape m t)
    (hm : ∀ r, m.Armed r → visiting t = some r → m'.Armed r) : Shape m' t := by
  cases h with
  | finished h => exact .finished h
  | start l => exact .start l
  | checking place now trigger h => exact .checking place now trigger (hm _ h rfl)
  | answered place now trigger fired h =>
    exact .answered place now trigger fired (hm _ h (visiting_answered ..))

/-- Only a visit waits for something. -/
theorem Shape.await {m : Memory} {l : Label} {op : Op}
    {k : Except JsError Bool → Prog sig (Option Label)}
    (h : Shape (o := o) m ⟨l, .await op k⟩) : ∃ r place now trigger, m.Armed r ∧
      (⟨l, .await op k⟩ : Task (machine o)) = Latch.checking o r place now trigger := by
  generalize ht : (⟨l, .await op k⟩ : Task (machine o)) = t at h
  cases h with
  | finished h =>
    subst ht
    cases h
  | start l' =>
    cases l' with
    | tick now => cases ht
    | next place now => cases ht
    | visit r place now => cases ht
  | @checking r place now trigger h => exact ⟨r, place, now, trigger, h, rfl⟩
  | answered place now trigger fired h =>
    cases fired with
    | true => cases ht
    | false => cases ht

/-- Where a task can stand, whatever has happened to its intent. -/
inductive Stands : Task (machine o) → Prop
  | finished {t : Task (machine o)} (h : t.done = true) : Stands t
  | start (l : Label) : Stands (Task.start (M := machine o) l)
  | checking (r : Ref) (place : Nat) (now : ℚ) (trigger : Trigger) :
      Stands (checking o r place now trigger)
  | answered (r : Ref) (place : Nat) (now : ℚ) (trigger : Trigger) (fired : Bool) :
      Stands (answered o r place now trigger fired)

/-- Only a visit waits for something. -/
theorem Stands.await {l : Label} {op : Op} {k : Except JsError Bool → Prog sig (Option Label)}
    (h : Stands (o := o) ⟨l, .await op k⟩) : ∃ r place now trigger,
      (⟨l, .await op k⟩ : Task (machine o)) = Latch.checking o r place now trigger := by
  generalize ht : (⟨l, .await op k⟩ : Task (machine o)) = t at h
  cases h with
  | finished h =>
    subst ht
    cases h
  | start l' =>
    cases l' with
    | tick now => cases ht
    | next place now => cases ht
    | visit r place now => cases ht
  | checking r place now trigger => exact ⟨r, place, now, trigger, rfl⟩
  | answered r place now trigger fired =>
    cases fired with
    | true => cases ht
    | false => cases ht

theorem Stands.settled (r : Ref) (place : Nat) (now : ℚ) (trigger : Trigger)
    (res : Except JsError Bool) :
    Stands (o := o) ⟨Label.visit r place now, Latch.settled r place now trigger res⟩ := by
  cases res with
  | ok fired => exact .answered r place now trigger fired
  | error e => exact .finished rfl

theorem stands_set {tasks : List (Task (machine o))} (h : ∀ t ∈ tasks, Stands t) {t : Task (machine o)}
    (ht : Stands t) (i : Nat) : ∀ u ∈ tasks.set i t, Stands u := by
  intro u hu
  rcases List.mem_or_eq_of_mem_set hu with hu | rfl
  · exact h u hu
  · exact ht

/-- How a task goes on. -/
inductive Resumed (m : Memory) : Task (machine o) → Memory → Task (machine o) → Prop
  | finished {t : Task (machine o)} (h : t.done = true) : Resumed m t m t
  | waits {r : Ref} (place : Nat) (now : ℚ) (trigger : Trigger) (h : m.Armed r) :
      Resumed m (checking o r place now trigger) m (checking o r place now trigger)
  | next (l : Label) (place : Nat) (now : ℚ) (h : ∀ r place now, l ≠ .visit r place now) :
      Resumed m (Task.start (M := machine o) l) m (Task.start (M := machine o) (.next place now))
  | ends (place : Nat) (now : ℚ) :
      Resumed m (Task.start (M := machine o) (.next place now)) m ⟨Label.next place now, .ret none⟩
  | visits {r : Ref} {place : Nat} {k : Str} (now : ℚ)
      (h : m.intents.entries[place]? = some (some (k, r))) :
      Resumed m (Task.start (M := machine o) (.next place now)) m
        (Task.start (M := machine o) (.visit r place now))
  | passes (r : Ref) (place : Nat) (now : ℚ) :
      Resumed m (Task.start (M := machine o) (.visit r place now)) m
        (Task.start (M := machine o) (.next (place + 1) now))
  | expires {r : Ref} (place : Nat) (now : ℚ) (h : m.Armed r) :
      Resumed m (Task.start (M := machine o) (.visit r place now))
        (m.update r (Intent.drop .expired)) (Task.start (M := machine o) (.next (place + 1) now))
  | checks {r : Ref} (place : Nat) (now : ℚ) (trigger : Trigger) (h : m.Armed r) :
      Resumed m (Task.start (M := machine o) (.visit r place now)) m
        (checking o r place now trigger)
  | calm (r : Ref) (place : Nat) (now : ℚ) (trigger : Trigger) :
      Resumed m (answered o r place now trigger false) m
        (Task.start (M := machine o) (.next (place + 1) now))
  | fires {r : Ref} (place : Nat) (now : ℚ) (trigger : Trigger) {t : Task (machine o)}
      (harmed : m.Armed r) (h : t = Task.start (M := machine o) (.next (place + 1) now) ∨ t.done = true) :
      Resumed m (answered o r place now trigger true)
        { m.update r (Intent.fire now) with firedTotal := m.firedTotal + 1 } t

/-- A visit runs the body of the loop at the intent it reads. -/
theorem advance_visit (m : Memory) (r : Ref) (place : Nat) (now : ℚ) :
    (code (.visit r place now)).advance m =
      ((match m.heap[r]? with
        | none => pure ()
        | some intent => evaluate r now intent : Prog sig Unit) >>=
          fun _ => .ret (some (.next (place + 1) now))).advance m := rfl

/-- The walk goes on at the next place of the map, if there is one. -/
theorem advance_next (m : Memory) (place : Nat) (now : ℚ) :
    (code (.next place now)).advance m =
      (match m.intents.entries[place]? with
        | none => pure none
        | some none => pure (some (.next (place + 1) now))
        | some (some (_, r)) => pure (some (.visit r place now)) :
          Prog sig (Option Label)).advance m := rfl

/-- A check is awaited, and the rest of the visit follows it. -/
theorem check_bind (r : Ref) (place : Nat) (now : ℚ) (trigger : Trigger) :
    (check trigger now >>= settle r now trigger) >>=
        (fun _ => Prog.ret (S := sig) (some (Label.next (place + 1) now))) =
      .await (Op.check trigger now) (settled r place now trigger) := by
  refine congrArg (Prog.await (S := sig) (Op.check trigger now)) (funext fun res => ?_)
  cases res with
  | ok fired => rfl
  | error e => rfl

/-- A tick does not change the map. -/
theorem Resumed.intents {m m' : Memory} {t t' : Task (machine o)} (h : Resumed m t m' t') :
    m'.intents = m.intents := by
  cases h <;> rfl

theorem resumed_visit (m : Memory) (r : Ref) (place : Nat) (now : ℚ) :
    Resumed (o := o) m (Task.start (M := machine o) (.visit r place now))
      ((code (.visit r place now)).advance m).1
      (Task.next (M := machine o) (.visit r place now)
        ((code (.visit r place now)).advance m).2) := by
  rw [advance_visit]
  cases hr : m.heap[r]? with
  | none => exact .passes r place now
  | some intent =>
    dsimp only
    unfold evaluate
    split_ifs with hstate hdue
    · exact .passes r place now
    · exact .expires place now ⟨intent, hr, not_not.mp hstate⟩
    · rw [check_bind]
      exact .checks place now intent.trigger ⟨intent, hr, not_not.mp hstate⟩

theorem resumed_next (m : Memory) (place : Nat) (now : ℚ) :
    Resumed (o := o) m (Task.start (M := machine o) (.next place now))
      ((code (.next place now)).advance m).1
      (Task.next (M := machine o) (.next place now) ((code (.next place now)).advance m).2) := by
  rw [advance_next]
  cases hplace : m.intents.entries[place]? with
  | none => exact .ends place now
  | some entry =>
    cases entry with
    | none => exact .next _ _ _ (by simp)
    | some p => exact .visits now hplace

theorem resumed_answered {m : Memory} {r : Ref} (place : Nat) (now : ℚ) (trigger : Trigger)
    (fired : Bool) (harmed : m.Armed r) :
    Resumed m (answered o r place now trigger fired)
      ((settled r place now trigger (.ok fired)).advance m).1
      (Task.next (M := machine o) (.visit r place now)
        ((settled r place now trigger (.ok fired)).advance m).2) := by
  cases fired with
  | false => exact .calm r place now trigger
  | true =>
    have hadv : (settled r place now trigger (.ok true)).advance m =
        (Prog.lift (S := sig) (describeTrigger trigger) >>= fun _ =>
          Prog.ret (some (Label.next (place + 1) now))).advance
            { m.update r (Intent.fire now) with firedTotal := m.firedTotal + 1 } := rfl
    rw [hadv]
    cases describeTrigger trigger with
    | ok u => exact .fires place now trigger harmed (Or.inl rfl)
    | error e => exact .fires place now trigger harmed (Or.inr rfl)

/-- **A task goes on in one of these ways** when its promise has settled: each shape of a waiting
task has its own, and what it makes of the memory is said there. -/
theorem Shape.resumed {m : Memory} {t : Task (machine o)} (h : Shape m t) :
    Resumed m t (t.prog.advance m).1 (Task.next t.label (t.prog.advance m).2) := by
  cases h with
  | finished h =>
    obtain ⟨hadv, hnext⟩ := Task.advance_of_done h m
    rw [hadv, hnext]
    exact .finished h
  | start l =>
    cases l with
    | tick now => exact .next _ _ _ (by simp)
    | next place now => exact resumed_next m place now
    | visit r place now => exact resumed_visit m r place now
  | checking place now trigger h => exact .waits place now trigger h
  | answered place now trigger fired h => exact resumed_answered place now trigger fired h

/-! ## 2. What is seen of it -/

/-- What an event adds to what was seen. -/
theorem seen_step {s s' : Sys o} {e : Event o} (h : s.step e = some s') :
    s'.seen = s.seen ∨ (∃ trigger now fired, s'.seen = .reading trigger now fired :: s.seen) ∨
      ∃ x, e = .outside x ∧ s'.seen = (outside o x s.mem s.seen).2 := by
  cases e with
  | spawn l =>
    simp only [Async.Sys.step, Option.some.injEq] at h
    subst h
    exact Or.inl rfl
  | perform i c =>
    simp only [Async.Sys.step] at h
    split at h
    case h_2 => cases h
    case h_1 l op k ht =>
      obtain ⟨⟨r, w⟩, hper, rfl⟩ := Option.map_eq_some_iff.mp h
      obtain ⟨trigger, now⟩ := op
      cases c with
      | ok fired =>
        cases hper
        exact Or.inr (Or.inl ⟨trigger, now, fired, rfl⟩)
      | error e =>
        cases hper
        exact Or.inl rfl
  | disturb i =>
    simp only [Async.Sys.step] at h
    split at h
    · cases h
    · cases h
  | resume i =>
    simp only [Async.Sys.step] at h
    split at h
    · cases h
      exact Or.inl rfl
    · cases h
  | outside x =>
    simp only [Async.Sys.step, Option.some.injEq] at h
    subst h
    exact Or.inr (Or.inr ⟨x, rfl, rfl⟩)
  | crash =>
    simp only [Async.Sys.step, Option.some.injEq] at h
    subst h
    exact Or.inl rfl

end OneSig.Latch
