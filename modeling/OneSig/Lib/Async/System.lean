/-
# The event loop

`World` says what an operation may do to the outside: whoever plays the environment answers an
operation with a `Choice`, and `perform` says whether that choice fits the operation, what it
resolves to and what it leaves behind.  An operation that is still in flight can also have a
visible partial effect (`disturb`): a file being rewritten is first truncated.

`Machine` is a process: the code its entry points run, the memory it starts with, and the
influences from outside that are not answers to an operation (the clock, a ledger that grows).
`Sys` is the process at a moment: its memory, the world, and the tasks it has started.  One
`Event` starts a task, settles an operation some task awaits, runs a settled task up to its
next `await`, or kills the process.  A run is a list of events; nothing is assumed about which
event comes next, so every interleaving at the `await`s is a run.

A task returns a label when it ends in a jump to other code of the same process: that is how a
loop without a bound known beforehand is written.  A jump is a point at which other tasks may
run, so it is only used where the source has an `await` next to it, or where allowing more
interleavings than the source has does no harm.
-/
import OneSig.Lib.Async.Prog

namespace Async

/-- What operations do to the outside world. -/
structure World (S : Sig) where
  State : Type
  Choice : Type
  perform : (op : S.Op) → Choice → State → Option (Except S.Err (S.Res op) × State)
  disturb : S.Op → State → Option State

/-- A process. -/
structure Machine (S : Sig) (W : World S) where
  Label : Type
  code : Label → Prog S (Option Label)
  boot : S.Mem → S.Mem
  Ext : Type
  outside : Ext → S.Mem → W.State → S.Mem × W.State

/-- The memory and the world together: what a task can see change while it is suspended. -/
structure St (S : Sig) (W : World S) where
  mem : S.Mem
  world : W.State

variable {S : Sig} {W : World S}

/-- A task: the code it was started with and what is left of it to run. -/
structure Task (M : Machine S W) where
  label : M.Label
  prog : Prog S (Option M.Label)

/-- The process at a moment. -/
structure Sys (M : Machine S W) where
  mem : S.Mem
  world : W.State
  tasks : List (Task M)

/-- What can happen next. -/
inductive Event (M : Machine S W)
  | spawn (l : M.Label)
  | perform (i : Nat) (c : W.Choice)
  | disturb (i : Nat)
  | resume (i : Nat)
  | outside (x : M.Ext)
  | crash

namespace Task

variable {M : Machine S W}

/-- A task about to run the code of a label. -/
def start (l : M.Label) : Task M := ⟨l, M.code l⟩

/-- The task has nothing left to run. -/
def done (t : Task M) : Bool :=
  match t.prog with
  | .ret none => true
  | .throw _ => true
  | _ => false

/-- Where a task stands after running up to its next `await`: a returned label is a jump. -/
def next (l : M.Label) : Prog S (Option M.Label) → Task M
  | .ret (some l') => start l'
  | p => ⟨l, p⟩

/-- Nothing is left to run of a task that has ended. -/
theorem advance_of_done {l : M.Label} {p : Prog S (Option M.Label)}
    (hdone : (⟨l, p⟩ : Task M).done = true) (m : S.Mem) :
    p.advance m = (m, p) ∧ Task.next l p = (⟨l, p⟩ : Task M) := by
  cases p with
  | ret a =>
    cases a with
    | none => exact ⟨rfl, rfl⟩
    | some l' => cases hdone
  | throw e => exact ⟨rfl, rfl⟩
  | _ => cases hdone

end Task

namespace Sys

variable {M : Machine S W}

/-- The memory and the world of a system. -/
def st (s : Sys M) : St S W := ⟨s.mem, s.world⟩

/-- One event.  `none` when the event does not apply. -/
def step (s : Sys M) : Event M → Option (Sys M)
  | .spawn l => some { s with tasks := s.tasks ++ [Task.start l] }
  | .perform i c =>
    match s.tasks[i]? with
    | some ⟨l, .await op k⟩ =>
      (W.perform op c s.world).map fun rw =>
        { s with world := rw.2, tasks := s.tasks.set i ⟨l, k rw.1⟩ }
    | _ => none
  | .disturb i =>
    match s.tasks[i]? with
    | some ⟨_, .await op _⟩ => (W.disturb op s.world).map fun w => { s with world := w }
    | _ => none
  | .resume i =>
    match s.tasks[i]? with
    | some ⟨l, p⟩ =>
      some { s with
        mem := (p.advance s.mem).1
        tasks := s.tasks.set i (Task.next l (p.advance s.mem).2) }
    | none => none
  | .outside x => some { s with mem := (M.outside x s.mem s.world).1,
                                world := (M.outside x s.mem s.world).2 }
  | .crash => some { s with mem := M.boot s.mem, tasks := [] }

theorem set_task {s : Sys M} {i : Nat} {t : Task M} (h : s.tasks[i]? = some t) :
    s.tasks.set i t = s.tasks := by
  obtain ⟨hlt, hget⟩ := List.getElem?_eq_some_iff.mp h
  rw [← hget, List.set_getElem_self]

/-- A task that has ended stays as it is. -/
theorem step_resume_done {s s' : Sys M} {i : Nat} {t : Task M} (h : s.tasks[i]? = some t)
    (hdone : t.done = true) (hst : s.step (.resume i) = some s') : s' = s := by
  obtain ⟨l, p⟩ := t
  obtain ⟨hadvance, hnext⟩ := Task.advance_of_done hdone s.mem
  simp only [Sys.step, h, hadvance, hnext, set_task h, Option.some.injEq] at hst
  exact hst.symm

/-- The label of a suspended task and the operation it awaits. -/
def awaiting (s : Sys M) (i : Nat) : Option (M.Label × S.Op) :=
  match s.tasks[i]? with
  | some ⟨l, .await op _⟩ => some (l, op)
  | _ => none

theorem awaiting_eq {s : Sys M} {i : Nat} {l : M.Label} {op : S.Op}
    {k : Except S.Err (S.Res op) → Prog S (Option M.Label)}
    (h : s.tasks[i]? = some ⟨l, .await op k⟩) : s.awaiting i = some (l, op) := by
  unfold awaiting
  rw [h]

/-- No task is pending. -/
def quiet (s : Sys M) : Bool := s.tasks.all Task.done

/-- A whole run, computed from its list of events. -/
def run : List (Event M) → Sys M → Option (Sys M)
  | [], s => some s
  | e :: es, s => (s.step e).bind (run es)

/-- The same, with a condition checked before every event. -/
def runIf (ok : Event M → Sys M → Prop) [∀ e s, Decidable (ok e s)] :
    List (Event M) → Sys M → Option (Sys M)
  | [], s => some s
  | e :: es, s => if ok e s then (s.step e).bind (runIf ok es) else none

theorem run_append {es es' : List (Event M)} {s : Sys M} :
    run (es ++ es') s = (run es s).bind (run es') := by
  induction es generalizing s with
  | nil => rfl
  | cons e es ih =>
    rw [List.cons_append, run, run, Option.bind_assoc]
    congr 1
    exact funext fun s' => ih

end Sys

/-- Runs whose every event satisfies `ok` at the state it happens in. -/
inductive Run {M : Machine S W} (ok : Event M → Sys M → Prop) : Sys M → Sys M → Prop
  | refl (s : Sys M) : Run ok s s
  | tail {s₀ s s' : Sys M} (e : Event M) :
      Run ok s₀ s → ok e s → s.step e = some s' → Run ok s₀ s'

namespace Run

variable {M : Machine S W} {ok ok' : Event M → Sys M → Prop} {s₀ s s' : Sys M}

/-- A run stays a run under a weaker condition. -/
theorem mono (h : Run ok s₀ s) (himp : ∀ e s, ok e s → ok' e s) : Run ok' s₀ s := by
  induction h with
  | refl => exact .refl _
  | tail e _ hok hst ih => exact .tail e ih (himp _ _ hok) hst

/-- What holds at the start and is preserved by every step holds along the run. -/
theorem invariant {P : Sys M → Prop} (h : Run ok s₀ s) (h₀ : P s₀)
    (hstep : ∀ s s' e, P s → ok e s → s.step e = some s' → P s') : P s := by
  induction h with
  | refl => exact h₀
  | tail e _ hok hst ih => exact hstep _ _ e ih hok hst

/-- Runs follow one another. -/
theorem trans (h : Run ok s₀ s) (h' : Run ok s s') : Run ok s₀ s' := by
  induction h' with
  | refl => exact h
  | tail e _ hok hst ih => exact .tail e ih hok hst

/-- A computed run of events that are allowed anywhere. -/
theorem of_run : ∀ (es : List (Event M)) {s₀ s : Sys M}, (∀ e ∈ es, ∀ s, ok e s) →
    Sys.run es s₀ = some s → Run ok s₀ s
  | [], s₀, s, _, h => by
    simp only [Sys.run, Option.some.injEq] at h
    exact h ▸ .refl _
  | e :: es, s₀, s, hok, h => by
    simp only [Sys.run, Option.bind_eq_some_iff] at h
    obtain ⟨s₁, hst, hrest⟩ := h
    have hfirst : Run ok s₀ s₁ := .tail e (.refl _) (hok e (by simp) s₀) hst
    exact hfirst.trans (of_run es (fun e he => hok e (by simp [he])) hrest)

/-- A computed run whose condition has been checked. -/
theorem of_runIf {ok : Event M → Sys M → Prop} [∀ e s, Decidable (ok e s)] :
    ∀ (es : List (Event M)) {s₀ s : Sys M}, Sys.runIf ok es s₀ = some s → Run ok s₀ s
  | [], s₀, s, h => by
    simp only [Sys.runIf, Option.some.injEq] at h
    exact h ▸ .refl _
  | e :: es, s₀, s, h => by
    simp only [Sys.runIf] at h
    split at h
    case isFalse => cases h
    case isTrue hok =>
      obtain ⟨s₁, hst, hrest⟩ := Option.bind_eq_some_iff.mp h
      have hfirst : Run ok s₀ s₁ := .tail e (.refl _) hok hst
      exact hfirst.trans (of_runIf es hrest)

end Run

end Async
