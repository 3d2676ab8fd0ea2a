/-
# Asynchronous programs over a shared memory

A single-threaded event loop runs many `async` functions at once.  Between two `await`s a function
runs alone: it reads and writes the process's memory and nothing else can happen.  At an `await`
it hands an operation to the outside world and is suspended until the operation settles, with a
value or with a rejection.

`Prog` is the syntax of such a function: a well-founded tree whose nodes read the memory, write
the memory, or await an operation, and whose leaves return or throw.  It is a monad, so an `async`
function can be written in `do` notation in the order of its source; `throw` and `tryCatch` are
the two exception forms.  What an operation does to the world, and how programs interleave, is not
said here (`System.lean`).

The four things that differ from one process to another, its operations, what each of them
resolves to, its memory and what it can throw, are the parameter `Sig`.  A loop of the source is a
recursive function to `Prog`, so it needs a reason to end; a loop that may go on for ever is a
label that a process jumps to, and that is part of the machine as well.

* `bind_assoc` is the monad law that moves a place of interest to the front, and `tryCatch_seq`
  its counterpart for a `try` block: it may be left in the middle, for a place where the rest of
  it is tried.
* `advance` is the synchronous part of a program, everything before its next `await`, return or
  throw.  It is one step of the event loop, and `advance_stopped` says that it leaves nothing
  synchronous behind.
-/
import Mathlib.Tactic.Common

namespace Async

/-- The vocabulary of a process: the operations it can await, what each resolves to, its
memory, and what it can throw. -/
structure Sig where
  Op : Type
  Res : Op → Type
  Mem : Type
  Err : Type

/-- An asynchronous program that returns an `α`. -/
inductive Prog (S : Sig) (α : Type) : Type
  | ret (a : α)
  | throw (e : S.Err)
  | get (k : S.Mem → Prog S α)
  | set (m : S.Mem) (p : Prog S α)
  | await (op : S.Op) (k : Except S.Err (S.Res op) → Prog S α)

namespace Prog

variable {S : Sig} {α β : Type}

/-! ## 1. Sequencing -/

/-- Run `p`, then `f` on its result; a throw in `p` skips `f`. -/
def bind : Prog S α → (α → Prog S β) → Prog S β
  | ret a, f => f a
  | throw e, _ => throw e
  | get k, f => get fun m => (k m).bind f
  | set m p, f => set m (p.bind f)
  | await op k, f => await op fun r => (k r).bind f

/-- `try { p } catch (e) { h e }`. -/
def tryCatch : Prog S α → (S.Err → Prog S α) → Prog S α
  | ret a, _ => ret a
  | throw e, h => h e
  | get k, h => get fun m => (k m).tryCatch h
  | set m p, h => set m (p.tryCatch h)
  | await op k, h => await op fun r => (k r).tryCatch h

instance : Monad (Prog S) where
  pure := ret
  bind := bind

theorem pure_eq (a : α) : (pure a : Prog S α) = ret a := rfl

theorem bind_eq (p : Prog S α) (f : α → Prog S β) : (p >>= f) = p.bind f := rfl

theorem bind_assoc {γ : Type} (p : Prog S α) (f : α → Prog S β) (g : β → Prog S γ) :
    p >>= f >>= g = p >>= fun a => f a >>= g := by
  simp only [bind_eq]
  induction p with
  | ret a => rfl
  | throw e => rfl
  | get k ih => exact congrArg get (funext fun m => ih m)
  | set m p ih => exact congrArg (set m) ih
  | await op k ih => exact congrArg (await op) (funext fun r => ih r)

/-- A `try` block may be left in the middle, for a place where the rest of it is tried. -/
theorem tryCatch_seq {γ δ : Type} (p : Prog S α) (f : α → Prog S β) (h : S.Err → Prog S β)
    (k : β → Prog S δ) (l : α → γ) (l' : γ) (F : γ → Prog S δ)
    (hok : ∀ a, F (l a) = (f a).tryCatch h >>= k) (herr : ∀ e, F l' = h e >>= k) :
    (p >>= f).tryCatch h >>= k = ((do
      let a ← p
      return l a).tryCatch fun _ => return l') >>= F := by
  simp only [bind_eq, pure_eq]
  induction p with
  | ret a => exact (hok a).symm
  | throw e => exact (herr e).symm
  | get c ih => exact congrArg get (funext fun m => ih m)
  | set m p ih => exact congrArg (set m) ih
  | await op c ih => exact congrArg (await op) (funext fun r => ih r)

/-! ## 2. The primitive programs -/

/-- Read a part of the memory. -/
def gets (f : S.Mem → α) : Prog S α := get fun m => ret (f m)

/-- Update the memory. -/
def modify (f : S.Mem → S.Mem) : Prog S Unit := get fun m => set (f m) (ret ())

/-- `await op`: resume with the value, or throw the rejection. -/
def call (op : S.Op) : Prog S (S.Res op) :=
  await op fun
    | .ok r => ret r
    | .error e => throw e

/-- A synchronous computation that may throw. -/
def lift : Except S.Err α → Prog S α
  | .ok a => ret a
  | .error e => throw e

/-! ## 3. Running up to the next `await` -/

/-- The synchronous part of a program: everything before its next `await`, return or throw. -/
def advance : Prog S α → S.Mem → S.Mem × Prog S α
  | get k, m => (k m).advance m
  | set m p, _ => p.advance m
  | ret a, m => (m, ret a)
  | throw e, m => (m, throw e)
  | await op k, m => (m, await op k)

/-- Nothing synchronous is left: the program has settled or awaits an operation. -/
def stopped : Prog S α → Bool
  | get _ => false
  | set _ _ => false
  | _ => true

theorem advance_stopped (p : Prog S α) (m : S.Mem) : (p.advance m).2.stopped = true := by
  induction p generalizing m with
  | ret a => rfl
  | throw e => rfl
  | get k ih => exact ih m m
  | set m' p ih => exact ih m'
  | await op k _ => rfl

end Prog

end Async
