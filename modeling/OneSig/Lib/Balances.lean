/-
# Balances in checked arithmetic

A book of `uint256` balances, one for each account, as the contracts of a chain keep it.  The
addition and the subtraction of the language are checked: a result outside the range reverts,
which is `none` here.  So a balance is a number below `2 ^ 256` by its type (`Uint256`), and an
operation is a partial function with `add_eq_some` and `sub_eq_some` saying when it has a result
and which.

The sum of a book is a natural number and has no bound of its own.  What can be said about it:

* `le_total`: no balance is more than the sum;
* `total_update`: replacing one balance changes the sum by that balance alone.  The equation is
  written with two sums, so that it holds whether the new balance is higher or lower;
* `total_credit` and `total_debit`: what an addition that did not revert does to the sum, and a
  subtraction.

A transfer is a debit and then a credit of the book it left, in this order, and the order matters
when the two accounts are one: the credit reads the balance the debit has written.  Taken together
the two lemmas say that a transfer keeps the sum in either case.  Consequently, once the sum of a
book is in range, no addition to a single balance can revert for its size.
-/
import Mathlib.Algebra.BigOperators.Group.Finset.Basic
import Mathlib.Algebra.Order.BigOperators.Group.Finset

/-- `uint256`. -/
abbrev Uint256 := Fin (2 ^ 256)

namespace Uint256

/-- `a + b`, checked. -/
def add (a b : Uint256) : Option Uint256 :=
  if h : a.val + b.val < 2 ^ 256 then some ⟨a.val + b.val, h⟩ else none

/-- `a - b`, checked. -/
def sub (a b : Uint256) : Option Uint256 :=
  if b.val ≤ a.val then some ⟨a.val - b.val, (Nat.sub_le ..).trans_lt a.isLt⟩ else none

theorem add_eq_some {a b c : Uint256} : add a b = some c ↔ c.val = a.val + b.val := by
  unfold add
  split
  case isTrue h =>
    rw [Option.some.injEq, eq_comm, Fin.ext_iff]
  case isFalse h =>
    have hc := c.isLt
    constructor
    · nofun
    · omega

theorem sub_eq_some {a b c : Uint256} : sub a b = some c ↔ b.val ≤ a.val ∧ c.val = a.val - b.val := by
  unfold sub
  split
  case isTrue h =>
    rw [Option.some.injEq, eq_comm, Fin.ext_iff]
    exact (and_iff_right h).symm
  case isFalse h => exact ⟨nofun, fun hc => absurd hc.1 h⟩

end Uint256

namespace Balances

variable {A : Type} [Fintype A]

/-- The sum of all balances. -/
def total (f : A → Uint256) : Nat := ∑ a, (f a).val

theorem total_zero : total (fun _ : A => (0 : Uint256)) = 0 :=
  Finset.sum_eq_zero fun _ _ => rfl

theorem le_total (f : A → Uint256) (a : A) : (f a).val ≤ total f :=
  Finset.single_le_sum (f := fun b => (f b).val) (fun _ _ => Nat.zero_le _) (Finset.mem_univ a)

variable [DecidableEq A] {f : A → Uint256}

/-- One balance is replaced. -/
theorem total_update (f : A → Uint256) (a : A) (v : Uint256) :
    total (Function.update f a v) + (f a).val = total f + v.val := by
  have hrest : ∑ b ∈ Finset.univ.erase a, (Function.update f a v b).val =
      ∑ b ∈ Finset.univ.erase a, (f b).val := by
    refine Finset.sum_congr rfl fun b hb => ?_
    rw [Function.update_of_ne (Finset.ne_of_mem_erase hb)]
  have hnew := Finset.add_sum_erase Finset.univ (fun b => (Function.update f a v b).val)
    (Finset.mem_univ a)
  have hold := Finset.add_sum_erase Finset.univ (fun b => (f b).val) (Finset.mem_univ a)
  simp only [Function.update_self] at hnew
  unfold total
  omega

/-- A credit. -/
theorem total_credit {a : A} {n v : Uint256} (h : Uint256.add (f a) n = some v) :
    total (Function.update f a v) = total f + n.val := by
  have hsum := total_update f a v
  have hv := Uint256.add_eq_some.mp h
  omega

/-- A debit. -/
theorem total_debit {a : A} {n v : Uint256} (h : Uint256.sub (f a) n = some v) :
    total (Function.update f a v) + n.val = total f := by
  have hsum := total_update f a v
  obtain ⟨hle, hv⟩ := Uint256.sub_eq_some.mp h
  omega

end Balances
