/-
# Amounts along a run

A system of accounts is right when its books balance: what a state is worth is what has come in
less what has gone out.  A single step shows that for itself; this module carries it over a whole
run.

`step` is any function from a state and an input to a state; an input that is refused leaves the
state as it was.  `along step amount s ts` adds up an amount over the inputs of a run, each taken
at the state in which its input arrives, so that an amount may depend on what the state was (a
deposit that reverts brings in nothing).

* `along_eq`: an invariant is kept, and the value of the last state with everything that has
  flowed out is the value of the first with everything that has flowed in, as soon as each step
  keeps the invariant and balances.
* `along_le`: the one-sided form, for a value that a step may lower without paying anybody.  A sum
  of outflows is then bounded by the first value and the inflows.

Both are inductions over the inputs that carry the invariant along, and both ask about one step
only, from any state with the invariant.  Values and amounts are natural numbers, so the equations
are written with sums and never with differences; nothing is lost to a subtraction that stops at
zero.
-/

namespace Flow

variable {σ τ : Type} (step : σ → τ → σ)

/-- The sum of an amount over the steps of a run. -/
def along (amount : σ → τ → Nat) : σ → List τ → Nat
  | _, [] => 0
  | s, t :: ts => amount s t + along amount (step s t) ts

theorem along_zero (s : σ) (ts : List τ) : along step (fun _ _ => 0) s ts = 0 := by
  induction ts generalizing s with
  | nil => rfl
  | cons t ts ih => rw [along, ih, Nat.add_zero]

variable {step} {inflow outflow : σ → τ → Nat}

/-- Steps that take out no more than they and the value before them give. -/
theorem along_le (inv : σ → Prop) (value : σ → Nat) {s : σ} {ts : List τ} (hs : inv s)
    (hstep : ∀ s t, inv s → t ∈ ts → inv (step s t) ∧
      value (step s t) + outflow s t ≤ value s + inflow s t) :
    value (ts.foldl step s) + along step outflow s ts ≤ value s + along step inflow s ts := by
  induction ts generalizing s with
  | nil => exact Nat.le_refl _
  | cons t ts ih =>
    obtain ⟨hnext, hflow⟩ := hstep s t hs List.mem_cons_self
    have hrest := ih hnext fun s' t' hs' ht' => hstep s' t' hs' (List.mem_cons_of_mem _ ht')
    rw [List.foldl_cons, along, along]
    omega

/-- **A run balances when its steps do**: if in each step the value and what flows out make up for
the value before and what flows in, they do so over the whole run. -/
theorem along_eq (inv : σ → Prop) (value : σ → Nat) {s : σ} {ts : List τ} (hs : inv s)
    (hstep : ∀ s t, inv s → t ∈ ts → inv (step s t) ∧
      value (step s t) + outflow s t = value s + inflow s t) :
    value (ts.foldl step s) + along step outflow s ts = value s + along step inflow s ts := by
  induction ts generalizing s with
  | nil => rfl
  | cons t ts ih =>
    obtain ⟨hnext, hflow⟩ := hstep s t hs List.mem_cons_self
    have hrest := ih hnext fun s' t' hs' ht' => hstep s' t' hs' (List.mem_cons_of_mem _ ht')
    rw [List.foldl_cons, along, along]
    omega

end Flow
