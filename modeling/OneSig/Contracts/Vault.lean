/-
# The vault and its token

`MockFXRP` is an ERC-20 token that anyone may mint, and `MockVault` keeps deposits of it.  Both are
given function by function: §1 the token, with the balance of a recipient read after the sender's has
been written, so that a transfer to oneself goes through the same two writes as any other; §2 the
vault, which knows the token by the four functions it calls and nothing else; §3 a history, a list of
transactions of which those that revert change nothing.  Amounts are `uint256`, every sum and every
difference is checked, and a call that overflows reverts like one that asks for too much.

The vault is an account of the token: it holds what was deposited, and whatever else was sent to its
address.  Its own books do not know of the latter, so what it owes (`totalDeposits`) is bounded by
what it holds and not equal to it.  `Solvent` is the invariant that the two contracts keep between
them: both books add up, what is owed is held, and nobody may spend what the vault holds.

From it, in any state that any transactions reach, everybody can take out what he has deposited
(`vault_solvent`): the call goes through, and `Withdrawn` says what it leaves, account by account.
No balance can overflow on the way, because each is a part of a supply that fits.

The transactions come from any account but the vault's own: the vault calls the token in `deposit`
and `withdraw` and nowhere else, and nothing calls the vault in its own name.  The events of the two
contracts are left out; nothing reads them.
-/
import Mathlib.Algebra.GroupWithZero.Nat
import OneSig.Lib.Balances

namespace OneSig.Contracts

open Balances

/-- An account. -/
abbrev Address := Fin (2 ^ 160)

/-- There is a zero address. -/
instance neZeroAddress : NeZero (2 ^ 160) := ⟨by decide⟩

/-- `type(uint256).max`. -/
def Uint256.max : Uint256 := ⟨2 ^ 256 - 1, Nat.sub_lt (Nat.two_pow_pos 256) Nat.one_pos⟩

/-! ## 1. `MockFXRP` -/

structure MockFXRP where
  totalSupply : Uint256
  balanceOf : Address → Uint256
  allowance : Address → Address → Uint256

/-- Why a call reverts; `panic` is an arithmetic overflow. -/
inductive Revert
  | panic
  | insufficientBalance (available requested : Uint256)
  | insufficientAllowance (available requested : Uint256)
  | zeroAmount
  | transferFailed
  deriving DecidableEq

/-- The result of a checked operation. -/
def checked (x : Option Uint256) : Except Revert Uint256 := x.elim (.error .panic) .ok

namespace MockFXRP

/-- The token as it is deployed. -/
def deployed : MockFXRP := ⟨0, fun _ => 0, fun _ _ => 0⟩

def mint (recipient : Address) (amount : Uint256) (t : MockFXRP) : Except Revert MockFXRP := do
  let totalSupply ← checked (Uint256.add t.totalSupply amount)
  let balance ← checked (Uint256.add (t.balanceOf recipient) amount)
  return { t with totalSupply, balanceOf := Function.update t.balanceOf recipient balance }

/-- `_transfer`.  The recipient's balance is read after the sender's has been written. -/
def move (source recipient : Address) (amount : Uint256) (t : MockFXRP) : Except Revert MockFXRP :=
  match Uint256.sub (t.balanceOf source) amount with
  | none => .error (.insufficientBalance (t.balanceOf source) amount)
  | some rest => do
    let balanceOf := Function.update t.balanceOf source rest
    let balance ← checked (Uint256.add (balanceOf recipient) amount)
    return { t with balanceOf := Function.update balanceOf recipient balance }

def transfer (sender recipient : Address) (amount : Uint256) (t : MockFXRP) :
    Except Revert (MockFXRP × Bool) :=
  (move sender recipient amount t).map fun t' => (t', true)

def approve (sender spender : Address) (amount : Uint256) (t : MockFXRP) : MockFXRP × Bool :=
  ({ t with allowance :=
      Function.update t.allowance sender (Function.update (t.allowance sender) spender amount) }, true)

/-- An allowance of `type(uint256).max` is not used up. -/
def spend (sender source : Address) (amount : Uint256) (t : MockFXRP) : Except Revert MockFXRP :=
  if t.allowance source sender = Uint256.max then .ok t
  else match Uint256.sub (t.allowance source sender) amount with
    | none => .error (.insufficientAllowance (t.allowance source sender) amount)
    | some rest => .ok (approve source sender rest t).1

def transferFrom (sender source recipient : Address) (amount : Uint256) (t : MockFXRP) :
    Except Revert (MockFXRP × Bool) := do
  let t' ← spend sender source amount t
  transfer source recipient amount t'

end MockFXRP

/-! ## 2. `MockVault` -/

structure MockVault where
  balanceOf : Address → Uint256
  totalDeposits : Uint256

/-- The token and the vault. -/
structure Deployment where
  asset : MockFXRP
  vault : MockVault

namespace MockVault

/-- The vault as it is deployed. -/
def deployed : MockVault := ⟨fun _ => 0, 0⟩

/-- `self` is the address of the vault. -/
def deposit (self sender : Address) (amount : Uint256) (d : Deployment) : Except Revert Deployment :=
  if amount = 0 then .error .zeroAmount
  else do
    let (asset, success) ← d.asset.transferFrom self sender self amount
    if success = false then .error .transferFailed
    else
      let balance ← checked (Uint256.add (d.vault.balanceOf sender) amount)
      let totalDeposits ← checked (Uint256.add d.vault.totalDeposits amount)
      return ⟨asset, ⟨Function.update d.vault.balanceOf sender balance, totalDeposits⟩⟩

def withdraw (self sender : Address) (amount : Uint256) (d : Deployment) :
    Except Revert Deployment :=
  if amount = 0 then .error .zeroAmount
  else match Uint256.sub (d.vault.balanceOf sender) amount with
    | none => .error (.insufficientBalance (d.vault.balanceOf sender) amount)
    | some rest => do
      let totalDeposits ← checked (Uint256.sub d.vault.totalDeposits amount)
      let (asset, success) ← d.asset.transfer self sender amount
      if success = false then .error .transferFailed
      else return ⟨asset, ⟨Function.update d.vault.balanceOf sender rest, totalDeposits⟩⟩

end MockVault

/-! ## 3. Transactions -/

/-- A call of one of the two contracts. -/
inductive Call
  | mint (recipient : Address) (amount : Uint256)
  | transfer (recipient : Address) (amount : Uint256)
  | approve (spender : Address) (amount : Uint256)
  | transferFrom (source recipient : Address) (amount : Uint256)
  | deposit (amount : Uint256)
  | withdraw (amount : Uint256)

/-- A call by some account other than the vault. -/
structure Transaction (vault : Address) where
  sender : Address
  other : sender ≠ vault
  call : Call

namespace Deployment

/-- Both contracts as they are deployed. -/
def fresh : Deployment := ⟨.deployed, .deployed⟩

def call (self sender : Address) (d : Deployment) : Call → Except Revert Deployment
  | .mint recipient amount => (d.asset.mint recipient amount).map fun asset => { d with asset }
  | .transfer recipient amount => (d.asset.transfer sender recipient amount).map fun r => { d with asset := r.1 }
  | .approve spender amount => .ok { d with asset := (d.asset.approve sender spender amount).1 }
  | .transferFrom source recipient amount =>
    (d.asset.transferFrom sender source recipient amount).map fun r => { d with asset := r.1 }
  | .deposit amount => MockVault.deposit self sender amount d
  | .withdraw amount => MockVault.withdraw self sender amount d

/-- A transaction; one that reverts changes nothing. -/
def transact {self : Address} (d : Deployment) (tx : Transaction self) : Deployment :=
  match d.call self tx.sender tx.call with
  | .ok d' => d'
  | .error _ => d

end Deployment

/-! ## 4. The token -/

/-- The supply is in the accounts. -/
def MockFXRP.Sound (t : MockFXRP) : Prop := total t.balanceOf = t.totalSupply.val

theorem checked_ok {x : Option Uint256} {n : Uint256} (h : checked x = .ok n) : x = some n := by
  cases x with
  | none => cases h
  | some m => exact congrArg some (Except.ok.inj h)

theorem bind_ok {α β : Type} {x : Except Revert α} {f : α → Except Revert β} {b : β}
    (h : x >>= f = .ok b) : ∃ a, x = .ok a ∧ f a = .ok b := by
  cases x with
  | error e => cases h
  | ok a => exact ⟨a, rfl, h⟩

theorem map_ok {α β : Type} {x : Except Revert α} {f : α → β} {b : β} (h : x.map f = .ok b) :
    ∃ a, x = .ok a ∧ f a = b := by
  cases x with
  | error e => cases h
  | ok a => exact ⟨a, rfl, Except.ok.inj h⟩

namespace MockFXRP

variable {t t' : MockFXRP} {sender source recipient : Address} {amount : Uint256}

theorem mint_ok (h : mint recipient amount t = .ok t') : ∃ totalSupply balance,
    Uint256.add t.totalSupply amount = some totalSupply ∧
      Uint256.add (t.balanceOf recipient) amount = some balance ∧
      t' = ⟨totalSupply, Function.update t.balanceOf recipient balance, t.allowance⟩ := by
  obtain ⟨totalSupply, hsupply, h⟩ := bind_ok h
  obtain ⟨balance, hbalance, h⟩ := bind_ok h
  exact ⟨totalSupply, balance, checked_ok hsupply, checked_ok hbalance, (Except.ok.inj h).symm⟩

theorem Sound.mint (hs : t.Sound) (h : mint recipient amount t = .ok t') :
    t'.Sound ∧ t'.allowance = t.allowance ∧ ∀ a, (t.balanceOf a).val ≤ (t'.balanceOf a).val := by
  obtain ⟨totalSupply, balance, hsupply, hbalance, rfl⟩ := mint_ok h
  refine ⟨?_, rfl, fun a => ?_⟩
  · rw [Sound] at hs
    rw [Sound, total_credit hbalance, hs, Uint256.add_eq_some.mp hsupply]
  · by_cases ha : a = recipient
    · subst ha
      simp only [Function.update_self, Uint256.add_eq_some.mp hbalance]
      omega
    · simp only [Function.update_of_ne ha, le_refl]

/-- What a move does to every balance; the sender may be the recipient. -/
structure Moved (source recipient : Address) (amount : Uint256) (t t' : MockFXRP) : Prop where
  enough : amount.val ≤ (t.balanceOf source).val
  total : total t'.balanceOf = total t.balanceOf
  totalSupply : t'.totalSupply = t.totalSupply
  allowance : t'.allowance = t.allowance
  balanceOf : ∀ a, (t'.balanceOf a).val =
    (t.balanceOf a).val - (if a = source then amount.val else 0) +
      (if a = recipient then amount.val else 0)

theorem Moved.sound (h : Moved source recipient amount t t') (hs : t.Sound) : t'.Sound := by
  rw [Sound, h.total, h.totalSupply]
  exact hs

theorem move_ok (h : move source recipient amount t = .ok t') :
    Moved source recipient amount t t' := by
  unfold move at h
  split at h
  case h_1 => cases h
  case h_2 rest hrest =>
    obtain ⟨balance, hbalance, h⟩ := bind_ok h
    cases h
    have hcredit := checked_ok hbalance
    obtain ⟨henough, hval⟩ := Uint256.sub_eq_some.mp hrest
    refine ⟨henough, ?_, rfl, rfl, fun a => ?_⟩
    · have hdebit := total_debit hrest
      have hsum := total_credit hcredit
      dsimp only
      omega
    · have hbal := Uint256.add_eq_some.mp hcredit
      by_cases hr : a = recipient
      · subst hr
        by_cases hsource : a = source
        · subst hsource
          simp only [Function.update_self] at hbal ⊢
          simp only [if_true]
          omega
        · simp only [Function.update_self, Function.update_of_ne hsource] at hbal ⊢
          simp only [if_neg hsource, if_true]
          omega
      · by_cases hsource : a = source
        · subst hsource
          simp only [Function.update_of_ne hr, Function.update_self, if_true, if_neg hr]
          omega
        · simp only [Function.update_of_ne hr, Function.update_of_ne hsource, if_neg hr,
            if_neg hsource]
          omega

/-- A sound token moves whatever the sender has: no balance can overflow. -/
theorem Sound.move (hs : t.Sound) (henough : amount.val ≤ (t.balanceOf source).val) :
    ∃ t', move source recipient amount t = .ok t' := by
  have hsub : ∃ rest, Uint256.sub (t.balanceOf source) amount = some rest := by
    rw [Uint256.sub, if_pos henough]
    exact ⟨_, rfl⟩
  obtain ⟨rest, hrest⟩ := hsub
  have hdebit := total_debit hrest
  have hle := le_total (Function.update t.balanceOf source rest) recipient
  have hlt := t.totalSupply.isLt
  rw [Sound] at hs
  have hroom : (Function.update t.balanceOf source rest recipient).val + amount.val < 2 ^ 256 := by
    omega
  unfold MockFXRP.move
  rw [hrest]
  simp only [Uint256.add, dif_pos hroom]
  exact ⟨_, rfl⟩

theorem transfer_ok {success : Bool} (h : transfer sender recipient amount t = .ok (t', success)) :
    Moved sender recipient amount t t' ∧ success = true := by
  obtain ⟨t'', hmove, heq⟩ := map_ok h
  cases heq
  exact ⟨move_ok hmove, rfl⟩

/-- Spending leaves the balances alone, and an allowance of nothing stays one. -/
theorem spend_ok (self : Address) (h : spend sender source amount t = .ok t') :
    t'.balanceOf = t.balanceOf ∧ t'.totalSupply = t.totalSupply ∧
      (t.allowance self = (fun _ => 0) → t'.allowance self = fun _ => 0) ∧
      (t.allowance source sender = 0 → amount = 0) := by
  unfold spend at h
  split at h
  case isTrue hmax =>
    cases h
    refine ⟨rfl, rfl, id, fun hzero => ?_⟩
    rw [hzero] at hmax
    exact absurd (Fin.ext_iff.mp hmax) (by decide)
  case isFalse =>
    split at h
    case h_1 => cases h
    case h_2 rest hrest =>
      cases h
      obtain ⟨hle, hval⟩ := Uint256.sub_eq_some.mp hrest
      refine ⟨rfl, rfl, fun hnone => ?_, fun hzero => ?_⟩
      · by_cases hself : self = source
        · subst hself
          rw [hnone, Fin.val_zero] at hval
          have hzero : rest = 0 := Fin.ext (by rw [hval, Fin.val_zero, Nat.zero_sub])
          simp only [approve, Function.update_self, hnone, hzero]
          exact Function.update_eq_self sender (fun _ => (0 : Uint256))
        · simp only [approve, Function.update_of_ne hself, hnone]
      · rw [hzero, Fin.val_zero] at hle
        exact Fin.ext (Nat.le_zero.mp hle)

theorem transferFrom_ok {success : Bool}
    (h : transferFrom sender source recipient amount t = .ok (t', success)) :
    ∃ t₁, spend sender source amount t = .ok t₁ ∧ Moved source recipient amount t₁ t' ∧
      success = true := by
  obtain ⟨t₁, hspend, h⟩ := bind_ok h
  exact ⟨t₁, hspend, transfer_ok h⟩

end MockFXRP

/-! ## 5. The vault -/

namespace MockVault

variable {vault sender : Address} {d d' : Deployment} {amount : Uint256}

/-- A withdrawal that goes through, write by write. -/
theorem withdraw_ok (h : withdraw vault sender amount d = .ok d') : ∃ rest totalDeposits t,
    Uint256.sub (d.vault.balanceOf sender) amount = some rest ∧
      Uint256.sub d.vault.totalDeposits amount = some totalDeposits ∧
      MockFXRP.Moved vault sender amount d.asset t ∧
      d' = ⟨t, ⟨Function.update d.vault.balanceOf sender rest, totalDeposits⟩⟩ := by
  unfold withdraw at h
  split at h
  case isTrue => cases h
  case isFalse =>
    split at h
    case h_1 => cases h
    case h_2 rest hrest =>
      obtain ⟨totalDeposits, htotal, h⟩ := bind_ok h
      obtain ⟨⟨t, success⟩, hasset, h⟩ := bind_ok h
      obtain ⟨hmoved, rfl⟩ := MockFXRP.transfer_ok hasset
      dsimp only at h
      rw [if_neg (by decide)] at h
      cases h
      exact ⟨rest, totalDeposits, t, hrest, checked_ok htotal, hmoved, rfl⟩

/-- What a withdrawal leaves: the caller's shares and the deposits are down by the amount, which
has gone from the vault to the caller, and no other account has changed. -/
structure Withdrawn (vault sender : Address) (amount : Uint256) (d d' : Deployment) : Prop where
  shares : ∀ a, (d'.vault.balanceOf a).val =
    (d.vault.balanceOf a).val - (if a = sender then amount.val else 0)
  totalDeposits : d'.vault.totalDeposits.val = d.vault.totalDeposits.val - amount.val
  moved : MockFXRP.Moved vault sender amount d.asset d'.asset

theorem withdrawn (h : withdraw vault sender amount d = .ok d') :
    Withdrawn vault sender amount d d' := by
  obtain ⟨rest, totalDeposits, t, hrest, htotal, hmoved, rfl⟩ := withdraw_ok h
  refine ⟨fun a => ?_, (Uint256.sub_eq_some.mp htotal).2, hmoved⟩
  by_cases ha : a = sender
  · subst ha
    rw [if_pos rfl]
    dsimp only
    rw [Function.update_self]
    exact (Uint256.sub_eq_some.mp hrest).2
  · rw [if_neg ha]
    dsimp only
    rw [Function.update_of_ne ha, Nat.sub_zero]

end MockVault

/-- Both books add up, the vault holds what was deposited, and nobody may spend it. -/
structure Solvent (vault : Address) (d : Deployment) : Prop where
  supply : d.asset.Sound
  deposits : total d.vault.balanceOf = d.vault.totalDeposits.val
  backed : d.vault.totalDeposits.val ≤ (d.asset.balanceOf vault).val
  unspent : d.asset.allowance vault = fun _ => 0

namespace Solvent

variable {vault sender : Address} {d d' : Deployment} {amount : Uint256}

theorem fresh (vault : Address) : Solvent vault .fresh where
  supply := total_zero
  deposits := total_zero
  backed := le_refl _
  unspent := rfl

/-- A call of the token alone: the vault must not become poorer. -/
theorem asset (h : Solvent vault d) {t : MockFXRP} (hsound : t.Sound)
    (hmore : (d.asset.balanceOf vault).val ≤ (t.balanceOf vault).val)
    (hunspent : t.allowance vault = fun _ => 0) : Solvent vault { d with asset := t } :=
  ⟨hsound, h.deposits, h.backed.trans hmore, hunspent⟩

theorem deposit (h : Solvent vault d) (hother : sender ≠ vault)
    (hcall : MockVault.deposit vault sender amount d = .ok d') : Solvent vault d' := by
  unfold MockVault.deposit at hcall
  split at hcall
  case isTrue => cases hcall
  case isFalse =>
    obtain ⟨⟨t, success⟩, hasset, hcall⟩ := bind_ok hcall
    obtain ⟨t₁, hspend, hmoved, rfl⟩ := MockFXRP.transferFrom_ok hasset
    obtain ⟨hbalances, hsupply, hunspent, -⟩ := MockFXRP.spend_ok vault hspend
    dsimp only at hcall
    rw [if_neg (by decide)] at hcall
    obtain ⟨balance, hbalance, hcall⟩ := bind_ok hcall
    obtain ⟨totalDeposits, htotal, hcall⟩ := bind_ok hcall
    cases hcall
    have hcredit := total_credit (checked_ok hbalance)
    have hadd := Uint256.add_eq_some.mp (checked_ok htotal)
    have hvault := hmoved.balanceOf vault
    rw [if_neg hother.symm, if_pos rfl, hbalances] at hvault
    have hdeposits := h.deposits
    have hbacked := h.backed
    refine ⟨hmoved.sound ?_, ?_, ?_, ?_⟩
    · rw [MockFXRP.Sound, hbalances, hsupply]
      exact h.supply
    · dsimp only
      omega
    · dsimp only
      omega
    · rw [hmoved.allowance, hunspent h.unspent]

theorem withdraw (h : Solvent vault d) (hother : sender ≠ vault)
    (hcall : MockVault.withdraw vault sender amount d = .ok d') : Solvent vault d' := by
  obtain ⟨rest, totalDeposits, t, hrest, htotal, hmoved, rfl⟩ := MockVault.withdraw_ok hcall
  have hdebit := total_debit hrest
  obtain ⟨hle, hsub⟩ := Uint256.sub_eq_some.mp htotal
  have hvault := hmoved.balanceOf vault
  rw [if_pos rfl, if_neg hother.symm] at hvault
  have hdeposits := h.deposits
  have hbacked := h.backed
  refine ⟨hmoved.sound h.supply, ?_, ?_, (congrFun hmoved.allowance vault).trans h.unspent⟩
  · dsimp only
    omega
  · dsimp only
    omega

/-- **A call of any account but the vault** keeps the vault solvent, whichever of the two
contracts it is made on: only the vault could move its tokens without a withdrawal. -/
theorem call (h : Solvent vault d) (hother : sender ≠ vault) {c : Call}
    (hcall : d.call vault sender c = .ok d') : Solvent vault d' := by
  cases c with
  | mint recipient amount =>
    obtain ⟨t, hmint, rfl⟩ := map_ok hcall
    obtain ⟨hsound, hallowance, hmore⟩ := h.supply.mint hmint
    exact h.asset hsound (hmore vault) (hallowance ▸ h.unspent)
  | transfer recipient amount =>
    obtain ⟨⟨t, success⟩, htransfer, rfl⟩ := map_ok hcall
    obtain ⟨hmoved, -⟩ := MockFXRP.transfer_ok htransfer
    refine h.asset (hmoved.sound h.supply) ?_ ((congrFun hmoved.allowance vault).trans h.unspent)
    rw [hmoved.balanceOf vault, if_neg hother.symm]
    exact Nat.le_add_right ..
  | approve spender amount =>
    cases hcall
    refine h.asset h.supply (le_refl _) ?_
    simp only [MockFXRP.approve, Function.update_of_ne hother.symm, h.unspent]
  | transferFrom source recipient amount =>
    obtain ⟨⟨t, success⟩, htransfer, rfl⟩ := map_ok hcall
    obtain ⟨t₁, hspend, hmoved, -⟩ := MockFXRP.transferFrom_ok htransfer
    obtain ⟨hbalances, hsupply, hunspent, hnothing⟩ := MockFXRP.spend_ok vault hspend
    refine h.asset (hmoved.sound ?_) ?_ ((congrFun hmoved.allowance vault).trans (hunspent h.unspent))
    · rw [MockFXRP.Sound, hbalances, hsupply]
      exact h.supply
    · rw [hmoved.balanceOf vault, hbalances]
      by_cases hsource : vault = source
      · -- the vault has approved nobody, so nothing moves
        subst hsource
        have hzero : amount = 0 := hnothing (by rw [h.unspent])
        simp only [hzero, Fin.val_zero, ite_self, Nat.sub_zero, Nat.add_zero, le_refl]
      · rw [if_neg hsource]
        exact Nat.le_add_right ..
  | deposit amount => exact h.deposit hother hcall
  | withdraw amount => exact h.withdraw hother hcall

theorem transact (h : Solvent vault d) (tx : Transaction vault) : Solvent vault (d.transact tx) := by
  unfold Deployment.transact
  split
  case h_1 d' hcall => exact h.call tx.other hcall
  case h_2 => exact h

/-- **Solvency along every history**: transactions by any callers on the token and on the vault,
those that revert among them, keep the vault solvent. -/
theorem run (h : Solvent vault d) (txs : List (Transaction vault)) :
    Solvent vault (txs.foldl Deployment.transact d) := by
  induction txs generalizing d with
  | nil => exact h
  | cons tx txs ih => exact ih (h.transact tx)

/-- Nobody is kept from what he has deposited. -/
theorem withdraws (h : Solvent vault d) (sender : Address) (hpositive : amount ≠ 0)
    (hle : amount.val ≤ (d.vault.balanceOf sender).val) :
    ∃ d', MockVault.withdraw vault sender amount d = .ok d' ∧
      MockVault.Withdrawn vault sender amount d d' := by
  have hown := le_total d.vault.balanceOf sender
  have hdeposits := h.deposits
  have hbacked := h.backed
  have hmove : ∃ t, MockFXRP.move vault sender amount d.asset = .ok t := h.supply.move (by omega)
  obtain ⟨t, htransfer⟩ := hmove
  have hcall : ∃ d', MockVault.withdraw vault sender amount d = .ok d' := by
    unfold MockVault.withdraw
    rw [if_neg hpositive, Uint256.sub, if_pos hle]
    simp only [MockFXRP.transfer, htransfer, Except.map, Uint256.sub,
      if_pos (show amount.val ≤ d.vault.totalDeposits.val by omega), checked, Option.elim]
    exact ⟨_, rfl⟩
  obtain ⟨d', hcall⟩ := hcall
  exact ⟨d', hcall, MockVault.withdrawn hcall⟩

end Solvent

/-- **Solvency and conservation.**  After any transactions, the token balances add up to the
supply and the vault's to the deposits, the vault holds at least the deposits, and everybody can
withdraw any positive amount up to his balance: the call goes through, and moves that amount from
the vault to him, out of his own shares. -/
theorem vault_solvent {vault : Address} (txs : List (Transaction vault)) :
    let d := txs.foldl Deployment.transact .fresh
    total d.asset.balanceOf = d.asset.totalSupply.val ∧
      total d.vault.balanceOf = d.vault.totalDeposits.val ∧
      d.vault.totalDeposits.val ≤ (d.asset.balanceOf vault).val ∧
      ∀ (sender : Address) (amount : Uint256), amount ≠ 0 →
        amount.val ≤ (d.vault.balanceOf sender).val →
        ∃ d', MockVault.withdraw vault sender amount d = .ok d' ∧
          MockVault.Withdrawn vault sender amount d d' := by
  have h : Solvent vault _ := (Solvent.fresh vault).run txs
  exact ⟨h.supply, h.deposits, h.backed, fun sender amount => h.withdraws sender⟩

namespace Sample

/-- One account mints, approves the vault and deposits; another spends an unlimited allowance. -/
def transactions : List (Transaction 9) :=
  [⟨1, by decide, .mint 1 1000⟩, ⟨1, by decide, .approve 9 100⟩, ⟨1, by decide, .deposit 100⟩,
    ⟨1, by decide, .approve 2 Uint256.max⟩, ⟨2, by decide, .transferFrom 1 2 300⟩]

/-- What they lead to. -/
def deployment : Deployment := transactions.foldl Deployment.transact .fresh

end Sample

/-- The depositor takes out sixty of the hundred he has: forty are left to him and to the vault, and
he has six hundred and sixty tokens.  A hundred and one he is refused. -/
theorem vault_solvent_sample :
    (∃ d', MockVault.withdraw 9 1 60 Sample.deployment = .ok d' ∧
      (d'.vault.balanceOf 1).val = 40 ∧ d'.vault.totalDeposits.val = 40 ∧
      (d'.asset.balanceOf 9).val = 40 ∧ (d'.asset.balanceOf 1).val = 660) ∧
    MockVault.withdraw 9 1 101 Sample.deployment = .error (.insufficientBalance 100 101) := by
  have hshares : Sample.deployment.vault.balanceOf 1 = 100 := by decide +kernel
  have hdeposits : Sample.deployment.vault.totalDeposits = 100 := by decide +kernel
  have hheld : Sample.deployment.asset.balanceOf 9 = 100 := by decide +kernel
  have hown : Sample.deployment.asset.balanceOf 1 = 600 := by decide +kernel
  refine ⟨?_, ?_⟩
  · have hpaid := (vault_solvent Sample.transactions).2.2.2 1 60 (by decide) (by decide +kernel)
    obtain ⟨d', hcall, hleft⟩ := hpaid
    change MockVault.Withdrawn 9 1 60 Sample.deployment d' at hleft
    refine ⟨d', hcall, ?_, ?_, ?_, ?_⟩
    · rw [hleft.shares 1, hshares]
      rfl
    · rw [hleft.totalDeposits, hdeposits]
      rfl
    · rw [hleft.moved.balanceOf 9, hheld]
      rfl
    · rw [hleft.moved.balanceOf 1, hown]
      rfl
  · rw [MockVault.withdraw, if_neg (by decide), hshares]
    rfl

end OneSig.Contracts
