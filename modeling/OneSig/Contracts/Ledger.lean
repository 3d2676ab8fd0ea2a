/-
# Who paid whom

`Solvent` says that the books of the token and of the vault add up.  This module says how they
came to: a call that goes through moves one amount from one account to another (`Call.outgoing`,
`Call.incoming`), and over any history the balance of every account is what came in less what went
out.  A call that reverts counts for nothing, and whether it does is read off the state it arrives
in (`settled`).

* The shares of an account are its own deposits less its own withdrawals, and the vault holds the
  deposits and what was sent to its address past `deposit`, to the token (`vault_ledger`).
* A spender moves no more of somebody else's tokens than he was allowed to, summed over the
  history (`allowance_spent`), an unlimited allowance apart, which is never used up.
* An account other than the vault that sends no transaction keeps its shares, and loses at most
  what it had allowed others to take (`silent_account`).

`Effect` is what one call does, account by account: every balance with what has left it is what it
was with what has reached it, and likewise for the shares and the allowances.  It is proved once
for each of the calls, and the results over histories follow from it by the rules for amounts
along a run; they do not look at the calls again.  An account that pays itself is not a special
case, since the two sums count the amount on both sides.

The tokens are minted without a limit by anybody, as the mock contract has it, so nothing is said
about the supply beyond what `Solvent` says.
-/
import OneSig.Lib.Flow
import OneSig.Contracts.Vault

namespace OneSig.Contracts

open Balances Flow

/-! ## 1. Movements -/

namespace Call

/-- Tokens that leave an account. -/
def outgoing (vault sender a : Address) : Call → Nat
  | .mint _ _ => 0
  | .transfer _ amount => if sender = a then amount.val else 0
  | .approve _ _ => 0
  | .transferFrom source _ amount => if source = a then amount.val else 0
  | .deposit amount => if sender = a then amount.val else 0
  | .withdraw amount => if vault = a then amount.val else 0

/-- Tokens that reach an account. -/
def incoming (vault sender a : Address) : Call → Nat
  | .mint recipient amount => if recipient = a then amount.val else 0
  | .transfer recipient amount => if recipient = a then amount.val else 0
  | .approve _ _ => 0
  | .transferFrom _ recipient amount => if recipient = a then amount.val else 0
  | .deposit amount => if vault = a then amount.val else 0
  | .withdraw amount => if sender = a then amount.val else 0

/-- Tokens of an owner that a spender moves; `deposit` has the vault spend the depositor's. -/
def spent (vault sender owner spender : Address) : Call → Nat
  | .transferFrom source _ amount => if source = owner ∧ sender = spender then amount.val else 0
  | .deposit amount => if sender = owner ∧ vault = spender then amount.val else 0
  | _ => 0

/-- Tokens that reach the vault past `deposit`. -/
def donated (vault : Address) : Call → Nat
  | .mint recipient amount => if recipient = vault then amount.val else 0
  | .transfer recipient amount => if recipient = vault then amount.val else 0
  | .transferFrom _ recipient amount => if recipient = vault then amount.val else 0
  | _ => 0

/-- What an owner allows a spender. -/
def approved (sender owner spender : Address) : Call → Nat
  | .approve spender' amount => if sender = owner ∧ spender' = spender then amount.val else 0
  | _ => 0

def deposited (sender a : Address) : Call → Nat
  | .deposit amount => if sender = a then amount.val else 0
  | _ => 0

def withdrawn (sender a : Address) : Call → Nat
  | .withdraw amount => if sender = a then amount.val else 0
  | _ => 0

end Call

namespace Deployment

variable {vault : Address}

/-- An amount of a transaction, if it goes through. -/
def settled (amount : Address → Call → Nat) (d : Deployment) (tx : Transaction vault) : Nat :=
  match d.call vault tx.sender tx.call with
  | .ok _ => amount tx.sender tx.call
  | .error _ => 0

/-- An amount over a history. -/
def overall (amount : Address → Call → Nat) (d : Deployment) (txs : List (Transaction vault)) : Nat :=
  along transact (settled amount) d txs

end Deployment

/-! ## 2. Allowances -/

namespace MockFXRP

variable {t t' : MockFXRP} {sender source : Address} {amount : Uint256}

/-- Spending uses up the allowance, unless it is unlimited. -/
theorem spend_cases (h : spend sender source amount t = .ok t') :
    (t.allowance source sender = Uint256.max ∧ t' = t) ∨
      ∃ rest, t.allowance source sender ≠ Uint256.max ∧
        Uint256.sub (t.allowance source sender) amount = some rest ∧
        t' = (approve source sender rest t).1 := by
  unfold spend at h
  split at h
  case isTrue hmax =>
    cases h
    exact Or.inl ⟨hmax, rfl⟩
  case isFalse hmax =>
    split at h
    case h_1 => cases h
    case h_2 rest hrest =>
      cases h
      exact Or.inr ⟨rest, hmax, hrest, rfl⟩

theorem approve_self (owner spender : Address) (n : Uint256) :
    (approve owner spender n t).1.allowance owner spender = n := by
  simp only [approve, Function.update_self]

theorem approve_other {owner spender a b : Address} (n : Uint256) (h : ¬(owner = a ∧ spender = b)) :
    (approve owner spender n t).1.allowance a b = t.allowance a b := by
  by_cases ha : a = owner
  · subst ha
    have hb : b ≠ spender := fun hb => h ⟨rfl, hb.symm⟩
    simp only [approve, Function.update_self, Function.update_of_ne hb]
  · simp only [approve, Function.update_of_ne ha]

theorem spend_limited (h : spend sender source amount t = .ok t') (owner spender : Address) :
    t.allowance owner spender = Uint256.max ∨
      (t'.allowance owner spender).val +
        (if source = owner ∧ sender = spender then amount.val else 0) ≤
          (t.allowance owner spender).val := by
  rcases spend_cases h with ⟨hmax, rfl⟩ | ⟨rest, hmax, hrest, rfl⟩
  · by_cases hpair : source = owner ∧ sender = spender
    · obtain ⟨rfl, rfl⟩ := hpair
      exact Or.inl hmax
    · rw [if_neg hpair]
      exact Or.inr (Nat.le_refl _)
  · right
    by_cases hpair : source = owner ∧ sender = spender
    · obtain ⟨rfl, rfl⟩ := hpair
      obtain ⟨hle, hval⟩ := Uint256.sub_eq_some.mp hrest
      rw [approve_self, if_pos ⟨rfl, rfl⟩]
      omega
    · rw [approve_other rest hpair, if_neg hpair]
      exact Nat.le_refl _

/-- Nothing but an approval makes an allowance unlimited. -/
theorem spend_unlimited (h : spend sender source amount t = .ok t') {owner spender : Address}
    (hmax' : t'.allowance owner spender = Uint256.max) :
    t.allowance owner spender = Uint256.max := by
  rcases spend_limited h owner spender with hmax | hle
  · exact hmax
  · rw [hmax'] at hle
    have hlt := (t.allowance owner spender).isLt
    have hval : Uint256.max.val = 2 ^ 256 - 1 := rfl
    exact Fin.ext (by omega)

/-- The allowances of an owner who has given no unlimited one. -/
theorem spend_total (h : spend sender source amount t = .ok t') {owner : Address}
    (hlimited : ∀ spender, t.allowance owner spender ≠ Uint256.max) :
    total (t'.allowance owner) + (if source = owner then amount.val else 0) =
      total (t.allowance owner) := by
  rcases spend_cases h with ⟨hmax, rfl⟩ | ⟨rest, hmax, hrest, rfl⟩
  · by_cases howner : source = owner
    · subst howner
      exact absurd hmax (hlimited _)
    · rw [if_neg howner, Nat.add_zero]
  · by_cases howner : source = owner
    · subst howner
      have hnew : (approve source sender rest t).1.allowance source =
          Function.update (t.allowance source) sender rest := Function.update_self _ _ _
      rw [hnew, if_pos rfl]
      exact total_debit hrest
    · have hsame : (approve source sender rest t).1.allowance owner = t.allowance owner :=
        Function.update_of_ne (Ne.symm howner) _ _
      rw [hsame, if_neg howner, Nat.add_zero]

end MockFXRP

/-! ## 3. What a call does -/

/-- A call that goes through, account by account. -/
structure Effect (vault sender : Address) (c : Call) (d d' : Deployment) : Prop where
  tokens : ∀ a, (d'.asset.balanceOf a).val + c.outgoing vault sender a =
    (d.asset.balanceOf a).val + c.incoming vault sender a
  shares : ∀ a, (d'.vault.balanceOf a).val + c.withdrawn sender a =
    (d.vault.balanceOf a).val + c.deposited sender a
  deposits : d'.vault.totalDeposits.val + c.withdrawn sender sender =
    d.vault.totalDeposits.val + c.deposited sender sender
  allowance : ∀ owner spender, d.asset.allowance owner spender = Uint256.max ∨
    (d'.asset.allowance owner spender).val + c.spent vault sender owner spender ≤
      (d.asset.allowance owner spender).val + c.approved sender owner spender
  unlimited : ∀ owner spender, d'.asset.allowance owner spender = Uint256.max →
    d.asset.allowance owner spender = Uint256.max ∨
      sender = owner ∧ c = .approve spender Uint256.max
  silent : ∀ a, sender ≠ a → vault ≠ a →
    (∀ spender, d.asset.allowance a spender ≠ Uint256.max) →
    total (d'.asset.allowance a) + c.outgoing vault sender a ≤ total (d.asset.allowance a)

namespace Effect

variable {vault sender : Address} {d d' : Deployment}

open MockFXRP

theorem mint {recipient : Address} {amount : Uint256} {t : MockFXRP}
    (h : MockFXRP.mint recipient amount d.asset = .ok t) :
    Effect vault sender (.mint recipient amount) d { d with asset := t } := by
  obtain ⟨totalSupply, balance, -, hbalance, rfl⟩ := mint_ok h
  have hval := Uint256.add_eq_some.mp hbalance
  refine ⟨fun a => ?_, fun a => rfl, rfl, fun owner spender => Or.inr (Nat.le_refl _),
    fun owner spender hmax => Or.inl hmax, fun a _ _ _ => (Nat.add_zero _).le⟩
  rw [Call.outgoing, Call.incoming]
  by_cases ha : recipient = a
  · subst ha
    rw [if_pos rfl]
    simp only [Function.update_self, hval, Nat.add_zero]
  · rw [if_neg ha]
    simp only [Function.update_of_ne (Ne.symm ha)]

theorem approve (spender : Address) (amount : Uint256) :
    Effect vault sender (.approve spender amount) d
      { d with asset := (d.asset.approve sender spender amount).1 } := by
  refine ⟨fun a => rfl, fun a => rfl, rfl, fun owner spender' => Or.inr ?_,
    fun owner spender' hmax => ?_, fun a hother _ _ => ?_⟩
  · simp only [Call.spent, Call.approved]
    by_cases hpair : sender = owner ∧ spender = spender'
    · obtain ⟨rfl, rfl⟩ := hpair
      rw [if_pos ⟨rfl, rfl⟩, approve_self]
      exact Nat.le_add_left _ _
    · rw [if_neg hpair, approve_other amount hpair]
  · by_cases hpair : sender = owner ∧ spender = spender'
    · obtain ⟨rfl, rfl⟩ := hpair
      have hamount : amount = Uint256.max := (approve_self sender spender amount).symm.trans hmax
      exact Or.inr ⟨rfl, by rw [hamount]⟩
    · exact Or.inl ((approve_other amount hpair).symm.trans hmax)
  · have hsame : (d.asset.approve sender spender amount).1.allowance a = d.asset.allowance a :=
      Function.update_of_ne (Ne.symm hother) _ _
    rw [hsame]
    exact (Nat.add_zero _).le

/-- A move of tokens, account by account. -/
theorem moved_tokens {source recipient : Address} {amount : Uint256} {t t' : MockFXRP}
    (h : Moved source recipient amount t t') (a : Address) :
    (t'.balanceOf a).val + (if source = a then amount.val else 0) =
      (t.balanceOf a).val + (if recipient = a then amount.val else 0) := by
  have hbalance := h.balanceOf a
  have henough := h.enough
  by_cases hs : source = a
  · subst hs
    rw [if_pos rfl] at hbalance ⊢
    by_cases hr : recipient = source
    · subst hr
      rw [if_pos rfl] at hbalance ⊢
      omega
    · rw [if_neg (Ne.symm hr)] at hbalance
      rw [if_neg hr]
      omega
  · rw [if_neg (Ne.symm hs)] at hbalance
    rw [if_neg hs]
    by_cases hr : recipient = a
    · subst hr
      rw [if_pos rfl] at hbalance ⊢
      omega
    · rw [if_neg (Ne.symm hr)] at hbalance
      rw [if_neg hr]
      omega

theorem transfer {recipient : Address} {amount : Uint256} {t : MockFXRP}
    (h : Moved sender recipient amount d.asset t) :
    Effect vault sender (.transfer recipient amount) d { d with asset := t } := by
  refine ⟨moved_tokens h, fun a => rfl, rfl, fun owner spender => Or.inr ?_,
    fun owner spender hmax => Or.inl ?_, fun a hother _ _ => ?_⟩
  · rw [h.allowance]
    exact Nat.le_refl _
  · rw [← h.allowance]
    exact hmax
  · rw [h.allowance, Call.outgoing, if_neg hother, Nat.add_zero]

theorem transferFrom {source recipient : Address} {amount : Uint256} {t₁ t : MockFXRP}
    (hspend : spend sender source amount d.asset = .ok t₁)
    (hmoved : Moved source recipient amount t₁ t) :
    Effect vault sender (.transferFrom source recipient amount) d { d with asset := t } := by
  obtain ⟨hbalances, -, -, -⟩ := spend_ok vault hspend
  refine ⟨fun a => ?_, fun a => rfl, rfl, fun owner spender => ?_, fun owner spender hmax => ?_,
    fun a _ _ hlimited => ?_⟩
  · rw [← hbalances]
    exact moved_tokens hmoved a
  · rw [hmoved.allowance]
    exact spend_limited hspend owner spender
  · rw [hmoved.allowance] at hmax
    exact Or.inl (spend_unlimited hspend hmax)
  · rw [hmoved.allowance]
    exact Nat.le_of_eq (spend_total hspend hlimited)

theorem deposit {amount : Uint256} (hcall : MockVault.deposit vault sender amount d = .ok d') :
    Effect vault sender (.deposit amount) d d' := by
  unfold MockVault.deposit at hcall
  split at hcall
  case isTrue => cases hcall
  case isFalse =>
    obtain ⟨⟨t, success⟩, hasset, hcall⟩ := bind_ok hcall
    obtain ⟨t₁, hspend, hmoved, rfl⟩ := transferFrom_ok hasset
    obtain ⟨hbalances, -, -, -⟩ := spend_ok vault hspend
    dsimp only at hcall
    rw [if_neg (by decide)] at hcall
    obtain ⟨balance, hbalance, hcall⟩ := bind_ok hcall
    obtain ⟨totalDeposits, htotal, hcall⟩ := bind_ok hcall
    cases hcall
    have hcredit := Uint256.add_eq_some.mp (checked_ok hbalance)
    have hadd := Uint256.add_eq_some.mp (checked_ok htotal)
    refine ⟨fun a => ?_, fun a => ?_, ?_, fun owner spender => ?_, fun owner spender hmax => ?_,
      fun a hother _ _ => ?_⟩
    · rw [← hbalances]
      exact moved_tokens hmoved a
    · simp only [Call.withdrawn, Call.deposited]
      by_cases ha : sender = a
      · subst ha
        rw [if_pos rfl]
        simp only [Function.update_self, hcredit, Nat.add_zero]
      · rw [if_neg ha]
        simp only [Function.update_of_ne (Ne.symm ha)]
    · simp only [Call.withdrawn, Call.deposited, if_true]
      exact hadd
    · rw [hmoved.allowance]
      exact spend_limited hspend owner spender
    · rw [hmoved.allowance] at hmax
      exact Or.inl (spend_unlimited hspend hmax)
    · -- only the sender's allowances are used
      have hsame : t₁.allowance a = d.asset.allowance a := by
        rcases spend_cases hspend with ⟨-, rfl⟩ | ⟨rest, -, -, rfl⟩
        · rfl
        · exact Function.update_of_ne (Ne.symm hother) _ _
      rw [hmoved.allowance, hsame, Call.outgoing, if_neg hother, Nat.add_zero]

theorem withdraw {amount : Uint256} (hcall : MockVault.withdraw vault sender amount d = .ok d') :
    Effect vault sender (.withdraw amount) d d' := by
  obtain ⟨rest, totalDeposits, t, hrest, htotal, hmoved, rfl⟩ := MockVault.withdraw_ok hcall
  obtain ⟨hle, hdebit⟩ := Uint256.sub_eq_some.mp hrest
  obtain ⟨hle', hsub⟩ := Uint256.sub_eq_some.mp htotal
  refine ⟨moved_tokens hmoved, fun a => ?_, ?_, fun owner spender => Or.inr ?_,
    fun owner spender hmax => Or.inl ?_, fun a _ hself _ => ?_⟩
  · simp only [Call.withdrawn, Call.deposited]
    by_cases ha : sender = a
    · subst ha
      rw [if_pos rfl]
      simp only [Function.update_self]
      omega
    · rw [if_neg ha]
      simp only [Function.update_of_ne (Ne.symm ha)]
  · simp only [Call.withdrawn, Call.deposited, if_true]
    omega
  · rw [hmoved.allowance]
    exact Nat.le_refl _
  · rw [← hmoved.allowance]
    exact hmax
  · rw [hmoved.allowance, Call.outgoing, if_neg hself, Nat.add_zero]

/-- **Every call that goes through has its effect**: on each of the two contracts the balances,
the totals and the allowances change by what the call says, and nothing else does. -/
theorem of_call {c : Call} (hcall : d.call vault sender c = .ok d') : Effect vault sender c d d' := by
  cases c with
  | mint recipient amount =>
    obtain ⟨t, hmint, rfl⟩ := map_ok hcall
    exact mint hmint
  | transfer recipient amount =>
    obtain ⟨⟨t, success⟩, htransfer, rfl⟩ := map_ok hcall
    exact transfer (transfer_ok htransfer).1
  | approve spender amount =>
    cases hcall
    exact approve spender amount
  | transferFrom source recipient amount =>
    obtain ⟨⟨t, success⟩, htransfer, rfl⟩ := map_ok hcall
    obtain ⟨t₁, hspend, hmoved, -⟩ := transferFrom_ok htransfer
    exact transferFrom hspend hmoved
  | deposit amount => exact deposit hcall
  | withdraw amount => exact withdraw hcall

end Effect

/-! ## 4. Histories -/

/-- A transaction has the effect of its call, or it changes nothing and moves nothing. -/
theorem transact_cases {vault : Address} (d : Deployment) (tx : Transaction vault) :
    (Effect vault tx.sender tx.call d (d.transact tx) ∧
        ∀ amount, d.settled amount tx = amount tx.sender tx.call) ∨
      (d.transact tx = d ∧ ∀ amount, d.settled amount tx = 0) := by
  cases h : d.call vault tx.sender tx.call with
  | ok d' =>
    have heffect := Effect.of_call h
    refine Or.inl ⟨?_, fun amount => ?_⟩
    · simp only [Deployment.transact, h]
      exact heffect
    · simp only [Deployment.settled, h]
  | error e =>
    refine Or.inr ⟨?_, fun amount => ?_⟩
    · simp only [Deployment.transact, h]
    · simp only [Deployment.settled, h]

/-- What the vault holds beyond the deposits grows by what is sent to it, and by nothing else. -/
theorem surplus_call {vault sender : Address} {c : Call} {d d' : Deployment} (h : Solvent vault d)
    (hother : sender ≠ vault) (hcall : d.call vault sender c = .ok d') :
    (d'.asset.balanceOf vault).val + d.vault.totalDeposits.val =
      (d.asset.balanceOf vault).val + d'.vault.totalDeposits.val + c.donated vault := by
  have heffect := Effect.of_call hcall
  have htokens := heffect.tokens vault
  have hdeposits := heffect.deposits
  cases c with
  | mint recipient amount =>
    simp only [Call.outgoing, Call.incoming, Call.withdrawn, Call.deposited, Call.donated]
      at htokens hdeposits ⊢
    omega
  | transfer recipient amount =>
    simp only [Call.outgoing, Call.incoming, if_neg hother, Call.withdrawn, Call.deposited,
      Call.donated] at htokens hdeposits ⊢
    omega
  | approve spender amount =>
    simp only [Call.outgoing, Call.incoming, Call.withdrawn, Call.deposited, Call.donated]
      at htokens hdeposits ⊢
    omega
  | transferFrom source recipient amount =>
    simp only [Call.outgoing, Call.incoming, Call.withdrawn, Call.deposited, Call.donated]
      at htokens hdeposits ⊢
    by_cases hsource : source = vault
    · -- the vault has approved nobody, so nothing moves
      subst hsource
      obtain ⟨⟨t, success⟩, htransfer, rfl⟩ := map_ok hcall
      obtain ⟨t₁, hspend, -, -⟩ := MockFXRP.transferFrom_ok htransfer
      obtain ⟨-, -, -, hnothing⟩ := MockFXRP.spend_ok source hspend
      have hzero : amount = 0 := hnothing (by rw [h.unspent])
      subst hzero
      simp only [Fin.val_zero, ite_self] at htokens ⊢
      omega
    · rw [if_neg hsource] at htokens
      omega
  | deposit amount =>
    simp only [Call.outgoing, Call.incoming, if_neg hother, Call.withdrawn, Call.deposited, if_true,
      Call.donated] at htokens hdeposits ⊢
    omega
  | withdraw amount =>
    simp only [Call.outgoing, Call.incoming, if_neg hother, Call.withdrawn, Call.deposited, if_true,
      Call.donated] at htokens hdeposits ⊢
    omega

/-- What the vault holds beyond the deposits. -/
def surplus (vault : Address) (d : Deployment) : Nat :=
  (d.asset.balanceOf vault).val - d.vault.totalDeposits.val

section Run

variable {vault : Address}

open Deployment

/-- An amount that every call balances is balanced by every history. -/
theorem run_eq (value : Deployment → Nat) (outflow inflow : Address → Call → Nat)
    (hcall : ∀ sender c d d', Effect vault sender c d d' →
      value d' + outflow sender c = value d + inflow sender c)
    (d : Deployment) (txs : List (Transaction vault)) :
    value (txs.foldl transact d) + overall outflow d txs = value d + overall inflow d txs := by
  refine along_eq (fun _ => True) value trivial fun d tx _ _ => ⟨trivial, ?_⟩
  rcases transact_cases d tx with ⟨heffect, hsettled⟩ | ⟨hsame, hsettled⟩
  · rw [hsettled, hsettled]
    exact hcall _ _ _ _ heffect
  · rw [hsettled, hsettled, hsame]

theorem surplus_transact {d : Deployment} (h : Solvent vault d) (tx : Transaction vault) :
    surplus vault (d.transact tx) = surplus vault d + d.settled (fun _ c => c.donated vault) tx := by
  have hbacked := h.backed
  have hbacked' := (h.transact tx).backed
  cases hcall : d.call vault tx.sender tx.call with
  | ok d' =>
    have hbalance := surplus_call h tx.other hcall
    simp only [transact, hcall] at hbacked'
    simp only [surplus, transact, settled, hcall]
    omega
  | error e => simp only [transact, settled, hcall, Nat.add_zero]

theorem surplus_run {d : Deployment} (h : Solvent vault d) (txs : List (Transaction vault)) :
    surplus vault (txs.foldl transact d) =
      surplus vault d + overall (fun _ c => c.donated vault) d txs := by
  have hrun : surplus vault (txs.foldl transact d) + along transact (fun _ _ => 0) d txs =
      surplus vault d + overall (fun _ c => c.donated vault) d txs := by
    refine along_eq (Solvent vault) (surplus vault) h fun d tx hd _ => ⟨hd.transact tx, ?_⟩
    rw [Nat.add_zero]
    exact surplus_transact hd tx
  rw [along_zero, Nat.add_zero] at hrun
  exact hrun

/-- **The ledger of every account**, and of the vault: after any history its tokens are what it
got less what it gave, its shares what it deposited less what it withdrew, and the vault holds the
deposits and what was given to it. -/
theorem vault_ledger (txs : List (Transaction vault)) :
    let d := txs.foldl transact .fresh
    (∀ a, (d.asset.balanceOf a).val + overall (fun sender c => c.outgoing vault sender a) .fresh txs =
        overall (fun sender c => c.incoming vault sender a) .fresh txs) ∧
      (∀ a, (d.vault.balanceOf a).val + overall (fun sender c => c.withdrawn sender a) .fresh txs =
        overall (fun sender c => c.deposited sender a) .fresh txs) ∧
      (d.asset.balanceOf vault).val =
        d.vault.totalDeposits.val + overall (fun _ c => c.donated vault) .fresh txs := by
  have hzero : (0 : Uint256).val = 0 := rfl
  refine ⟨fun a => ?_, fun a => ?_, ?_⟩
  · have hrun := run_eq (fun d => (d.asset.balanceOf a).val)
      (fun sender c => c.outgoing vault sender a) (fun sender c => c.incoming vault sender a)
      (fun _ _ _ _ h => h.tokens a) .fresh txs
    simp only [fresh, MockFXRP.deployed, hzero, Nat.zero_add] at hrun ⊢
    exact hrun
  · have hrun := run_eq (fun d => (d.vault.balanceOf a).val)
      (fun sender c => c.withdrawn sender a) (fun sender c => c.deposited sender a)
      (fun _ _ _ _ h => h.shares a) .fresh txs
    simp only [fresh, MockVault.deployed, hzero, Nat.zero_add] at hrun ⊢
    exact hrun
  · have hbacked := ((Solvent.fresh vault).run txs).backed
    have hsurplus := surplus_run (Solvent.fresh vault) txs
    have hstart : surplus vault .fresh = 0 := rfl
    rw [hstart, Nat.zero_add, surplus] at hsurplus
    rw [← hsurplus]
    omega

/-- **A spender moves no more than he was allowed**, all approvals of the history together, as
long as the owner never approves the maximum, which is not counted down. -/
theorem allowance_spent {owner spender : Address} {txs : List (Transaction vault)}
    (hlimited : ∀ tx ∈ txs, ¬(tx.sender = owner ∧ tx.call = .approve spender Uint256.max)) :
    ((txs.foldl transact .fresh).asset.allowance owner spender).val +
        overall (fun sender c => c.spent vault sender owner spender) .fresh txs ≤
      overall (fun sender c => c.approved sender owner spender) .fresh txs := by
  have hfresh : Deployment.fresh.asset.allowance owner spender = 0 := rfl
  have hne : (0 : Uint256) ≠ Uint256.max := by decide
  have hstep : ∀ (d : Deployment) (tx : Transaction vault),
      d.asset.allowance owner spender ≠ Uint256.max → tx ∈ txs →
        (d.transact tx).asset.allowance owner spender ≠ Uint256.max ∧
        ((d.transact tx).asset.allowance owner spender).val +
            d.settled (fun sender c => c.spent vault sender owner spender) tx ≤
          (d.asset.allowance owner spender).val +
            d.settled (fun sender c => c.approved sender owner spender) tx := by
    intro d tx hd htx
    rcases transact_cases d tx with ⟨heffect, hsettled⟩ | ⟨hsame, hsettled⟩
    · rw [hsettled, hsettled]
      refine ⟨fun hmax => ?_, (heffect.allowance owner spender).resolve_left hd⟩
      exact (heffect.unlimited owner spender hmax).elim hd (hlimited tx htx)
    · rw [hsame, hsettled, hsettled]
      exact ⟨hd, Nat.le_refl _⟩
  have hrun := along_le (fun d : Deployment => d.asset.allowance owner spender ≠ Uint256.max)
    (fun d => (d.asset.allowance owner spender).val) (hfresh ▸ hne) hstep
  rw [hfresh, Fin.val_zero, Nat.zero_add] at hrun
  exact hrun

/-- An owner who sends nothing and has given no unlimited allowance loses what his allowances
lose. -/
theorem silent_spent {a : Address} {d : Deployment} {txs : List (Transaction vault)}
    (hother : vault ≠ a) (hsilent : ∀ tx ∈ txs, tx.sender ≠ a)
    (hlimited : ∀ spender, d.asset.allowance a spender ≠ Uint256.max) :
    overall (fun sender c => c.outgoing vault sender a) d txs ≤ total (d.asset.allowance a) := by
  have hstep : ∀ (d : Deployment) (tx : Transaction vault),
      (∀ spender, d.asset.allowance a spender ≠ Uint256.max) → tx ∈ txs →
        (∀ spender, (d.transact tx).asset.allowance a spender ≠ Uint256.max) ∧
        total ((d.transact tx).asset.allowance a) +
            d.settled (fun sender c => c.outgoing vault sender a) tx ≤
          total (d.asset.allowance a) + 0 := by
    intro d tx hd htx
    rcases transact_cases d tx with ⟨heffect, hsettled⟩ | ⟨hsame, hsettled⟩
    · rw [hsettled, Nat.add_zero]
      refine ⟨fun spender hmax => ?_, heffect.silent a (hsilent tx htx) hother hd⟩
      rcases heffect.unlimited a spender hmax with hbefore | ⟨howner, -⟩
      · exact hd spender hbefore
      · exact hsilent tx htx howner
    · rw [hsame, hsettled]
      exact ⟨hd, le_rfl⟩
  have hrun := along_le _ (fun d : Deployment => total (d.asset.allowance a)) hlimited hstep
  rw [along_zero, Nat.add_zero] at hrun
  exact le_of_add_le_right hrun

/-- Shares move only at their owner's word. -/
theorem silent_shares {a : Address} (d : Deployment) {txs : List (Transaction vault)}
    (hsilent : ∀ tx ∈ txs, tx.sender ≠ a) :
    (txs.foldl transact d).vault.balanceOf a = d.vault.balanceOf a := by
  have hstep : ∀ (d : Deployment) (tx : Transaction vault), True → tx ∈ txs →
      True ∧ ((d.transact tx).vault.balanceOf a).val + 0 = (d.vault.balanceOf a).val + 0 := by
    intro d tx _ htx
    refine ⟨trivial, ?_⟩
    rcases transact_cases d tx with ⟨heffect, -⟩ | ⟨hsame, -⟩
    · have hshares := heffect.shares a
      cases hc : tx.call with
      | deposit amount | withdraw amount =>
        simp only [hc, Call.withdrawn, Call.deposited, if_neg (hsilent tx htx)] at hshares
        exact hshares
      | mint | transfer | approve | transferFrom =>
        simp only [hc, Call.withdrawn, Call.deposited] at hshares
        exact hshares
    · rw [hsame]
  have hrun := along_eq (s := d) _ (fun d => (d.vault.balanceOf a).val) trivial hstep
  rw [along_zero, Nat.add_zero, Nat.add_zero] at hrun
  exact Fin.ext hrun

/-- **An account that sends nothing** keeps its shares, and of its tokens all but what it has
allowed others to take. -/
theorem silent_account {a : Address} (hother : a ≠ vault) (d : Deployment)
    {txs : List (Transaction vault)} (hsilent : ∀ tx ∈ txs, tx.sender ≠ a) :
    (txs.foldl transact d).vault.balanceOf a = d.vault.balanceOf a ∧
      (d.asset.balanceOf a).val ≤
        ((txs.foldl transact d).asset.balanceOf a).val + total (d.asset.allowance a) := by
  refine ⟨silent_shares d hsilent, ?_⟩
  by_cases hlimited : ∀ spender, d.asset.allowance a spender ≠ Uint256.max
  · have hspent := silent_spent hother.symm hsilent hlimited
    have hrun := run_eq (fun d => (d.asset.balanceOf a).val)
      (fun sender c => c.outgoing vault sender a) (fun sender c => c.incoming vault sender a)
      (fun _ _ _ _ h => h.tokens a) d txs
    omega
  · -- an unlimited allowance covers any balance
    obtain ⟨spender, hmax⟩ := not_forall.mp hlimited
    have hle := le_total (d.asset.allowance a) spender
    rw [not_not.mp hmax] at hle
    have hval : Uint256.max.val = 2 ^ 256 - 1 := rfl
    have hlt := (d.asset.balanceOf a).isLt
    omega

end Run

/-! ## 5. An example -/

namespace Sample

local instance neZeroUint256 : NeZero (2 ^ 256) := ⟨by decide⟩

theorem one_ne_vault : (1 : Address) ≠ 9 := by decide

theorem two_ne_vault : (2 : Address) ≠ 9 := by decide

/-- One account mints and allows another a part of it. -/
def allowing : List (Transaction 9) :=
  [⟨1, one_ne_vault, .mint 1 1000⟩, ⟨1, one_ne_vault, .approve 2 300⟩]

/-- The other takes more than that, and then that. -/
def taking : List (Transaction 9) :=
  [⟨2, two_ne_vault, .transferFrom 1 2 301⟩, ⟨2, two_ne_vault, .transferFrom 1 2 300⟩]

theorem limited : ∀ tx ∈ allowing ++ taking,
    ¬(tx.sender = (1 : Address) ∧ tx.call = .approve 2 Uint256.max) := by
  intro tx htx
  simp only [allowing, taking, List.cons_append, List.nil_append, List.mem_cons, List.not_mem_nil,
    or_false] at htx
  rcases htx with rfl | rfl | rfl | rfl
  · exact fun h => Call.noConfusion h.2
  · exact fun h => absurd (Call.approve.inj h.2).2 (by decide)
  · exact fun h => Call.noConfusion h.2
  · exact fun h => Call.noConfusion h.2

theorem takers : ∀ tx ∈ taking, tx.sender ≠ (1 : Address) := by
  intro tx htx
  simp only [taking, List.mem_cons, List.not_mem_nil, or_false] at htx
  rcases htx with rfl | rfl
  · decide
  · decide

end Sample

/-- Out of 300 approved he has moved 300. -/
theorem allowance_spent_sample :
    let txs := Sample.allowing ++ Sample.taking
    Deployment.overall (fun sender c => c.spent 9 sender 1 2) .fresh txs = 300 ∧
      ((txs.foldl Deployment.transact .fresh).asset.allowance 1 2).val +
          Deployment.overall (fun sender c => c.spent 9 sender 1 2) .fresh txs ≤
        Deployment.overall (fun sender c => c.approved sender 1 2) .fresh txs :=
  ⟨by decide +kernel, allowance_spent Sample.limited⟩

/-- The one who allowed it still has the rest. -/
theorem silent_account_sample :
    let d := Sample.allowing.foldl Deployment.transact .fresh
    (d.asset.balanceOf 1).val = 1000 ∧
      ((Sample.taking.foldl Deployment.transact d).asset.balanceOf 1).val = 700 ∧
      (d.asset.balanceOf 1).val ≤
        ((Sample.taking.foldl Deployment.transact d).asset.balanceOf 1).val +
          total (d.asset.allowance 1) :=
  ⟨by decide +kernel, by decide +kernel, (silent_account (by decide) _ Sample.takers).2⟩

end OneSig.Contracts
