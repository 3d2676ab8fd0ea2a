/-
# The life of the contract

`InstructionSender` is about one call.  This module is about all the calls that the contract gets
after it is deployed, `setExtensionId` among them: from any accounts, in any order, and with the
registries in another state at each of them.  A call that reverts changes nothing.

* The extension id is the one that the first `setExtensionId` to find one has found, for good
  (`extension_id_iff`).  Anybody can make that call, and what it finds is the lowest public id
  registered for the contract, no matter by whom.
* The instructions, the events and `cancelledBy` tell one story (`revocations_recorded`): a
  revocation is on record exactly if one CANCEL for the commitment has gone out, to the extension
  of the contract, and nothing goes out that no caller has asked for.

A transaction carries what the registries answer when it runs (`Directory`, `Registries`), since
they are contracts of another system and anybody may change them between two calls; a query may
revert as well.  `findExtensionId` is the loop over the public ids, and `Registered` says without
a loop which id it finds.

The first result reads the history from its start: the id is unset until the first transaction
that has an id to find (`FirstSettled`), and no later one changes it.  The second is an invariant
of three lists that grow together (`Recorded`).

The loop of `setExtensionId` has no bound but the gas of the transaction; running out of it is a
revert like any other, and left out.
-/
import OneSig.Latch.InstructionSender

namespace OneSig.Latch

/-! ## 1. The extension id -/

/-- What the extension registry says of the extensions.  A query may revert. -/
structure Directory where
  nextPublicExtensionId : Option Nat
  getTeeExtensionInstructionsSender : Nat → Option Account

/-- Why `setExtensionId` reverts. -/
inductive IdRevert
  | alreadySet
  | notFound
  | registry
  deriving DecidableEq

namespace LatchInstructionSender

def firstPublicExtensionId : Nat := 0x10000

/-- The loop over the public ids, from `i` on, with `n` of them to come. -/
def findExtensionId (d : Directory) (this : Account) : (n i : Nat) → Except IdRevert Nat
  | 0, _ => .error .notFound
  | n + 1, i =>
    match d.getTeeExtensionInstructionsSender i with
    | none => .error .registry
    | some sender => if sender = this then .ok i else findExtensionId d this n (i + 1)

def setExtensionId (d : Directory) (this : Account) (c : LatchInstructionSender) :
    Except IdRevert LatchInstructionSender :=
  if c.extensionId ≠ 0 then .error .alreadySet
  else match d.nextPublicExtensionId with
    | none => .error .registry
    | some next =>
      (findExtensionId d this (next - firstPublicExtensionId) firstPublicExtensionId).map
        fun id => { c with extensionId := id }

end LatchInstructionSender

open LatchInstructionSender

/-- The lowest public id registered for the contract. -/
structure Registered (d : Directory) (this : Account) (id : Nat) : Prop where
  isPublic : firstPublicExtensionId ≤ id
  counted : ∃ next, d.nextPublicExtensionId = some next ∧ id < next
  named : d.getTeeExtensionInstructionsSender id = some this
  lowest : ∀ i, firstPublicExtensionId ≤ i → i < id →
    ∃ other, d.getTeeExtensionInstructionsSender i = some other ∧ other ≠ this

section Find

variable {d : Directory} {this : Account} {c c' : LatchInstructionSender} {id : Nat}

theorem findExtensionId_ok_iff (n i : Nat) :
    findExtensionId d this n i = .ok id ↔
      i ≤ id ∧ id < i + n ∧ d.getTeeExtensionInstructionsSender id = some this ∧
        ∀ j, i ≤ j → j < id →
          ∃ other, d.getTeeExtensionInstructionsSender j = some other ∧ other ≠ this := by
  induction n generalizing i with
  | zero =>
    simp only [findExtensionId, reduceCtorEq, false_iff]
    rintro ⟨hle, hlt, -⟩
    omega
  | succ n ih =>
    unfold findExtensionId
    cases hsender : d.getTeeExtensionInstructionsSender i with
    | none =>
      simp only [reduceCtorEq, false_iff]
      rintro ⟨hle, -, hnamed, hlowest⟩
      rcases Nat.eq_or_lt_of_le hle with rfl | hlt
      · rw [hsender] at hnamed
        cases hnamed
      · obtain ⟨other, hother, -⟩ := hlowest i (Nat.le_refl i) hlt
        rw [hsender] at hother
        cases hother
    | some sender =>
      dsimp only
      split
      case isTrue hthis =>
        subst hthis
        rw [Except.ok.injEq]
        constructor
        · rintro rfl
          exact ⟨Nat.le_refl i, by omega, hsender, fun j hle hlt => by omega⟩
        · rintro ⟨hle, -, -, hlowest⟩
          by_contra hne
          obtain ⟨other, hother, hdiff⟩ := hlowest i (Nat.le_refl i) (by omega)
          rw [hsender, Option.some.injEq] at hother
          exact hdiff hother.symm
      case isFalse hother =>
        rw [ih (i + 1)]
        constructor
        · rintro ⟨hle, hlt, hnamed, hlowest⟩
          refine ⟨by omega, by omega, hnamed, fun j hj hjid => ?_⟩
          rcases Nat.eq_or_lt_of_le hj with rfl | hj
          · exact ⟨sender, hsender, hother⟩
          · exact hlowest j hj hjid
        · rintro ⟨hle, hlt, hnamed, hlowest⟩
          have hne : i ≠ id := by
            rintro rfl
            rw [hsender, Option.some.injEq] at hnamed
            exact hother hnamed
          exact ⟨by omega, by omega, hnamed, fun j hj hjid => hlowest j (by omega) hjid⟩

theorem Registered.unique {id' : Nat} (h : Registered d this id) (h' : Registered d this id') :
    id = id' := by
  rcases Nat.lt_trichotomy id id' with hlt | heq | hlt
  · obtain ⟨other, hother, hne⟩ := h'.lowest id h.isPublic hlt
    rw [h.named, Option.some.injEq] at hother
    exact absurd hother.symm hne
  · exact heq
  · obtain ⟨other, hother, hne⟩ := h.lowest id' h'.isPublic hlt
    rw [h'.named, Option.some.injEq] at hother
    exact absurd hother.symm hne

theorem findExtensionId_registered {next : Nat} (hnext : d.nextPublicExtensionId = some next) :
    findExtensionId d this (next - firstPublicExtensionId) firstPublicExtensionId = .ok id ↔
      Registered d this id := by
  rw [findExtensionId_ok_iff]
  constructor
  · rintro ⟨hle, hlt, hnamed, hlowest⟩
    exact ⟨hle, ⟨next, hnext, by omega⟩, hnamed, hlowest⟩
  · rintro ⟨hle, ⟨next', hnext', hlt⟩, hnamed, hlowest⟩
    rw [hnext, Option.some.injEq] at hnext'
    exact ⟨hle, by omega, hnamed, hlowest⟩

/-- `setExtensionId` takes the lowest id, and it takes it once. -/
theorem setExtensionId_ok_iff :
    setExtensionId d this c = .ok c' ↔
      c.extensionId = 0 ∧ ∃ id, Registered d this id ∧ c' = { c with extensionId := id } := by
  unfold setExtensionId
  split
  case isTrue hset =>
    simp only [reduceCtorEq, false_iff]
    exact fun h => hset h.1
  case isFalse hunset =>
    rw [not_not] at hunset
    cases hnext : d.nextPublicExtensionId with
    | none =>
      simp only [reduceCtorEq, false_iff]
      rintro ⟨-, id, ⟨-, ⟨next, hsome, -⟩, -, -⟩, -⟩
      rw [hnext] at hsome
      cases hsome
    | some next =>
      dsimp only
      have hfound : ∀ id, findExtensionId d this (next - firstPublicExtensionId)
          firstPublicExtensionId = .ok id ↔ Registered d this id :=
        fun _ => findExtensionId_registered hnext
      cases hfind : findExtensionId d this (next - firstPublicExtensionId)
          firstPublicExtensionId with
      | error e =>
        simp only [Except.map, reduceCtorEq, false_iff]
        rintro ⟨-, id, hid, -⟩
        rw [(hfound id).mpr hid] at hfind
        cases hfind
      | ok id =>
        have hid := (hfound id).mp hfind
        simp only [Except.map, Except.ok.injEq]
        constructor
        · rintro rfl
          exact ⟨hunset, id, hid, rfl⟩
        · rintro ⟨-, id', hid', rfl⟩
          rw [hid.unique hid']

end Find

namespace Sender

/-! ## 2. The calls -/

inductive Call
  | setExtensionId
  | cancelIntent (commitment : Bytes32)
  | requestStatus (commitment : Bytes32)

/-- A transaction, with what the registries say when it runs.  Nobody has the key of the zero
address. -/
structure Transaction where
  sender : Account
  sender_ne : sender ≠ 0
  directory : Directory
  registries : Registries
  call : Call

/-- An instruction that has gone out, with the extension whose machine was drawn for it. -/
structure Instruction where
  extensionId : Nat
  params : TeeInstructionParams

/-- The contract, what it has sent, and the `IntentCancelRequested` it has emitted. -/
structure Deployed where
  contract : LatchInstructionSender := ⟨fun _ => 0, 0⟩
  sent : List Instruction := []
  requested : List (Bytes32 × Account) := []

namespace Deployed

def send (s : Deployed) (p : TeeInstructionParams) : Deployed :=
  { s with sent := s.sent ++ [⟨s.contract.extensionId, p⟩] }

def transact (this : Account) (s : Deployed) (tx : Transaction) : Deployed :=
  match tx.call with
  | .setExtensionId =>
    match setExtensionId tx.directory this s.contract with
    | .ok contract => { s with contract := contract }
    | .error _ => s
  | .cancelIntent commitment =>
    match cancelIntent tx.registries s.contract tx.sender commitment with
    | .ok (contract, p) =>
      { s.send p with
        contract := contract
        requested := s.requested ++ [(commitment, tx.sender)] }
    | .error _ => s
  | .requestStatus commitment =>
    match requestStatus tx.registries s.contract tx.sender commitment with
    | .ok p => s.send p
    | .error _ => s

def run (this : Account) (txs : List Transaction) : Deployed := txs.foldl (transact this) {}

end Deployed

/-! ## 3. What a transaction does -/

/-- A `setExtensionId` that has something to find. -/
def Settles (this : Account) (tx : Transaction) (id : Nat) : Prop :=
  tx.call = .setExtensionId ∧ Registered tx.directory this id

theorem Settles.ne_zero {this : Account} {tx : Transaction} {id : Nat} (h : Settles this tx id) :
    id ≠ 0 := by
  have hpublic : 0x10000 ≤ id := h.2.isPublic
  omega

theorem Settles.unique {this : Account} {tx : Transaction} {id id' : Nat} (h : Settles this tx id)
    (h' : Settles this tx id') : id = id' := h.2.unique h'.2

/-- A call asks for an instruction. -/
inductive Asks (tx : Transaction) : TeeInstructionParams → Prop
  | cancel {commitment : Bytes32} : tx.call = .cancelIntent commitment →
    Asks tx (params opCommandCancel (abiEncode commitment) tx.sender)
  | status {commitment : Bytes32} : tx.call = .requestStatus commitment →
    Asks tx (params opCommandStatus (abiEncode commitment) tx.sender)

inductive Effect (this : Account) (s : Deployed) (tx : Transaction) : Deployed → Prop
  | reverted : (∀ id, Settles this tx id → s.contract.extensionId ≠ 0) → Effect this s tx s
  | settled {id : Nat} : Settles this tx id → s.contract.extensionId = 0 →
    Effect this s tx { s with contract := { s.contract with extensionId := id } }
  | cancelled {commitment : Bytes32} : tx.call = .cancelIntent commitment →
    s.contract.extensionId ≠ 0 → s.contract.cancelledBy commitment = 0 →
    Effect this s tx
      { s.send (params opCommandCancel (abiEncode commitment) tx.sender) with
        contract :=
          { s.contract with
            cancelledBy := Function.update s.contract.cancelledBy commitment tx.sender }
        requested := s.requested ++ [(commitment, tx.sender)] }
  | asked {commitment : Bytes32} : tx.call = .requestStatus commitment →
    s.contract.extensionId ≠ 0 →
    Effect this s tx (s.send (params opCommandStatus (abiEncode commitment) tx.sender))

theorem set_of_send {r : Registries} {c : LatchInstructionSender} {opCommand : Bytes32}
    {message : List UInt8} {sender : Account} {p : TeeInstructionParams}
    (h : c.send r opCommand message sender = .ok p) : c.extensionId ≠ 0 := by
  intro hunset
  rw [LatchInstructionSender.send, if_pos hunset] at h
  cases h

theorem cancelIntent_cases {r : Registries} {c c' : LatchInstructionSender} {sender : Account}
    {commitment : Bytes32} {p : TeeInstructionParams}
    (h : cancelIntent r c sender commitment = .ok (c', p)) :
    c.extensionId ≠ 0 ∧ c.cancelledBy commitment = 0 ∧
      c' = { c with cancelledBy := Function.update c.cancelledBy commitment sender } ∧
      p = params opCommandCancel (abiEncode commitment) sender := by
  have hp := cancelIntent_ok h
  unfold cancelIntent at h
  split at h
  case isTrue => cases h
  case isFalse hfirst =>
    cases hsend : send r c opCommandCancel (abiEncode commitment) sender with
    | error e =>
      rw [hsend] at h
      cases h
    | ok p' =>
      rw [hsend] at h
      simp only [Except.map, Except.ok.injEq, Prod.mk.injEq] at h
      exact ⟨set_of_send hsend, not_not.mp hfirst, h.1.symm, hp⟩

theorem effect (this : Account) (s : Deployed) (tx : Transaction) :
    Effect this s tx (s.transact this tx) := by
  unfold Deployed.transact
  cases hcall : tx.call with
  | setExtensionId =>
    dsimp only
    cases hset : setExtensionId tx.directory this s.contract with
    | ok contract =>
      obtain ⟨hunset, id, hid, rfl⟩ := setExtensionId_ok_iff.mp hset
      exact .settled ⟨hcall, hid⟩ hunset
    | error e =>
      refine .reverted fun id hid hunset => ?_
      rw [setExtensionId_ok_iff.mpr ⟨hunset, id, hid.2, rfl⟩] at hset
      cases hset
  | cancelIntent commitment =>
    dsimp only
    cases hcancel : cancelIntent tx.registries s.contract tx.sender commitment with
    | ok sent =>
      obtain ⟨contract, p⟩ := sent
      obtain ⟨hset, hfirst, rfl, rfl⟩ := cancelIntent_cases hcancel
      exact .cancelled hcall hset hfirst
    | error e =>
      refine .reverted fun id hid => ?_
      rw [hid.1] at hcall
      cases hcall
  | requestStatus commitment =>
    dsimp only
    cases hsend : requestStatus tx.registries s.contract tx.sender commitment with
    | ok p =>
      rw [send_ok hsend]
      exact .asked hcall (set_of_send hsend)
    | error e =>
      refine .reverted fun id hid => ?_
      rw [hid.1] at hcall
      cases hcall

/-! ## 4. The extension id, for good -/

variable {this : Account} {s s' : Deployed} {tx : Transaction} {txs : List Transaction}

namespace Effect

theorem kept (h : Effect this s tx s') (hset : s.contract.extensionId ≠ 0) :
    s'.contract.extensionId = s.contract.extensionId := by
  cases h with
  | reverted => rfl
  | settled _ hunset => exact absurd hunset hset
  | cancelled => rfl
  | asked => rfl

theorem settles (h : Effect this s tx s') (hunset : s.contract.extensionId = 0) {id : Nat}
    (hid : Settles this tx id) : s'.contract.extensionId = id := by
  cases h with
  | reverted hno => exact absurd hunset (hno id hid)
  | settled hid' => exact hid'.unique hid
  | cancelled hcall =>
    rw [hid.1] at hcall
    cases hcall
  | asked hcall =>
    rw [hid.1] at hcall
    cases hcall

theorem unset (h : Effect this s tx s') (hunset : s.contract.extensionId = 0)
    (hnone : ∀ id, ¬ Settles this tx id) : s'.contract.extensionId = 0 := by
  cases h with
  | reverted => exact hunset
  | settled hid => exact absurd hid (hnone _)
  | cancelled => exact hunset
  | asked => exact hunset

end Effect

theorem foldl_set (hset : s.contract.extensionId ≠ 0) (txs : List Transaction) :
    (txs.foldl (Deployed.transact this) s).contract.extensionId = s.contract.extensionId := by
  induction txs generalizing s with
  | nil => rfl
  | cons tx txs ih =>
    have hkept := (effect this s tx).kept hset
    rw [List.foldl_cons, ih (by rw [hkept]; exact hset), hkept]

/-- The first transaction that has an id to find finds this one. -/
def FirstSettled (this : Account) (txs : List Transaction) (id : Nat) : Prop :=
  ∃ past tx rest, txs = past ++ tx :: rest ∧ Settles this tx id ∧
    ∀ tx' ∈ past, ∀ id', ¬ Settles this tx' id'

theorem firstSettled_cons {id : Nat} :
    FirstSettled this (tx :: txs) id ↔
      Settles this tx id ∨ (∀ id', ¬ Settles this tx id') ∧ FirstSettled this txs id := by
  constructor
  · rintro ⟨past, tx', rest, heq, hsettles, hnone⟩
    cases past with
    | nil =>
      cases heq
      exact Or.inl hsettles
    | cons first past =>
      cases heq
      exact Or.inr ⟨hnone _ List.mem_cons_self, past, tx', rest, rfl, hsettles,
        fun tx'' hmem => hnone tx'' (List.mem_cons_of_mem _ hmem)⟩
  · rintro (hsettles | ⟨hnone, past, tx', rest, rfl, hsettles, hpast⟩)
    · exact ⟨[], tx, txs, rfl, hsettles, fun _ hmem => absurd hmem List.not_mem_nil⟩
    · refine ⟨tx :: past, tx', rest, rfl, hsettles, fun tx'' hmem => ?_⟩
      rcases List.mem_cons.mp hmem with rfl | hmem
      · exact hnone
      · exact hpast tx'' hmem

theorem foldl_unset (hunset : s.contract.extensionId = 0) (id : Nat) :
    ((txs.foldl (Deployed.transact this) s).contract.extensionId = id ∧ id ≠ 0) ↔
      FirstSettled this txs id := by
  induction txs generalizing s with
  | nil =>
    constructor
    · rintro ⟨rfl, hne⟩
      exact absurd hunset hne
    · rintro ⟨past, tx, rest, heq, -⟩
      exact absurd heq (by simp)
  | cons tx txs ih =>
    rw [List.foldl_cons, firstSettled_cons]
    by_cases hsettles : ∃ id', Settles this tx id'
    · obtain ⟨id', hid'⟩ := hsettles
      have hnow := (effect this s tx).settles hunset hid'
      rw [foldl_set (by rw [hnow]; exact hid'.ne_zero), hnow]
      constructor
      · rintro ⟨rfl, -⟩
        exact Or.inl hid'
      · rintro (hid | ⟨hnone, -⟩)
        · exact ⟨hid'.unique hid, hid.ne_zero⟩
        · exact absurd hid' (hnone id')
    · have hnone : ∀ id', ¬ Settles this tx id' := fun id' hid' => hsettles ⟨id', hid'⟩
      have hstill := (effect this s tx).unset hunset hnone
      rw [ih hstill]
      exact ⟨fun h => Or.inr ⟨hnone, h⟩,
        fun h => h.elim (fun hid => absurd hid (hnone id)) And.right⟩

/-- **The first `setExtensionId` that finds an id decides it, for good**: the contract has an id
after a history exactly if that call settled on it, whatever is registered later. -/
theorem extension_id_iff (this : Account) (txs : List Transaction) (id : Nat) :
    ((Deployed.run this txs).contract.extensionId = id ∧ id ≠ 0) ↔ FirstSettled this txs id :=
  foldl_unset rfl id

/-! ## 5. The revocations -/

def Instruction.isCancel (x : Instruction) : Bool := x.params.opCommand = opCommandCancel

/-- The CANCEL that goes out for a revocation. -/
def cancelOf (extensionId : Nat) (revocation : Bytes32 × Account) : Instruction :=
  ⟨extensionId, params opCommandCancel (abiEncode revocation.1) revocation.2⟩

/-- The instructions, the events and the mapping agree. -/
structure Recorded (s : Deployed) : Prop where
  extensionId : ∀ x ∈ s.sent, x.extensionId = s.contract.extensionId ∧ x.extensionId ≠ 0
  cancels : s.sent.filter Instruction.isCancel =
    s.requested.map (cancelOf s.contract.extensionId)
  once : (s.requested.map Prod.fst).Nodup
  cancelledBy : ∀ commitment account, (commitment, account) ∈ s.requested ↔
    s.contract.cancelledBy commitment = account ∧ account ≠ 0

namespace Recorded

/-- Before the id is set nothing has gone out. -/
theorem silent (h : Recorded s) (hunset : s.contract.extensionId = 0) :
    s.sent = [] ∧ s.requested = [] := by
  have hsent : s.sent = [] := by
    refine List.eq_nil_iff_forall_not_mem.mpr fun x hx => ?_
    obtain ⟨heq, hne⟩ := h.extensionId x hx
    exact hne (heq.trans hunset)
  have hcancels := h.cancels
  rw [hsent, List.filter_nil] at hcancels
  exact ⟨hsent, List.map_eq_nil_iff.mp hcancels.symm⟩

theorem send_extensionId (h : Recorded s) (hset : s.contract.extensionId ≠ 0)
    (p : TeeInstructionParams) :
    ∀ x ∈ (s.send p).sent, x.extensionId = s.contract.extensionId ∧ x.extensionId ≠ 0 := by
  intro x hx
  rcases List.mem_append.mp hx with hx | hx
  · exact h.extensionId x hx
  · rw [List.mem_singleton] at hx
    subst hx
    exact ⟨rfl, hset⟩

theorem not_requested (h : Recorded s) {commitment : Bytes32}
    (hfirst : s.contract.cancelledBy commitment = 0) :
    commitment ∉ s.requested.map Prod.fst := by
  intro hmem
  obtain ⟨⟨commitment', account⟩, hrequested, heq⟩ := List.mem_map.mp hmem
  subst heq
  obtain ⟨rfl, hne⟩ := (h.cancelledBy commitment' account).mp hrequested
  exact hne hfirst

theorem step (h : Recorded s) (heffect : Effect this s tx s') : Recorded s' := by
  cases heffect with
  | reverted => exact h
  | settled _ hunset =>
    obtain ⟨hsent, hrequested⟩ := h.silent hunset
    constructor
    · intro x hx
      rw [hsent] at hx
      exact absurd hx List.not_mem_nil
    · rw [hsent, hrequested]
      rfl
    · exact h.once
    · exact h.cancelledBy
  | @cancelled commitment _ hset hfirst =>
    constructor
    · exact h.send_extensionId hset _
    · simp only [Deployed.send, List.filter_append, List.map_append, h.cancels]
      rfl
    · rw [List.map_append]
      refine List.nodup_append.mpr ⟨h.once, List.pairwise_singleton _ _, ?_⟩
      rintro _ hmem _ hnew rfl
      rw [List.map_singleton, List.mem_singleton] at hnew
      subst hnew
      exact h.not_requested hfirst hmem
    · intro commitment' account
      rw [List.mem_append, List.mem_singleton, h.cancelledBy commitment' account]
      by_cases hsame : commitment' = commitment
      · subst hsame
        simp only [Function.update_self, hfirst, Prod.mk.injEq, true_and]
        constructor
        · rintro (⟨rfl, hne⟩ | rfl)
          · exact absurd rfl hne
          · exact ⟨rfl, tx.sender_ne⟩
        · rintro ⟨rfl, -⟩
          exact Or.inr rfl
      · simp only [Function.update_of_ne hsame, Prod.mk.injEq, hsame, false_and, or_false]
  | asked _ hset =>
    constructor
    · exact h.send_extensionId hset _
    · simp only [Deployed.send, List.filter_append, h.cancels]
      exact List.append_nil _
    · exact h.once
    · exact h.cancelledBy

theorem foldl (h : Recorded s) (txs : List Transaction) :
    Recorded (txs.foldl (Deployed.transact this) s) := by
  induction txs generalizing s with
  | nil => exact h
  | cons tx txs ih => exact ih (h.step (effect this s tx))

end Recorded

theorem Effect.sent (h : Effect this s tx s') {x : Instruction} (hx : x ∈ s'.sent) :
    x ∈ s.sent ∨ Asks tx x.params := by
  cases h with
  | reverted => exact Or.inl hx
  | settled => exact Or.inl hx
  | cancelled hcall =>
    refine (List.mem_append.mp hx).imp_right fun hx => ?_
    rw [List.mem_singleton.mp hx]
    exact .cancel hcall
  | asked hcall =>
    refine (List.mem_append.mp hx).imp_right fun hx => ?_
    rw [List.mem_singleton.mp hx]
    exact .status hcall

theorem foldl_sent {x : Instruction} (hx : x ∈ (txs.foldl (Deployed.transact this) s).sent) :
    x ∈ s.sent ∨ ∃ tx ∈ txs, Asks tx x.params := by
  induction txs generalizing s with
  | nil => exact Or.inl hx
  | cons tx txs ih =>
    rcases ih hx with hsent | ⟨tx', hmem, hasks⟩
    · exact ((effect this s tx).sent hsent).imp_right fun hasks => ⟨tx, List.mem_cons_self, hasks⟩
    · exact Or.inr ⟨tx', List.mem_cons_of_mem _ hmem, hasks⟩

/-- **One CANCEL for every revocation on record, and nothing that was not asked for**: the record,
the events and the instructions sent agree, and each has its transaction. -/
theorem revocations_recorded (this : Account) (txs : List Transaction) :
    Recorded (Deployed.run this txs) ∧
      ∀ x ∈ (Deployed.run this txs).sent, ∃ tx ∈ txs, Asks tx x.params := by
  have hstart : Recorded {} :=
    ⟨fun _ hx => absurd hx List.not_mem_nil, rfl, List.nodup_nil, fun commitment account =>
      ⟨fun hmem => absurd hmem List.not_mem_nil, fun ⟨heq, hne⟩ => absurd heq.symm hne⟩⟩
  refine ⟨hstart.foldl txs, fun x hx => ?_⟩
  rcases foldl_sent hx with hmem | hasked
  · exact absurd hmem List.not_mem_nil
  · exact hasked

end Sender

end OneSig.Latch
