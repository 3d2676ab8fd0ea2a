/-
# The instruction registry

`InstructionRegistry` keeps a text for a function of a contract: the template from which a wallet
shows its user what a call will do.  Whoever registers a pair first owns its entry until he
removes it, and only he may edit it.  A wallet that trusts the texts relies on exactly that.

The bottom half is the contract.  `register`, `remove`, `describe` and `isRegistered` have the
checks of the Solidity functions in their order and revert with their errors; an entry is the four
fields of the struct, and a key that was never written holds zeros.  Entries are kept under the
hash of the packed pair.  The hash is a parameter, and `Collisionless`, that no two packed pairs
have the same hash, is what is taken from it; it is asked of the 24-byte strings of `encodePacked`
only.

The top half is a history: transactions by any accounts in any order, of which those that revert
leave nothing.  `sinceRemoval` reads from it which registrations of a pair have succeeded since
the pair was last removed.  It knows nothing of the storage of the contract.

* `Told` relates an entry to that list: it holds the last registration, and all are by one
  account.
* `call_ok` says what a successful call writes, `call_other` that it writes the entry of its own
  pair only, and `call_claimed` that only the registrant gets so far.
* `registry_faithful` puts them together over every history: a pair is described exactly when it
  is registered, and then as its registrant has registered it last, and nobody else can change
  that.
-/
import OneSig.Lib.Bytes
import OneSig.Contracts.Vault

namespace OneSig.Contracts

/-- `bytes32`. -/
abbrev Bytes32 := BitVec 256

/-- `bytes4`. -/
abbrev Selector := BitVec 32

/-- A function of a contract. -/
structure Pair where
  target : Address
  selector : Selector
  deriving DecidableEq

/-! ## 1. `InstructionRegistry` -/

structure Entry where
  registrant : Address
  appName : List UInt8
  template : List UInt8
  isThere : Bool
  deriving DecidableEq

/-- What storage holds where nothing was written. -/
def Entry.empty : Entry := ⟨0, [], [], false⟩

structure InstructionRegistry where
  entries : Bytes32 → Entry

inductive RegistryRevert
  | notRegistrant (registrant caller : Address)
  | emptyTemplate
  | unknownInstruction (target : Address) (selector : Selector)
  deriving DecidableEq

namespace InstructionRegistry

/-- The contract as it is deployed. -/
def deployed : InstructionRegistry := ⟨fun _ => .empty⟩

section Contract

variable (keccak256 : List UInt8 → Bytes32)

/-- `abi.encodePacked(target, selector)`. -/
def encodePacked (p : Pair) : List UInt8 :=
  Bytes.beBytes 20 p.target.val ++ Bytes.beBytes 4 p.selector.toNat

def keyFor (p : Pair) : Bytes32 := keccak256 (encodePacked p)

/-- The first registration claims the pair; afterwards only the registrant may edit. -/
def register (sender : Address) (p : Pair) (appName template : List UInt8)
    (r : InstructionRegistry) : Except RegistryRevert InstructionRegistry :=
  if template = [] then .error .emptyTemplate
  else
    let e := r.entries (keyFor keccak256 p)
    if e.isThere = false ∨ e.registrant = sender then
      .ok ⟨Function.update r.entries (keyFor keccak256 p) ⟨sender, appName, template, true⟩⟩
    else .error (.notRegistrant e.registrant sender)

def remove (sender : Address) (p : Pair) (r : InstructionRegistry) :
    Except RegistryRevert InstructionRegistry :=
  let e := r.entries (keyFor keccak256 p)
  if e.isThere = false then .error (.unknownInstruction p.target p.selector)
  else if e.registrant = sender then
    .ok ⟨Function.update r.entries (keyFor keccak256 p) .empty⟩
  else .error (.notRegistrant e.registrant sender)

def describe (p : Pair) (r : InstructionRegistry) :
    Except RegistryRevert (List UInt8 × List UInt8 × Address) :=
  let e := r.entries (keyFor keccak256 p)
  if e.isThere = false then .error (.unknownInstruction p.target p.selector)
  else .ok (e.appName, e.template, e.registrant)

def isRegistered (p : Pair) (r : InstructionRegistry) : Bool :=
  (r.entries (keyFor keccak256 p)).isThere

end Contract

/-! ## 2. Histories -/

inductive Call
  | register (p : Pair) (appName template : List UInt8)
  | remove (p : Pair)

def Call.pair : Call → Pair
  | .register p _ _ => p
  | .remove p => p

structure Transaction where
  sender : Address
  call : Call

/-- The contract, and the transactions that have succeeded so far. -/
structure History where
  registry : InstructionRegistry
  succeeded : List Transaction

def History.fresh : History := ⟨.deployed, []⟩

def call (keccak256 : List UInt8 → Bytes32) (r : InstructionRegistry) (tx : Transaction) :
    Except RegistryRevert InstructionRegistry :=
  match tx.call with
  | .register p appName template => register keccak256 tx.sender p appName template r
  | .remove p => remove keccak256 tx.sender p r

/-- A transaction; one that reverts changes nothing. -/
def History.transact (keccak256 : List UInt8 → Bytes32) (h : History) (tx : Transaction) : History :=
  match call keccak256 h.registry tx with
  | .ok r => ⟨r, h.succeeded ++ [tx]⟩
  | .error _ => h

/-- A successful registration. -/
structure Registration where
  registrant : Address
  appName : List UInt8
  template : List UInt8

/-- What one transaction adds to the registrations of a pair. -/
def note (p : Pair) (registrations : List Registration) (tx : Transaction) : List Registration :=
  if tx.call.pair = p then
    match tx.call with
    | .register _ appName template => registrations ++ [⟨tx.sender, appName, template⟩]
    | .remove _ => []
  else registrations

/-- The registrations of a pair since its last removal, oldest first. -/
def sinceRemoval (p : Pair) (succeeded : List Transaction) : List Registration :=
  succeeded.foldl (note p) []

theorem sinceRemoval_concat (p : Pair) (succeeded : List Transaction) (tx : Transaction) :
    sinceRemoval p (succeeded ++ [tx]) = note p (sinceRemoval p succeeded) tx := by
  rw [sinceRemoval, List.foldl_append]
  rfl

/-! ## 3. The entries tell the history -/

/-- No two packed pairs have the same hash. -/
def Collisionless (keccak256 : List UInt8 → Bytes32) : Prop :=
  ∀ bs bs' : List UInt8, bs.length = 24 → bs'.length = 24 → keccak256 bs = keccak256 bs' → bs = bs'

theorem encodePacked_inj {p p' : Pair} (h : encodePacked p = encodePacked p') : p = p' := by
  unfold encodePacked at h
  obtain ⟨htarget, hselector⟩ := List.append_inj h (by rw [Bytes.length_beBytes, Bytes.length_beBytes])
  have hfits : ∀ a : Address, a.val < 256 ^ 20 := fun a => a.isLt
  have hfits' : ∀ x : Selector, x.toNat < 256 ^ 4 := fun x => x.isLt
  have htarget' := congrArg Bytes.beNat htarget
  have hselector' := congrArg Bytes.beNat hselector
  rw [Bytes.beNat_beBytes_of_lt (hfits _), Bytes.beNat_beBytes_of_lt (hfits _)] at htarget'
  rw [Bytes.beNat_beBytes_of_lt (hfits' _), Bytes.beNat_beBytes_of_lt (hfits' _)] at hselector'
  obtain ⟨target, selector⟩ := p
  obtain ⟨target', selector'⟩ := p'
  obtain rfl : target = target' := Fin.ext htarget'
  obtain rfl : selector = selector' := BitVec.eq_of_toNat_eq hselector'
  rfl

theorem length_encodePacked (p : Pair) : (encodePacked p).length = 24 := by
  rw [encodePacked, List.length_append, Bytes.length_beBytes, Bytes.length_beBytes]

/-- The entry that holds a registration. -/
def Registration.entry : Option Registration → Entry
  | none => .empty
  | some x => ⟨x.registrant, x.appName, x.template, true⟩

section Faithful

variable {keccak256 : List UInt8 → Bytes32}

theorem keyFor_inj (hk : Collisionless keccak256) {p p' : Pair}
    (h : keyFor keccak256 p = keyFor keccak256 p') : p = p' :=
  encodePacked_inj (hk _ _ (length_encodePacked p) (length_encodePacked p') h)

/-- An entry tells the registrations of its pair: it is the last one, and all are by one account. -/
structure Told (e : Entry) (registrations : List Registration) : Prop where
  entry : e = Registration.entry registrations.getLast?
  named : ∀ x ∈ registrations, x.template ≠ []
  owner : ∀ x ∈ registrations, x.registrant = e.registrant

theorem Told.removed : Told .empty [] := ⟨rfl, nofun, nofun⟩

/-- A registration by the one who may. -/
theorem Told.registered {e : Entry} {registrations : List Registration} {sender : Address}
    {appName template : List UInt8} (h : Told e registrations) (hne : template ≠ [])
    (howner : e.isThere = true → e.registrant = sender) :
    Told ⟨sender, appName, template, true⟩ (registrations ++ [⟨sender, appName, template⟩]) := by
  constructor
  case entry =>
    rw [List.getLast?_concat]
    rfl
  case named =>
    intro x hx
    rcases List.mem_append.mp hx with hx | hx
    · exact h.named x hx
    · rw [List.mem_singleton.mp hx]
      exact hne
  case owner =>
    intro x hx
    rcases List.mem_append.mp hx with hx | hx
    · -- a pair that has been registered since its removal is there
      have hthere : e.isThere = true := by
        rw [h.entry]
        cases hlast : registrations.getLast? with
        | none =>
          rw [List.getLast?_eq_none_iff.mp hlast] at hx
          cases hx
        | some y => rfl
      exact (h.owner x hx).trans (howner hthere)
    · rw [List.mem_singleton.mp hx]

/-- What a successful call writes. -/
theorem call_ok {r r' : InstructionRegistry} {tx : Transaction} (h : call keccak256 r tx = .ok r') :
    (∃ p appName template, tx.call = .register p appName template ∧ template ≠ [] ∧
      ((r.entries (keyFor keccak256 p)).isThere = true →
        (r.entries (keyFor keccak256 p)).registrant = tx.sender) ∧
      r' = ⟨Function.update r.entries (keyFor keccak256 p) ⟨tx.sender, appName, template, true⟩⟩) ∨
    (∃ p, tx.call = .remove p ∧ (r.entries (keyFor keccak256 p)).registrant = tx.sender ∧
      r' = ⟨Function.update r.entries (keyFor keccak256 p) .empty⟩) := by
  unfold call at h
  split at h
  case h_1 p appName template hcall =>
    unfold register at h
    dsimp only at h
    split at h
    case isTrue => cases h
    case isFalse hempty =>
      split at h
      case isFalse => cases h
      case isTrue howner =>
        cases h
        refine Or.inl ⟨p, appName, template, hcall, hempty, fun hthere => ?_, rfl⟩
        rcases howner with hfree | howner
        · rw [hfree] at hthere
          cases hthere
        · exact howner
  case h_2 p hcall =>
    unfold remove at h
    dsimp only at h
    split_ifs at h with hfree howner
    cases h
    exact Or.inr ⟨p, hcall, howner, rfl⟩

/-- Every entry tells the history of its pair. -/
def Faithful (keccak256 : List UInt8 → Bytes32) (h : History) : Prop :=
  ∀ p, Told (h.registry.entries (keyFor keccak256 p)) (sinceRemoval p h.succeeded)

/-- A call writes the entry of its own pair only. -/
theorem call_other (hk : Collisionless keccak256) {r r' : InstructionRegistry} {tx : Transaction}
    (h : call keccak256 r tx = .ok r') {p : Pair} (hp : tx.call.pair ≠ p) :
    r'.entries (keyFor keccak256 p) = r.entries (keyFor keccak256 p) := by
  have hkey : ∀ q, tx.call.pair = q → keyFor keccak256 p ≠ keyFor keccak256 q :=
    fun q hq hsame => hp (hq.trans (keyFor_inj hk hsame).symm)
  rcases call_ok h with ⟨q, appName, template, htx, -, -, rfl⟩ | ⟨q, htx, -, rfl⟩
  · dsimp only
    rw [Function.update_of_ne (hkey q (by rw [htx, Call.pair]))]
  · dsimp only
    rw [Function.update_of_ne (hkey q (by rw [htx, Call.pair]))]

theorem Faithful.transact (hk : Collisionless keccak256) {h : History}
    (ht : Faithful keccak256 h) (tx : Transaction) :
    Faithful keccak256 (h.transact keccak256 tx) := by
  unfold History.transact
  split
  case h_2 => exact ht
  case h_1 r' hcall =>
    intro p
    rw [sinceRemoval_concat]
    by_cases hp : tx.call.pair = p
    · subst hp
      rw [note, if_pos rfl]
      rcases call_ok hcall with ⟨q, appName, template, htx, hne, howner, rfl⟩ | ⟨q, htx, -, rfl⟩
      · simp only [htx, Call.pair, Function.update_self]
        exact (ht q).registered hne howner
      · simp only [htx, Call.pair, Function.update_self]
        exact .removed
    · rw [note, if_neg hp, call_other hk hcall hp]
      exact ht p

theorem Faithful.run (hk : Collisionless keccak256) {h : History} (ht : Faithful keccak256 h)
    (txs : List Transaction) : Faithful keccak256 (txs.foldl (History.transact keccak256) h) := by
  induction txs generalizing h with
  | nil => exact ht
  | cons tx txs ih => exact ih (ht.transact hk tx)

/-- Only the one who has claimed a pair changes its entry. -/
theorem call_claimed (hk : Collisionless keccak256) {r r' : InstructionRegistry} {tx : Transaction}
    (h : call keccak256 r tx = .ok r') {p : Pair}
    (hthere : (r.entries (keyFor keccak256 p)).isThere = true)
    (hother : (r.entries (keyFor keccak256 p)).registrant ≠ tx.sender) :
    r'.entries (keyFor keccak256 p) = r.entries (keyFor keccak256 p) := by
  refine call_other hk h ?_
  rintro rfl
  rcases call_ok h with ⟨q, appName, template, htx, -, howner, -⟩ | ⟨q, htx, howner, -⟩
  · rw [htx, Call.pair] at hthere hother
    exact hother (howner hthere)
  · rw [htx, Call.pair] at hother
    exact hother howner

theorem describe_eq_ok {r : InstructionRegistry} {p : Pair} {appName template : List UInt8}
    {registrant : Address} : describe keccak256 p r = .ok (appName, template, registrant) ↔
      r.entries (keyFor keccak256 p) = ⟨registrant, appName, template, true⟩ := by
  unfold describe
  cases r.entries (keyFor keccak256 p) with
  | mk registrant' appName' template' isThere =>
    cases isThere with
    | true =>
      simp only [Bool.true_eq_false, if_false, Except.ok.injEq, Prod.mk.injEq, Entry.mk.injEq,
        and_true]
      exact ⟨fun ⟨h₁, h₂, h₃⟩ => ⟨h₃, h₁, h₂⟩, fun ⟨h₁, h₂, h₃⟩ => ⟨h₂, h₃, h₁⟩⟩
    | false => simp

theorem isRegistered_iff {r : InstructionRegistry} {p : Pair} :
    isRegistered keccak256 p r = true ↔ ∃ told, describe keccak256 p r = .ok told := by
  unfold isRegistered describe
  dsimp only
  constructor
  · intro h
    rw [h]
    exact ⟨_, rfl⟩
  · rintro ⟨told, h⟩
    split at h
    case isTrue => cases h
    case isFalse hthere => exact eq_true_of_ne_false hthere

end Faithful

end InstructionRegistry

open InstructionRegistry

/-- **Only the registrant decides.**  After any transactions a pair is registered exactly when it
is described, and then it is described as in its last registration, which has a text and was made
by the account that made all registrations since the last removal; a successful transaction of
another account or for another pair leaves the description alone. -/
theorem registry_faithful {keccak256 : List UInt8 → Bytes32} (hk : Collisionless keccak256)
    (txs : List InstructionRegistry.Transaction) (p : Pair) :
    let h := txs.foldl (History.transact keccak256) .fresh
    (isRegistered keccak256 p h.registry = true ↔
        ∃ told, describe keccak256 p h.registry = .ok told) ∧
      (∀ appName template registrant,
        describe keccak256 p h.registry = .ok (appName, template, registrant) →
        template ≠ [] ∧
        (sinceRemoval p h.succeeded).getLast? = some ⟨registrant, appName, template⟩ ∧
        ∀ x ∈ sinceRemoval p h.succeeded, x.registrant = registrant) ∧
      ∀ tx r', call keccak256 h.registry tx = .ok r' →
        (tx.call.pair ≠ p ∨ ∃ appName template registrant,
          describe keccak256 p h.registry = .ok (appName, template, registrant) ∧
            tx.sender ≠ registrant) →
        describe keccak256 p r' = describe keccak256 p h.registry := by
  intro h
  have hempty : Faithful keccak256 .fresh := fun _ => .removed
  have htold : Told _ _ := hempty.run hk txs p
  refine ⟨isRegistered_iff, ?_, ?_⟩
  · intro appName template registrant hdescribe
    have hentry := describe_eq_ok.mp hdescribe
    have hlast := htold.entry.symm.trans hentry
    cases hx : (sinceRemoval p h.succeeded).getLast? with
    | none =>
      rw [hx] at hlast
      cases hlast
    | some x =>
      rw [hx] at hlast
      cases x
      cases hlast
      refine ⟨htold.named _ (List.mem_of_getLast? hx), rfl, fun x hx' => ?_⟩
      rw [htold.owner x hx', hentry]
  · rintro tx r' hcall hframe
    have hsame : r'.entries (keyFor keccak256 p) = h.registry.entries (keyFor keccak256 p) := by
      rcases hframe with hpair | ⟨appName, template, registrant, hdescribe, hother⟩
      · exact call_other hk hcall hpair
      · have hentry := describe_eq_ok.mp hdescribe
        exact call_claimed hk hcall (by rw [hentry]) (by rw [hentry]; exact hother.symm)
    unfold describe
    rw [hsame]

namespace Sample

/-- `deposit(uint256)` of the vault. -/
def pair : Pair := ⟨9, 0xb6b55f25⟩

/-- The hash of the pair, and what is not a hash of anything else. -/
def keccak256 (bs : List UInt8) : Bytes32 :=
  if bs = encodePacked pair then 0xca3d9b7abd5c6ce0edecb2372af460185367919d96476ea2fa232a61c1b81f23
  else BitVec.ofNat 256 (Bytes.beNat bs)

/-- One account registers the pair and edits the entry; the other's registration reverts. -/
def registrations : List InstructionRegistry.Transaction :=
  [⟨1, .register pair [1] [2]⟩, ⟨2, .register pair [6] [6]⟩, ⟨1, .register pair [1] [3]⟩]

theorem keccak256_collisionless : Collisionless keccak256 := by
  have hlow : ∀ bs : List UInt8, bs.length = 24 →
      (BitVec.ofNat 256 (Bytes.beNat bs)).toNat = Bytes.beNat bs ∧ Bytes.beNat bs < 2 ^ 192 := by
    intro bs hlen
    have hlt := Bytes.beNat_lt bs
    rw [hlen] at hlt
    rw [BitVec.toNat_ofNat, Nat.mod_eq_of_lt (hlt.trans (by decide))]
    exact ⟨rfl, hlt⟩
  have hhigh : ∀ bs : List UInt8, bs.length = 24 → BitVec.ofNat 256 (Bytes.beNat bs) ≠
      0xca3d9b7abd5c6ce0edecb2372af460185367919d96476ea2fa232a61c1b81f23 := by
    intro bs hlen heq
    obtain ⟨hnat, hlt⟩ := hlow bs hlen
    rw [heq] at hnat
    rw [← hnat] at hlt
    exact absurd hlt (by decide)
  intro bs bs' hlen hlen' h
  unfold keccak256 at h
  split at h
  case isTrue hbs =>
    split at h
    case isTrue hbs' => rw [hbs, hbs']
    case isFalse => exact absurd h.symm (hhigh bs' hlen')
  case isFalse =>
    split at h
    case isTrue => exact absurd h (hhigh bs hlen)
    case isFalse =>
      have hnat := congrArg BitVec.toNat h
      rw [(hlow bs hlen).1, (hlow bs' hlen').1] at hnat
      exact Bytes.beNat_inj (hlen.trans hlen'.symm) hnat

end Sample

/-- The pair is described as its owner has edited it, not as somebody else has tried. -/
theorem registry_faithful_sample :
    let h := Sample.registrations.foldl (History.transact Sample.keccak256) .fresh
    describe Sample.keccak256 Sample.pair h.registry = .ok ([1], [3], 1) ∧
      (sinceRemoval Sample.pair h.succeeded).getLast? = some ⟨1, [1], [3]⟩ ∧
      ∀ x ∈ sinceRemoval Sample.pair h.succeeded, x.registrant = 1 := by
  intro h
  have hdescribe : describe Sample.keccak256 Sample.pair h.registry = .ok ([1], [3], 1) := by
    decide +kernel
  exact ⟨hdescribe, ((registry_faithful Sample.keccak256_collisionless Sample.registrations
    Sample.pair).2.1 _ _ _ hdescribe).2⟩

end OneSig.Contracts
