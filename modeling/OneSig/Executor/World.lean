/-
# What the executor awaits, and what that does outside the process

One operation for every promise of the executor that comes from outside it: the files of the two
state directories, the XRPL server, the verifier and the DA layer, the contracts, and the injected
`prepare`.  Whoever plays the environment answers with a `Choice`: a value of the right kind, or a
rejection.

A rejected operation may have taken effect all the same: a file write can fail after the file was
truncated (it is then a strict prefix of the JSON text, which does not parse) or after the last
byte, and a transaction can be broadcast although its caller sees an error.  A write that is still
in flight can be found half done.

Files are kept by the value whose text they hold, so that a write and a read need no parser:
`Text.whole` is the text of a value, and `Text.parse` gives back what `JSON.stringify` and
`JSON.parse` leave of it, which is a parameter.  That this is what printing and parsing do to the
fields of the executor's records is shown in `JsonStored`.

`chain` records the transactions the executor's account has broadcast.  The request transaction
carries the id of the job it is made for, which the call itself does not; no function of the
source reads it.

* `perform_ok`: an operation that resolves has taken its full effect.  `perform_world`: whatever
  the answer, the outside is left with some part of the operation's effect, and nothing else.
* `perform_error`: an operation that reads no file fails only when it is made to.
* `whole_of_write`: a file that parses after a write parsed before it, or holds what was written.
-/
import OneSig.Executor.Types
import OneSig.Lib.Async.System

namespace OneSig.Executor

open OneSig

/-! ## 1. Operations -/

inductive Op
  | mkdirPending
  | writePending (name : Str) (record : PendingUserOp)
  | readPending (name : Str)
  | mkdirState
  | writeJob (id : Str) (job : Job)
  | readJob (id : Str)
  | accountTx (account : Str) (limit : Nat) (ledger_index_min : Int)
  | ledgerCurrent
  | prepareRequest (transactionId : Hex) (proofOwner : Address)
  | proofByRequestRound (votingRoundId : Option Int) (requestBytes : Option Hex)
  | getContractAddressByName (name : Str)
  | fdcRequestFeeConfigurations (fdcHub : Address)
  | getRequestFee (feeConfig : Address) (request : Option Hex)
  | firstVotingRoundStartTs (fsm : Address)
  | votingEpochDurationSeconds (fsm : Address)
  | fdcProtocolId (fdcVerification : Address)
  | isFinalized (relay : Address) (protocolId : Nat) (roundId : Int)
  | isTransactionIdUsed (transactionId : Hex)
  | requestAttestation (job : Str) (fdcHub : Address) (request : Option Hex) (value : Nat)
  | executeDirectMintingWithData (xrplTxId : Hex) (assetManager : Address)
      (proof : XrpPaymentProof) (userOpData : Str) (value : Int)
  | waitForTransactionReceipt (hash : Hex)
  | getBlock (blockNumber : Nat)
  | prepare (xrplAddress : Json)

/-- The contents of a file: the text of a value, as `JSON.stringify` writes it, or a strict prefix
of one. -/
inductive Text (α : Type)
  | whole (a : α)
  | torn

/-- `JSON.parse(text)`: the text of a value gives back what is `stored` of it. -/
def Text.parse {α : Type} (stored : α → α) : Text α → Except JsError α
  | whole a => .ok (stored a)
  | torn => raise "Unexpected end of JSON input".toList

/-- What an operation resolves to. -/
def Res : Op → Type
  | .mkdirPending | .writePending _ _ | .mkdirState | .writeJob _ _ => Unit
  | .readPending _ => Text PendingUserOp
  | .readJob _ => Text Job
  | .accountTx _ _ _ => XrplReply (Option (List AccountTxEntry))
  | .ledgerCurrent => XrplReply Int
  | .prepareRequest _ _ => FetchReply VerifierBody
  | .proofByRequestRound _ _ => FetchReply DaLayerBody
  | .getContractAddressByName _ | .fdcRequestFeeConfigurations _ => Address
  | .getRequestFee _ _ | .firstVotingRoundStartTs _ | .votingEpochDurationSeconds _
  | .fdcProtocolId _ | .getBlock _ => Nat
  | .isFinalized _ _ _ | .isTransactionIdUsed _ => Bool
  | .requestAttestation _ _ _ _ | .executeDirectMintingWithData _ _ _ _ _ => Hex
  | .waitForTransactionReceipt _ => Receipt
  | .prepare _ => PreparedForWeb

/-- The vocabulary of the executor process. -/
abbrev sig : Async.Sig := ⟨Op, Res, Memory, JsError⟩

/-- A program of the executor. -/
abbrev Prog (α : Type) := Async.Prog sig α

/-! ## 2. The outside -/

/-- A transaction broadcast by the executor's account. -/
inductive Broadcast
  | requestAttestation (job : Str) (request : Option Hex) (value : Nat)
  | executeDirectMintingWithData (xrplTxId : Hex) (proof : XrpPaymentProof) (userOpData : Str)
      (value : Int)
  deriving DecidableEq

structure Outside where
  /-- The files of `.executor-state/pending`, by name. -/
  pending : Str → Option (Text PendingUserOp)
  /-- The files of `.executor-state`, by job id. -/
  jobs : Str → Option (Text Job)
  chain : List Broadcast
  /-- The validated transactions of the Core Vault, oldest first. -/
  history : List AccountTxEntry

/-- How much of a rejected operation took effect. -/
inductive Effect
  | nothing
  | torn
  | full
  deriving DecidableEq, Repr

inductive Choice
  | fail (e : JsError) (effect : Effect)
  | done
  | address (a : Address)
  | nat (n : Nat)
  | bool (b : Bool)
  | hex (h : Hex)
  | receipt (r : Receipt)
  | transactions (r : XrplReply (Option (List AccountTxEntry)))
  | ledger (r : XrplReply Int)
  | verifier (r : FetchReply VerifierBody)
  | daLayer (r : FetchReply DaLayerBody)
  | prepared (p : PreparedForWeb)

/-- A file after a write of which so much took effect. -/
def written {α : Type} (e : Effect) (old : Option (Text α)) (new : α) : Option (Text α) :=
  match e with
  | .nothing => old
  | .torn => some .torn
  | .full => some (.whole new)

/-- The outside after so much of an operation took effect. -/
def effect (e : Effect) (w : Outside) : Op → Outside
  | .writePending name record =>
    { w with pending := Function.update w.pending name (written e (w.pending name) record) }
  | .writeJob id job => { w with jobs := Function.update w.jobs id (written e (w.jobs id) job) }
  | .requestAttestation job _ request value =>
    if e = .full then { w with chain := w.chain ++ [.requestAttestation job request value] } else w
  | .executeDirectMintingWithData xrplTxId _ proof userOpData value =>
    if e = .full then
      { w with chain :=
          w.chain ++ [.executeDirectMintingWithData xrplTxId proof userOpData value] }
    else w
  | _ => w

/-- The contents of a file that is there. -/
def readFile {α : Type} : Option (Text α) → Except JsError (Text α)
  | some t => .ok t
  | none => raise "ENOENT: no such file or directory".toList

/-- What an operation resolves to, if the choice is of its kind. -/
def reply (w : Outside) : (op : Op) → Choice → Option (Except JsError (Res op))
  | .mkdirPending, .done => some (.ok ())
  | .writePending _ _, .done => some (.ok ())
  | .readPending name, .done => some (readFile (w.pending name))
  | .mkdirState, .done => some (.ok ())
  | .writeJob _ _, .done => some (.ok ())
  | .readJob id, .done => some (readFile (w.jobs id))
  | .accountTx _ _ _, .transactions r => some (.ok r)
  | .ledgerCurrent, .ledger r => some (.ok r)
  | .prepareRequest _ _, .verifier r => some (.ok r)
  | .proofByRequestRound _ _, .daLayer r => some (.ok r)
  | .getContractAddressByName _, .address a => some (.ok a)
  | .fdcRequestFeeConfigurations _, .address a => some (.ok a)
  | .getRequestFee _ _, .nat n => some (.ok n)
  | .firstVotingRoundStartTs _, .nat n => some (.ok n)
  | .votingEpochDurationSeconds _, .nat n => some (.ok n)
  | .fdcProtocolId _, .nat n => some (.ok n)
  | .isFinalized _ _ _, .bool b => some (.ok b)
  | .isTransactionIdUsed _, .bool b => some (.ok b)
  | .requestAttestation _ _ _ _, .hex h => some (.ok h)
  | .executeDirectMintingWithData _ _ _ _ _, .hex h => some (.ok h)
  | .waitForTransactionReceipt _, .receipt r => some (.ok r)
  | .getBlock _, .nat n => some (.ok n)
  | .prepare _, .prepared p => some (.ok p)
  | _, _ => none

/-- Settle an operation. -/
def perform (op : Op) (c : Choice) (w : Outside) : Option (Except JsError (Res op) × Outside) :=
  match c with
  | .fail e part => some (.error e, effect part w op)
  | c => (reply w op c).map fun r => (r, effect .full w op)

/-- What is seen of an operation in flight: a file under a write is truncated first. -/
def disturb (op : Op) (w : Outside) : Option Outside :=
  match op with
  | .writePending _ _ | .writeJob _ _ => some (effect .torn w op)
  | _ => none

/-- The world of the executor. -/
abbrev world : Async.World sig := ⟨Outside, Choice, perform, disturb⟩

/-- The memory and the outside. -/
abbrev St := Async.St sig world

/-! ## 3. What can change outside -/

/-- The operations that change nothing outside. -/
def Op.readOnly : Op → Bool
  | .writePending _ _ | .writeJob _ _ | .requestAttestation _ _ _ _
  | .executeDirectMintingWithData _ _ _ _ _ => false
  | _ => true

@[simp] theorem effect_writePending (e : Effect) (w : Outside) (name : Str)
    (record : PendingUserOp) : effect e w (.writePending name record) =
      { w with pending := Function.update w.pending name (written e (w.pending name) record) } :=
  rfl

@[simp] theorem effect_writeJob (e : Effect) (w : Outside) (id : Str) (job : Job) :
    effect e w (.writeJob id job) =
      { w with jobs := Function.update w.jobs id (written e (w.jobs id) job) } := rfl

/-- A file that parses after a write parsed before it, or holds what was written. -/
theorem whole_of_write {α : Type} {files : Str → Option (Text α)} {e : Effect} {name name' : Str}
    {new a : α}
    (h : Function.update files name (written e (files name) new) name' = some (.whole a)) :
    files name' = some (.whole a) ∨ (name' = name ∧ a = new) := by
  by_cases hn : name' = name
  · subst hn
    rw [Function.update_self] at h
    cases e with
    | nothing => exact Or.inl h
    | torn => simp [written] at h
    | full =>
      simp only [written, Option.some.injEq, Text.whole.injEq] at h
      exact Or.inr ⟨rfl, h.symm⟩
  · rw [Function.update_of_ne hn] at h
    exact Or.inl h

/-- The broadcast an operation makes, if it is one. -/
def Op.broadcast : Op → Option Broadcast
  | .requestAttestation job _ request value => some (.requestAttestation job request value)
  | .executeDirectMintingWithData xrplTxId _ proof userOpData value =>
    some (.executeDirectMintingWithData xrplTxId proof userOpData value)
  | _ => none

theorem effect_broadcast {op : Op} {b : Broadcast} (h : op.broadcast = some b) (e : Effect)
    (w : Outside) :
    effect e w op = if e = .full then { w with chain := w.chain ++ [b] } else w := by
  cases op with
  | requestAttestation job hub request value =>
    simp only [Op.broadcast, Option.some.injEq] at h
    subst h
    rfl
  | executeDirectMintingWithData xrplTxId manager proof userOpData value =>
    simp only [Op.broadcast, Option.some.injEq] at h
    subst h
    rfl
  | _ => simp [Op.broadcast] at h

theorem effect_readOnly {op : Op} (h : op.readOnly = true) (e : Effect) (w : Outside) :
    effect e w op = w := by
  cases op <;> first | rfl | simp [Op.readOnly] at h

/-- Whatever the answer, the outside is left with some part of the operation's effect. -/
theorem perform_world {op : Op} {c : Choice} {w w' : Outside} {r : Except JsError (Res op)}
    (h : perform op c w = some (r, w')) : ∃ e, w' = effect e w op := by
  unfold perform at h
  split at h
  case h_1 e part =>
    simp only [Option.some.injEq, Prod.mk.injEq] at h
    exact ⟨part, h.2.symm⟩
  case h_2 =>
    obtain ⟨r', -, hr⟩ := Option.map_eq_some_iff.mp h
    simp only [Prod.mk.injEq] at hr
    exact ⟨.full, hr.2.symm⟩

theorem perform_readOnly {op : Op} (hop : op.readOnly = true) {c : Choice} {w w' : Outside}
    {r : Except JsError (Res op)} (h : perform op c w = some (r, w')) : w' = w := by
  obtain ⟨e, rfl⟩ := perform_world h
  exact effect_readOnly hop e w

theorem readFile_ok {α : Type} {file : Option (Text α)} {t : Text α} (h : readFile file = .ok t) :
    file = some t := by
  cases file with
  | none => simp [readFile, raise] at h
  | some t' =>
    simp only [readFile, Except.ok.injEq] at h
    rw [h]

/-- An operation that resolves has taken its full effect. -/
theorem perform_ok {op : Op} {c : Choice} {w w' : Outside} {a : Res op}
    (h : perform op c w = some (.ok a, w')) :
    reply w op c = some (.ok a) ∧ w' = effect .full w op := by
  unfold perform at h
  split at h
  case h_1 => simp at h
  case h_2 =>
    obtain ⟨r, hr, heq⟩ := Option.map_eq_some_iff.mp h
    simp only [Prod.mk.injEq] at heq
    obtain ⟨rfl, rfl⟩ := heq
    exact ⟨hr, rfl⟩

/-- The operations that fail by themselves when a file is missing. -/
def Op.readsFile : Op → Bool
  | .readPending _ | .readJob _ => true
  | _ => false

/-- Every other operation fails only when it is made to. -/
theorem perform_error {op : Op} (hop : op.readsFile = false) {c : Choice} {w w' : Outside}
    {e : JsError} (h : perform op c w = some (.error e, w')) : ∃ part, c = .fail e part := by
  unfold perform at h
  split at h
  case h_1 e' part =>
    simp only [Option.some.injEq, Prod.mk.injEq, Except.error.injEq] at h
    exact ⟨part, by rw [h.1]⟩
  case h_2 =>
    obtain ⟨r, hr, heq⟩ := Option.map_eq_some_iff.mp h
    simp only [Prod.mk.injEq] at heq
    obtain ⟨rfl, -⟩ := heq
    unfold reply at hr
    split at hr <;> simp_all [Op.readsFile]

/-- A read that succeeds returns what the file holds. -/
theorem perform_readPending {name : Str} {c : Choice} {w w' : Outside} {t : Text PendingUserOp}
    (h : perform (.readPending name) c w = some (.ok t, w')) : w.pending name = some t := by
  have hr := (perform_ok h).1
  cases c <;> first | exact readFile_ok (Option.some.inj hr) | cases hr

theorem perform_readJob {id : Str} {c : Choice} {w w' : Outside} {t : Text Job}
    (h : perform (.readJob id) c w = some (.ok t, w')) : w.jobs id = some t := by
  have hr := (perform_ok h).1
  cases c <;> first | exact readFile_ok (Option.some.inj hr) | cases hr

/-- A text that parses is whole. -/
theorem Text.parse_ok {α : Type} {stored : α → α} {t : Text α} {a : α}
    (h : t.parse stored = .ok a) : ∃ b, t = .whole b ∧ a = stored b := by
  cases t with
  | whole b =>
    simp only [Text.parse, Except.ok.injEq] at h
    exact ⟨b, rfl, h.symm⟩
  | torn => simp [Text.parse, raise] at h

theorem disturb_world {op : Op} {w w' : Outside} (h : disturb op w = some w') :
    ∃ e, w' = effect e w op := by
  unfold disturb at h
  split at h
  case h_1 => exact ⟨.torn, (Option.some.inj h).symm⟩
  case h_2 => exact ⟨.torn, (Option.some.inj h).symm⟩
  case h_3 => simp at h

theorem disturb_readOnly {op : Op} (hop : op.readOnly = true) {w w' : Outside} :
    disturb op w ≠ some w' := by
  intro h
  cases op <;> first | (simp [disturb] at h; done) | simp [Op.readOnly] at hop

end OneSig.Executor
