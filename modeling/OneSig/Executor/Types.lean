/-
# The data of the executor

The records of `store.ts`, `pipeline.ts`, `watcher.ts` and `fdc.ts`, and the memory of the process
that holds them, with the fields of the source that some function of the model reads or returns.

What a request body supplies and nobody checks is a `Json`: `personalAccount`, `nonce` and the
other fields of a registration are stored as they came, whatever they are.  What the source has
computed itself has the type it computed.  A `Job` is a mutable object that several holders share,
so it lives in a heap and is held by reference; a record of the store is never changed and is a
value.  A bigint that is stored as its decimal text is kept as the integer.

A file holds the text that `JSON.stringify` writes.  That text is the value up to one thing, a
non-finite number, which is written as `null`: `PendingUserOp.stored` and `Job.stored` are what a
file gives back of a record and of a job, and `PendingUserOp.stored_eq_self_iff` says that it
gives the record back as it was if and only if its numbers are finite.  In a job only the account
comes from outside; the other fields are texts and finite numbers.

The replies of the services are what the source reads of them, with the cases that it tells apart:
an HTTP reply is its text and what `JSON.parse` makes of it, an XRPL reply an error or a result,
an amount drops or an issued currency.  Everything else that a service may send is dropped before
it reaches the model.

`Memory` is the state of one process, with the clock among it, and `Memory.boot` that of a process
which has just been constructed.
-/
import OneSig.JsonStored
import OneSig.Viem
import OneSig.Lib.JsMap

namespace OneSig.Executor

open OneSig

/-! ## 1. `store.ts` -/

/-- A registered user operation. -/
structure PendingUserOp where
  commitment : Hex
  userOpData : Str
  personalAccount : Json
  nonce : Json
  totalCallValue : Json
  label : Json
  registeredAt : Int

/-- The record that its file gives back. -/
def PendingUserOp.stored (record : PendingUserOp) : PendingUserOp :=
  { record with
    personalAccount := record.personalAccount.stored
    nonce := record.nonce.stored
    totalCallValue := record.totalCallValue.stored
    label := record.label.stored }

/-- No field has an infinite number in it. -/
def PendingUserOp.finite (record : PendingUserOp) : Bool :=
  record.personalAccount.finite && record.nonce.finite && record.totalCallValue.finite &&
    record.label.finite

@[simp] theorem PendingUserOp.stored_commitment (record : PendingUserOp) :
    record.stored.commitment = record.commitment := rfl

@[simp] theorem PendingUserOp.stored_userOpData (record : PendingUserOp) :
    record.stored.userOpData = record.userOpData := rfl

@[simp] theorem PendingUserOp.stored_registeredAt (record : PendingUserOp) :
    record.stored.registeredAt = record.registeredAt := rfl

@[simp] theorem PendingUserOp.stored_stored (record : PendingUserOp) :
    record.stored.stored = record.stored := by
  simp [PendingUserOp.stored]

/-- **The file gives the record back as it was if and only if its numbers are finite.** -/
theorem PendingUserOp.stored_eq_self_iff {record : PendingUserOp} :
    record.stored = record ↔ record.finite = true := by
  obtain ⟨commitment, userOpData, personalAccount, nonce, totalCallValue, label, registeredAt⟩ :=
    record
  simp [PendingUserOp.stored, PendingUserOp.finite, Json.stored_eq_self_iff, and_assoc]

/-! ## 2. `pipeline.ts` -/

inductive JobState
  | observed
  | request_prepared
  | request_submitted
  | round_finalized
  | proof_fetched
  | delayed
  | executed
  | failed
  deriving DecidableEq, Repr

structure Job where
  id : Str
  state : JobState
  xrplTxId : Hex
  userOpData : Str
  totalCallValue : Int
  personalAccount : Json
  nonce : Int
  abiEncodedRequest : Option Hex := none
  roundId : Option Int := none
  flareTxHash : Option Hex := none
  executionAllowedAt : Option Int := none
  attempts : Nat
  lastError : Option Str := none
  updatedAt : Int

/-- The job that its file gives back.  What the pipeline computed itself is text or a finite number;
only the account comes from a request. -/
def Job.stored (job : Job) : Job := { job with personalAccount := job.personalAccount.stored }

@[simp] theorem Job.stored_stored (job : Job) : job.stored.stored = job.stored := by
  simp [Job.stored]

theorem Job.stored_eq_self_iff {job : Job} :
    job.stored = job ↔ job.personalAccount.finite = true := by
  obtain ⟨id, state, xrplTxId, userOpData, totalCallValue, personalAccount, nonce,
    abiEncodedRequest, roundId, flareTxHash, executionAllowedAt, attempts, lastError, updatedAt⟩ :=
    job
  simp [Job.stored, Json.stored_eq_self_iff]

/-- A reference to a `Job` object. -/
abbrev Ref := Nat

/-! ## 3. `watcher.ts` -/

/-- The `Amount` of a payment: drops, or an issued currency, which is an object. -/
inductive XrplAmount
  | drops (text : Str)
  | issued (currency issuer value : Str)
  deriving DecidableEq, Repr

/-- `String(amount)`. -/
def XrplAmount.text : XrplAmount → Str
  | drops text => text
  | issued _ _ _ => "[object Object]".toList

/-- What the watcher reads of a transaction. -/
structure XrplTx where
  transactionType : Option Str
  memos : Option Json
  hash : Option Str := none
  amount : Option XrplAmount := none
  account : Option Str := none

structure AccountTxEntry where
  hash : Option Str := none
  ledger_index : Option Int := none
  validated : Option Bool := none
  tx_json : Option XrplTx := none
  tx : Option XrplTx := none

structure ObservedPayment where
  xrplTxId : Str
  commitment : Hex
  amount : Str
  sender : Str
  ledgerIndex : Int
  deriving DecidableEq, Repr

/-! ## 4. `fdc.ts` and the replies of the services -/

structure XrpPaymentProof where
  merkleProof : List Hex
  data : Str
  deriving DecidableEq, Repr

/-- A reply to `fetch`: its text, and what `JSON.parse` makes of it. -/
structure FetchReply (α : Type) where
  ok : Bool
  status : Nat
  text : Str
  parsed : Option α

/-- The body of the verifier's reply. -/
structure VerifierBody where
  status : Option Str := none
  abiEncodedRequest : Option Hex := none
  errorMessage : Option Str := none

/-- The body of the DA layer's reply. -/
structure DaLayerBody where
  response_hex : Option Hex := none
  proof : Option (List Hex) := none

/-- A reply to an XRPL JSON-RPC call. -/
inductive XrplReply (α : Type)
  | httpError (status : Nat)
  | missingResult
  | failed (error : Str) (error_message : Option Str)
  | result (a : α)

/-- A transaction receipt. -/
structure Receipt where
  reverted : Bool
  blockNumber : Nat
  logs : List Log

/-- What the injected `prepare` returns, as far as the service stores it. -/
structure PreparedForWeb where
  personalAccount : Str
  nonce : Str
  label : Str
  userOpData : Str
  userOpHash : Str
  totalCallValue : Str

/-! ## 5. The process -/

/-- The options the service is constructed with. -/
structure Options where
  viem : Viem
  /-- `account.address`. -/
  account : Address
  assetManager : Address
  coreVaultAddress : Str
  /-- The periphery package has the `IXRPPayment.Response` tuple. -/
  xrpPaymentResponseParam : Bool := true
  /-- The engine's table of upper case. -/
  upperCase : UpperCase := .plain

/-- The memory of the process. -/
structure Memory where
  /-- `PendingStore.#memory`. -/
  memory : JsMap Hex PendingUserOp
  /-- `Watcher.#lastLedger`. -/
  lastLedger : Int
  /-- `Watcher.#seen`. -/
  seen : List Str
  /-- `ExecutorService.#live`. -/
  live : JsMap Str Ref
  /-- The `Job` objects. -/
  heap : List Job
  /-- `FdcClient.#registryCache`. -/
  registryCache : JsMap Str Address
  /-- `start` has installed its timer. -/
  timer : Bool
  /-- `Date.now()`. -/
  now : Int

/-- The memory of a process that has just been constructed. -/
def Memory.boot (now : Int) : Memory where
  memory := .empty
  lastLedger := 0
  seen := []
  live := .empty
  heap := []
  registryCache := .empty
  timer := false
  now := now

end OneSig.Executor
