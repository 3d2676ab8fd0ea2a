/-
# `packages/executor/src/pipeline.ts`

The persisted state machine of a job: from a payment that was observed to a mint that was
delivered, one `step` at a time.  `step` is a `try` around the switch on the job's state, a
`catch` that counts the attempt, and a `save`; three paths return early and skip the save.

* `load` reads the file of an id and gives a new object each time, or `null`; `create` returns
  what `load` finds and builds a job only when there is nothing.  `save` writes the object as it
  is after the directory has been created, so a change that another holder makes meanwhile is
  written too.
* `switch` has one case for each state, with the calls of the source in their order.  An
  attestation request is prepared, it is submitted with its fee, its round is waited for, its
  proof is fetched, and the mint is sent; the receipt says whether the mint was executed, delayed
  or rejected.
* `countAttempt` is the job after a step that raised an error: five attempts fail it, unless the
  error is one of the two that say that a service is not ready yet.
* `lostRace` asks the chain whether another relayer has used the payment before the error of a
  mint counts.

The early returns are `Flow.done`: a job in a terminal state, a job whose execution is delayed,
and a round that is not finalized.  A delayed step does not save, so what a rejected save has left
in memory stays there.

Results about a step do not unfold these definitions; they use the specification in `StepSpec`.
-/
import OneSig.Executor.Fdc

namespace OneSig.Executor

open OneSig Async

/-! ## 1. Job objects -/

/-- Change the job object at a reference. -/
def Memory.updateJob (r : Ref) (f : Job → Job) (m : Memory) : Memory :=
  { m with heap := m.heap.modify r f }

/-- Put a job object in the heap. -/
def Memory.alloc (job : Job) (m : Memory) : Memory := { m with heap := m.heap ++ [job] }

/-- Read the job object at a reference.  A reference never dangles. -/
def deref (r : Ref) : Prog Job := do
  match ← Prog.gets (S := sig) fun m => m.heap[r]? with
  | some job => return job
  | none => Prog.lift (S := sig) (raise "Cannot read properties of undefined".toList)

/-- A new job object. -/
def newJob (job : Job) : Prog Ref := do
  let r ← Prog.gets (S := sig) fun m => m.heap.length
  Prog.modify (Memory.alloc job)
  return r

/-- `/^[0-9a-fA-F]{64}$/`. -/
def isTxHash (s : Str) : Bool := s.length == 64 && s.all Bytes.isHexDigit

theorem isTxHash_iff {s : Str} :
    isTxHash s = true ↔ s.length = 64 ∧ ∀ c ∈ s, Bytes.isHexDigit c = true := by
  simp [isTxHash]

/-- A hash on its own has no prefix to lose. -/
theorem not_prefixed {s : Str} (h : isTxHash s = true) : hexPrefix.isPrefixOf s = false := by
  cases hp : hexPrefix.isPrefixOf s with
  | false => rfl
  | true =>
    obtain ⟨rest, rfl⟩ := List.isPrefixOf_iff_prefix.mp hp
    have hx := (isTxHash_iff.mp h).2 'x' (by simp [hexPrefix])
    exact absurd hx (by decide)

/-- Normalise an XRPL transaction hash to the 0x-prefixed 32-byte form the verifier wants. -/
def normalizeXrplTxId (hash : Str) : Except JsError Hex :=
  let clean := if hexPrefix.isPrefixOf hash then hash.drop 2 else hash
  if isTxHash clean = false then
    raise ("not a 32-byte XRPL transaction hash: ".toList ++ hash)
  else .ok (hexPrefix ++ toUpperCase clean)

namespace ExecutorPipeline

/-! ## 2. `load`, `save` and `create` -/

/-- `load` gives a new object each time, or `null`. -/
def load (id : Str) : Prog (Option Ref) :=
  (do
    let raw ← Prog.call (S := sig) (.readJob id)
    let job ← Prog.lift (S := sig) (raw.parse Job.stored)
    let r ← newJob job
    return some r).tryCatch fun _ => return none

/-- The text is made from the object as it is after the directory has been created. -/
def save (r : Ref) : Prog Unit := do
  let now ← Prog.gets Memory.now
  Prog.modify (Memory.updateJob r fun job => { job with updatedAt := now })
  let job ← deref r
  Prog.call (S := sig) .mkdirState
  let text ← deref r
  Prog.call (S := sig) (.writeJob job.id text)

/-- The argument of `create`. -/
structure CreateParams where
  xrplTxId : Str
  userOpData : Str
  totalCallValue : Int
  personalAccount : Json
  nonce : Int

/-- The job `create` builds. -/
def CreateParams.job (params : CreateParams) (xrplTxId : Hex) (now : Int) : Job where
  id := xrplTxId.drop 2
  state := .observed
  xrplTxId := xrplTxId
  userOpData := params.userOpData
  totalCallValue := params.totalCallValue
  personalAccount := params.personalAccount
  nonce := params.nonce
  attempts := 0
  updatedAt := now

def create (params : CreateParams) : Prog Ref := do
  let xrplTxId ← Prog.lift (S := sig) (normalizeXrplTxId params.xrplTxId)
  match ← load (xrplTxId.drop 2) with
  | some existing => return existing
  | none =>
    let now ← Prog.gets Memory.now
    let r ← newJob (params.job xrplTxId now)
    save r
    return r

/-! ## 3. `step` -/

/-- How the `try` block ends: `return job`, or on to the `save`. -/
inductive Flow
  | returned
  | save
  deriving DecidableEq, Repr

/-- The unix seconds an execution becomes allowed at, if some log says it is delayed. -/
def findDelayedEvent (viem : Viem) (logs : List Log) : Option Int :=
  logs.findSome? fun entry =>
    match viem.decodeEventLog entry with
    | .error _ => none
    | .ok decoded =>
      if decoded.eventName = "DirectMintingDelayed".toList ∨
          decoded.eventName = "LargeDirectMintingDelayed".toList then decoded.executionAllowedAt
      else none

/-- `new Date(ms).toISOString()`, whose text only goes to the log. -/
def toISOString (ms : Int) : Except JsError Unit :=
  if 8640000000000000 < ms.natAbs then raise "Invalid time value".toList else .ok ()

def caseObserved (o : Options) (r : Ref) (job : Job) : Prog Flow := do
  let request ← FdcClient.prepareRequest job.xrplTxId o.account
  Prog.modify (Memory.updateJob r fun job =>
    { job with abiEncodedRequest := some request, state := .request_prepared })
  return .save

def caseRequestPrepared (r : Ref) (job : Job) : Prog Flow := do
  let roundId ← FdcClient.submitRequest job.id job.abiEncodedRequest
  Prog.modify (Memory.updateJob r fun job =>
    { job with roundId := some roundId, state := .request_submitted })
  return .save

def caseRequestSubmitted (r : Ref) (job : Job) : Prog Flow := do
  let finalized ← FdcClient.isRoundFinalized job.roundId
  if finalized = false then
    return .returned
  else
    Prog.modify (Memory.updateJob r fun job => { job with state := .round_finalized })
    return .save

def caseRoundFinalized (o : Options) (r : Ref) (job : Job) : Prog Flow := do
  let _ ← FdcClient.fetchProof o job.abiEncodedRequest job.roundId
  Prog.modify (Memory.updateJob r fun job => { job with state := .proof_fetched })
  return .save

/-- `job.executionAllowedAt && Date.now() < job.executionAllowedAt`. -/
def stillDelayed (job : Job) (now : Int) : Bool :=
  match job.executionAllowedAt with
  | some t => decide (t ≠ 0) && decide (now < t)
  | none => false

def caseDelayed (r : Ref) (job : Job) : Prog Flow := do
  let now ← Prog.gets Memory.now
  if stillDelayed job now = true then
    return .returned
  else
    Prog.modify (Memory.updateJob r fun job => { job with state := .proof_fetched })
    return .save

def caseProofFetched (o : Options) (r : Ref) (job : Job) : Prog Flow := do
  let proof ← FdcClient.fetchProof o job.abiEncodedRequest job.roundId
  -- the arguments are read again once the proof is there
  let job ← deref r
  let hash : Hex ← Prog.call (S := sig) (.executeDirectMintingWithData job.xrplTxId o.assetManager
    proof job.userOpData job.totalCallValue)
  Prog.modify (Memory.updateJob r fun job => { job with flareTxHash := some hash })
  let receipt ← Prog.call (S := sig) (.waitForTransactionReceipt hash)
  if receipt.reverted = true then
    Prog.lift (S := sig) (raise ("executeDirectMintingWithData reverted (tx ".toList ++ hash ++
      ")".toList))
  else match findDelayedEvent o.viem receipt.logs with
    | some delay =>
      Prog.modify (Memory.updateJob r fun job =>
        { job with executionAllowedAt := some (delay * 1000), state := .delayed })
      Prog.lift (S := sig) (toISOString (delay * 1000))
      return .save
    | none =>
      Prog.modify (Memory.updateJob r fun job => { job with state := .executed })
      return .save

/-- `switch (job.state)`. -/
def switch (o : Options) (r : Ref) (job : Job) : Prog Flow :=
  match job.state with
  | .observed => caseObserved o r job
  | .request_prepared => caseRequestPrepared r job
  | .request_submitted => caseRequestSubmitted r job
  | .round_finalized => caseRoundFinalized o r job
  | .delayed => caseDelayed r job
  | .proof_fetched => caseProofFetched o r job
  | .executed => return .returned
  | .failed => return .returned

/-- The `try` block. -/
def tryBlock (o : Options) (r : Ref) : Prog Flow := do
  let job ← deref r
  match ← switch o r job with
  | .returned => return .returned
  | .save =>
    Prog.modify (Memory.updateJob r fun job => { job with attempts := 0, lastError := none })
    return .save

/-- `text.includes(part)`. -/
def includes (text part : Str) : Bool := text.tails.any part.isPrefixOf

def PAYMENT_ALREADY_CONFIRMED_SELECTOR : Str := "0x18dce79f".toList

def isAlreadyConfirmed (error : JsError) : Bool :=
  includes (toLowerCase error.message) PAYMENT_ALREADY_CONFIRMED_SELECTOR

/-- Has the AssetManager already consumed this XRPL payment? -/
def isTransactionUsed (xrplTxId : Hex) : Prog Bool :=
  (Prog.call (S := sig) (.isTransactionIdUsed xrplTxId)).tryCatch fun _ => return false

/-- `VerifierNotReadyError` and `DaLayerNotReadyError`. -/
def retryable : JsError → Bool
  | .verifierNotReady _ _ => true
  | .daLayerNotReady _ => true
  | .error _ => false

/-- The job after a step that raised an error. -/
def countAttempt (error : JsError) (job : Job) : Job :=
  let attempts := job.attempts + 1
  { job with
    attempts := attempts
    lastError := some error.message
    state := if retryable error = false ∧ 5 ≤ attempts then .failed else job.state }

/-- Did another relayer finalise the mint?  Confirmed on chain rather than trusting the revert
reason. -/
def lostRace (r : Ref) (error : JsError) : Prog Bool := do
  let job ← deref r
  if job.state = .proof_fetched ∧ isAlreadyConfirmed error = true then
    isTransactionUsed job.xrplTxId
  else return false

/-- The `catch` block. -/
def catchBlock (r : Ref) (error : JsError) : Prog Flow := do
  if ← lostRace r error then
    Prog.modify (Memory.updateJob r fun job => { job with state := .executed, lastError := none })
    save r
    return .returned
  else
    Prog.modify (Memory.updateJob r (countAttempt error))
    return .save

/-- Advance one step. -/
def step (o : Options) (r : Ref) : Prog Unit := do
  match ← (tryBlock o r).tryCatch (catchBlock r) with
  | .returned => return ()
  | .save => save r

end ExecutorPipeline

end OneSig.Executor
