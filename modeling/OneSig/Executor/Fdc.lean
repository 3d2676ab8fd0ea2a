/-
# `packages/executor/src/fdc.ts`

The attestation client of the pipeline.  `prepareRequest` asks the verifier for the encoded
request, `submitRequest` pays its fee and submits it on chain, `isRoundFinalized` asks the relay,
and `fetchProof` gets the proof from the DA layer.

Each of the four is modelled with the cases in which it throws, since the pipeline treats them
differently: a verifier or a DA layer that answers with a body which says that it has nothing yet
raises the error of a service that is not ready, and everything else is an ordinary error.
`readRequest` and `readProof` are what the two make of a reply, a function of its text, of what
`JSON.parse` makes of it and of its fields; the messages are those of the source.

`submitRequest` broadcasts the transaction in the middle: before it the fee is asked for, and
after it the receipt is awaited and the round computed from the block's time.  So an error can
come when the fee has already been paid.  `roundOf` is the round: bigint division truncates
towards zero and throws on a zero divisor, which the epoch length of a contract could be.

Addresses of contracts are looked up once and kept in a cache of the process (`cacheAddress`).
Concurrent reads of one `Promise.all` are awaited one after the other, which can change neither
what is read nor, since none of them changes anything, what others see.  A bigint turned into a
`number` is kept exact.
-/
import OneSig.Executor.World

namespace OneSig.Executor.FdcClient

open OneSig Async

/-- `Memory.registryCache.set(name, address)`. -/
def cacheAddress (name : Str) (address : Address) (m : Memory) : Memory :=
  { m with registryCache := m.registryCache.set name address }

def resolve (name : Str) : Prog Address := do
  match ← Prog.gets (S := sig) fun m => m.registryCache.get? name with
  | some cached => return cached
  | none =>
    let address ← Prog.call (S := sig) (.getContractAddressByName name)
    Prog.modify (cacheAddress name address)
    return address

/-- What `prepareRequest` makes of the verifier's reply. -/
def readRequest (res : FetchReply VerifierBody) : Except JsError Hex := do
  if res.ok = false then
    raise ("verifier HTTP ".toList ++ intText res.status ++ ": ".toList ++ res.text)
  else
    let parsed ← match res.parsed with
      | some body => .ok body
      | none => raise "Unexpected token in JSON".toList
    let status := parsed.status.getD []
    if status ≠ [] ∧ "OK".toList.isPrefixOf status = false ∧ status ≠ "VALID".toList then
      .error (.verifierNotReady status parsed.errorMessage)
    else match parsed.abiEncodedRequest with
      | some (c :: cs) => .ok (c :: cs)
      | _ => raise ("verifier response missing abiEncodedRequest: ".toList ++ res.text)

def prepareRequest (xrplTransactionId : Hex) (proofOwner : Address) : Prog Hex := do
  let res ← Prog.call (S := sig) (.prepareRequest xrplTransactionId proofOwner)
  Prog.lift (S := sig) (readRequest res)

/-- `Number((BigInt(timestamp) - firstRoundStartTs) / epochDuration)`: bigint division truncates
towards zero and throws on a zero divisor. -/
def roundOf (timestamp firstRoundStartTs epochDuration : Nat) : Except JsError Int :=
  if epochDuration = 0 then raise "Division by zero".toList
  else .ok (((timestamp : Int) - firstRoundStartTs).tdiv epochDuration)

/-- `job` names the job the request is made for. -/
def submitRequest (job : Str) (abiEncodedRequest : Option Hex) : Prog Int := do
  let fdcHub ← resolve "FdcHub".toList
  let feeConfig ← Prog.call (S := sig) (.fdcRequestFeeConfigurations fdcHub)
  let fee ← Prog.call (S := sig) (.getRequestFee feeConfig abiEncodedRequest)
  let txHash ← Prog.call (S := sig) (.requestAttestation job fdcHub abiEncodedRequest fee)
  let receipt ← Prog.call (S := sig) (.waitForTransactionReceipt txHash)
  let timestamp ← Prog.call (S := sig) (.getBlock receipt.blockNumber)
  let fsm ← resolve "FlareSystemsManager".toList
  let firstRoundStartTs ← Prog.call (S := sig) (.firstVotingRoundStartTs fsm)
  let epochDuration ← Prog.call (S := sig) (.votingEpochDurationSeconds fsm)
  Prog.lift (S := sig) (roundOf timestamp firstRoundStartTs epochDuration)

/-- `BigInt(roundId)`. -/
def bigIntOfRound : Option Int → Except JsError Int
  | some n => .ok n
  | none => raise "Cannot convert undefined to a BigInt".toList

def isRoundFinalized (roundId : Option Int) : Prog Bool := do
  let relay ← resolve "Relay".toList
  let fdcVerification ← resolve "FdcVerification".toList
  let protocolId ← Prog.call (S := sig) (.fdcProtocolId fdcVerification)
  let round ← Prog.lift (S := sig) (bigIntOfRound roundId)
  Prog.call (S := sig) (.isFinalized relay protocolId round)

/-- What `fetchProof` makes of the DA layer's reply. -/
def readProof (o : Options) (res : FetchReply DaLayerBody) : Except JsError XrpPaymentProof := do
  if res.ok = false then
    .error (.daLayerNotReady ("HTTP ".toList ++ intText res.status ++ ": ".toList ++
      res.text.take 200))
  else
    let raw ← match res.parsed with
      | some body => .ok body
      | none => raise "Unexpected token in JSON".toList
    match raw.response_hex with
    | some (c :: cs) =>
      if o.xrpPaymentResponseParam = false then
        raise "IXRPPayment.Response ABI not found in the periphery package".toList
      else
        let decoded ← o.viem.decodeAbiParameters (c :: cs)
        return { merkleProof := raw.proof.getD [], data := decoded }
    | _ => .error (.daLayerNotReady "proof not published yet".toList)

def fetchProof (o : Options) (abiEncodedRequest : Option Hex) (roundId : Option Int) :
    Prog XrpPaymentProof := do
  let res ← Prog.call (S := sig) (.proofByRequestRound roundId abiEncodedRequest)
  Prog.lift (S := sig) (readProof o res)

end OneSig.Executor.FdcClient
