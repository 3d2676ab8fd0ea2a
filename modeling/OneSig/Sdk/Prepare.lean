/-
# `packages/sdk/src/prepare.ts` and the fee arithmetic of `fassets.ts`

`OneSigClient.prepare` turns a batch of calls into an XRPL payment.  It reads the personal
account, its nonce, the fees of the asset manager and the address to pay from the contracts; those
reads are an argument here (`PrepareReads`), and the rest, the assembly, is the function.  Nothing
of what it returns is decided by a service: an operation is built, its hash goes into an `0xFE`
memo, and the amount is computed from the fees and the amount that is to be minted.

`computePaymentAmount` is the arithmetic of `fassets.ts`: the percentage of the amount, rounded
down, but at least the minimum, and the executor's fee, both added on top.  Integers are unbounded
in the source as well (`bigint`), so there is no overflow to model; the division truncates, as
`BigInt` division does.

`prepare_ok` is the specification of the function: whatever it returns was assembled (`Assembled`)
from an operation that `prepareUserOp` built for the batch and from a memo that commits to that
operation's hash, with the amount and the destination as given.  The results about preparing a
payment use this and do not unfold the function again.  What the amount nets after the deductions
of the asset manager is the subject of `Payment`; that the registration endpoint and the watcher
find the commitment again in what was assembled here is the subject of the executor's end-to-end
module.
-/
import OneSig.Sdk.UserOp
import OneSig.Sdk.Memo

namespace OneSig

/-! ## 1. `fassets.ts` -/

structure DirectMintingFees where
  executorFeeUBA : Int
  feeBIPS : Int
  minimumFeeUBA : Int
  deriving DecidableEq, Repr

structure PaymentBreakdown where
  netMintUBA : Int
  mintingFeeUBA : Int
  executorFeeUBA : Int
  totalUBA : Int
  deriving DecidableEq, Repr

/-- Fees are deducted from the payment, so they are added on top of what is to be minted. -/
def computePaymentAmount (netMintUBA : Int) (fees : DirectMintingFees) : PaymentBreakdown :=
  let proportionalFeeUBA := (netMintUBA * fees.feeBIPS).tdiv 10000
  let mintingFeeUBA :=
    if fees.minimumFeeUBA < proportionalFeeUBA then proportionalFeeUBA else fees.minimumFeeUBA
  { netMintUBA, mintingFeeUBA
    executorFeeUBA := fees.executorFeeUBA
    totalUBA := netMintUBA + mintingFeeUBA + fees.executorFeeUBA }

/-! ## 2. `prepare.ts` -/

structure PrepareParams where
  xrplAddress : Str
  calls : List Call
  label : Str
  netMintUBA : Int
  feeUBA : Option Int := none
  walletId : Option Int := none

/-- What `prepare` reads from the contracts. -/
structure PrepareReads where
  personalAccount : Address
  destination : Str
  fees : DirectMintingFees
  nonce : Int
  executor : Address

/-- An XRPL payment with one memo, as it is signed. -/
structure XrplPayment where
  account : Str
  destination : Str
  amount : Str
  memoData : Str
  deriving DecidableEq, Repr

structure PreparedRequest where
  personalAccount : Address
  nonce : Int
  userOp : PackedUserOperation
  userOpData : Hex
  userOpHash : Hex
  label : Str
  pinnedExecutor : Option Address
  payment : PaymentBreakdown
  totalCallValue : Int
  xrplPayment : XrplPayment

def ZERO_ADDRESS : Address := "0x0000000000000000000000000000000000000000".toList

namespace OneSigClient

def prepare (viem : Viem) (params : PrepareParams) (reads : PrepareReads) :
    Except JsError PreparedRequest := do
  let payment := computePaymentAmount params.netMintUBA reads.fees
  let op ← prepareUserOp viem reads.personalAccount reads.nonce params.calls
  let memo ← Memo.encodeExecuteCommittedMemo viem
    { walletId := some (params.walletId.getD 0), executorFeeUBA := params.feeUBA.getD 0 }
    op.userOpHash
  return {
    personalAccount := reads.personalAccount
    nonce := reads.nonce
    userOp := op.userOp
    userOpData := op.userOpData
    userOpHash := op.userOpHash
    label := params.label
    payment
    totalCallValue := totalCallValue params.calls
    pinnedExecutor := if reads.executor = ZERO_ADDRESS then none else some reads.executor
    xrplPayment := {
      account := params.xrplAddress
      destination := reads.destination
      amount := intText payment.totalUBA
      memoData := Memo.toXrplMemoHex memo } }

/-- What a request is assembled from: an operation and the memo that commits to it. -/
structure Assembled (viem : Viem) (params : PrepareParams) (reads : PrepareReads)
    (req : PreparedRequest) (op : PreparedUserOp) (memo : List UInt8) : Prop where
  built : prepareUserOp viem reads.personalAccount reads.nonce params.calls = .ok op
  encoded : Memo.encodeExecuteCommittedMemo viem
    { walletId := some (params.walletId.getD 0), executorFeeUBA := params.feeUBA.getD 0 }
    op.userOpHash = .ok memo
  userOpData : req.userOpData = op.userOpData
  userOpHash : req.userOpHash = op.userOpHash
  callValue : req.totalCallValue = totalCallValue params.calls
  amount : req.xrplPayment.amount =
    intText (computePaymentAmount params.netMintUBA reads.fees).totalUBA
  memoData : req.xrplPayment.memoData = Memo.toXrplMemoHex memo

theorem prepare_ok {viem : Viem} {params : PrepareParams} {reads : PrepareReads}
    {req : PreparedRequest} (h : prepare viem params reads = .ok req) :
    ∃ op memo, Assembled viem params reads req op memo := by
  unfold prepare at h
  obtain ⟨op, hop, h⟩ := bind_ok h
  obtain ⟨memo, hmemo, h⟩ := bind_ok h
  cases h
  exact ⟨op, memo, hop, hmemo, rfl, rfl, rfl, rfl, rfl⟩

end OneSigClient

end OneSig
