/-
# What a payment nets

The asset manager takes its fees out of the payment, so `computePaymentAmount` adds them on top of
what is to be minted.  It takes the percentage of the amount that is to be minted, though, and the
asset manager takes it of the amount it is paid, which is the larger one.  The two agree as long
as the fees on top carry no further unit of the percentage; otherwise less is minted than was
asked for.

The deductions are modelled from the comments and the arithmetic of `fassets.ts`: a minting fee
that is a percentage in basis points, rounded down, but at least a minimum, and a fixed fee for
the executor.  `DirectMintingFees.minted` is what is left of a payment.

`FeesFit` is the condition under which the payment is enough, in the terms of the inputs: where
the minimum applies to the net amount it still applies to the whole payment, and elsewhere the
fees on top fit between the net amount and the next amount at which the rounded percentage is one
higher.

* `le_minted_iff` reduces the question to one inequality: the payment must cost no more fee than
  the net amount does, since it was computed from that fee.
* `le_minted_iff_feesFit` decides the inequality, in the two cases of the minimum; it is exact for
  every amount and for all fees that a contract can set (`DirectMintingFees.Valid`).
* `payment_nets_iff` adds what `prepare` does with it: it writes this amount into the payment.

`payment_of_hundred_falls_short` is a payment of a hundred XRP at a quarter of a percent, of which
the asset manager keeps one unit too much.
-/
import Mathlib.Tactic.Ring
import OneSig.Sdk.Prepare

namespace OneSig

/-! ## 1. The asset manager's deductions -/

/-- The fees a contract can set. -/
structure DirectMintingFees.Valid (fees : DirectMintingFees) : Prop where
  feeBIPS_nonneg : 0 ≤ fees.feeBIPS
  feeBIPS_lt : fees.feeBIPS < 10000
  minimum_nonneg : 0 ≤ fees.minimumFeeUBA
  executor_nonneg : 0 ≤ fees.executorFeeUBA

/-- The percentage of an amount. -/
def DirectMintingFees.proportional (fees : DirectMintingFees) (amount : Int) : Int :=
  amount * fees.feeBIPS / 10000

/-- The minting fee on an amount. -/
def DirectMintingFees.minting (fees : DirectMintingFees) (amount : Int) : Int :=
  max (fees.proportional amount) fees.minimumFeeUBA

/-- What is minted for a payment. -/
def DirectMintingFees.minted (fees : DirectMintingFees) (paid : Int) : Int :=
  paid - fees.minting paid - fees.executorFeeUBA

/-- The fees on top carry no further unit of the percentage: where the minimum applies, it still
does for the payment; elsewhere they fit between the net amount and its next unit. -/
def FeesFit (netMintUBA : Int) (fees : DirectMintingFees) : Prop :=
  if netMintUBA * fees.feeBIPS / 10000 ≤ fees.minimumFeeUBA then
    (netMintUBA + fees.minimumFeeUBA + fees.executorFeeUBA) * fees.feeBIPS <
      (fees.minimumFeeUBA + 1) * 10000
  else
    netMintUBA * fees.feeBIPS % 10000 +
      (netMintUBA * fees.feeBIPS / 10000 + fees.executorFeeUBA) * fees.feeBIPS < 10000

instance (netMintUBA : Int) (fees : DirectMintingFees) : Decidable (FeesFit netMintUBA fees) :=
  if h : netMintUBA * fees.feeBIPS / 10000 ≤ fees.minimumFeeUBA then
    decidable_of_iff _ (iff_of_eq (if_pos h).symm)
  else decidable_of_iff _ (iff_of_eq (if_neg h).symm)

section Fees

variable {fees : DirectMintingFees} {netMintUBA : Int}

theorem DirectMintingFees.Valid.product_nonneg (h : fees.Valid) (hnet : 0 ≤ netMintUBA) :
    0 ≤ netMintUBA * fees.feeBIPS :=
  Int.mul_nonneg hnet h.feeBIPS_nonneg

/-- The code's fee is that on the net amount. -/
theorem computePaymentAmount_minting (h : fees.Valid) (hnet : 0 ≤ netMintUBA) :
    (computePaymentAmount netMintUBA fees).mintingFeeUBA = fees.minting netMintUBA := by
  have hdiv : (netMintUBA * fees.feeBIPS).tdiv 10000 = fees.proportional netMintUBA :=
    Int.tdiv_eq_ediv_of_nonneg (h.product_nonneg hnet)
  simp only [computePaymentAmount, hdiv, DirectMintingFees.minting]
  split
  · omega
  · omega

theorem computePaymentAmount_total (h : fees.Valid) (hnet : 0 ≤ netMintUBA) :
    (computePaymentAmount netMintUBA fees).totalUBA =
      netMintUBA + fees.minting netMintUBA + fees.executorFeeUBA := by
  rw [← computePaymentAmount_minting h hnet]
  rfl

/-- The net amount is minted exactly when the payment costs no more than it does. -/
theorem le_minted_iff (h : fees.Valid) (hnet : 0 ≤ netMintUBA) :
    netMintUBA ≤ fees.minted (computePaymentAmount netMintUBA fees).totalUBA ↔
      fees.minting (computePaymentAmount netMintUBA fees).totalUBA ≤ fees.minting netMintUBA := by
  rw [DirectMintingFees.minted, computePaymentAmount_total h hnet]
  constructor
  · intro hle
    omega
  · intro hle
    omega

/-- The percentage of a payment, in terms of that of the net amount. -/
theorem paid_product (netMintUBA : Int) (fees : DirectMintingFees) (fee : Int) :
    (netMintUBA + fee + fees.executorFeeUBA) * fees.feeBIPS =
      netMintUBA * fees.feeBIPS + (fee + fees.executorFeeUBA) * fees.feeBIPS := by
  ring

/-- **The payment nets what was asked for exactly when the fees fit**: the percentage is added on
top of the net amount and taken from the whole payment. -/
theorem le_minted_iff_feesFit (h : fees.Valid) (hnet : 0 ≤ netMintUBA) :
    netMintUBA ≤ fees.minted (computePaymentAmount netMintUBA fees).totalUBA ↔
      FeesFit netMintUBA fees := by
  rw [le_minted_iff h hnet, computePaymentAmount_total h hnet, FeesFit]
  unfold DirectMintingFees.minting DirectMintingFees.proportional
  split
  case isTrue hmin =>
    -- the minimum applies to the net amount
    rw [max_eq_right hmin]
    constructor
    · intro hle
      omega
    · intro hlt
      omega
  case isFalse hmin =>
    have hpaid := paid_product netMintUBA fees (netMintUBA * fees.feeBIPS / 10000)
    rw [max_eq_left (by omega : fees.minimumFeeUBA ≤ netMintUBA * fees.feeBIPS / 10000), hpaid]
    constructor
    · intro hle
      omega
    · intro hlt
      omega

end Fees

namespace OneSigClient

/-- What `prepare` writes into the payment. -/
theorem prepare_amount {viem : Viem} {params : PrepareParams} {reads : PrepareReads}
    {req : PreparedRequest} (h : prepare viem params reads = .ok req) :
    req.xrplPayment.amount =
      intText (computePaymentAmount params.netMintUBA reads.fees).totalUBA := by
  obtain ⟨op, memo, h⟩ := prepare_ok h
  exact h.amount

end OneSigClient

/-- **What `prepare` asks to be paid nets what was asked for exactly when the fees fit.** -/
theorem payment_nets_iff {netMintUBA : Int} {fees : DirectMintingFees} (hnet : 0 ≤ netMintUBA)
    (h : fees.Valid) :
    (netMintUBA ≤ fees.minted (computePaymentAmount netMintUBA fees).totalUBA ↔
      FeesFit netMintUBA fees) ∧
    ∀ viem params reads req, params.netMintUBA = netMintUBA → reads.fees = fees →
      OneSigClient.prepare viem params reads = .ok req →
      req.xrplPayment.amount = intText (computePaymentAmount netMintUBA fees).totalUBA := by
  refine ⟨le_minted_iff_feesFit h hnet, fun viem params reads req hparams hreads hreq => ?_⟩
  rw [OneSigClient.prepare_amount hreq, hparams, hreads]

/-- A quarter of a percent, at least a tenth of an XRP, and a tenth for the executor. -/
def sampleFees : DirectMintingFees where
  executorFeeUBA := 100000
  feeBIPS := 25
  minimumFeeUBA := 100000

theorem sampleFees_valid : sampleFees.Valid := by
  constructor
  · decide
  · decide
  · decide
  · decide

/-- Ten XRP, where the minimum applies. -/
theorem payment_nets_ten :
    10000000 ≤ sampleFees.minted (computePaymentAmount 10000000 sampleFees).totalUBA :=
  (payment_nets_iff (by decide) sampleFees_valid).1.mpr (by decide)

/-- **Of a hundred XRP the asset manager keeps too much**, at a quarter of a percent: the user
ends up with less than the hundred that were asked for. -/
theorem payment_of_hundred_falls_short :
    ¬100000000 ≤ sampleFees.minted (computePaymentAmount 100000000 sampleFees).totalUBA := by
  decide

end OneSig
