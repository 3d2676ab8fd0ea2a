/-
# The contract on the other side

`LatchInstructionSender` is the contract through which an account reaches the enclave by way of
the chain.  `cancelIntent` records who asked for a cancellation and hands a message to the
extension registry, `requestStatus` hands one over without recording anything, and
`setExtensionId` finds the id of the extension by asking the registry for the sender of each.

The two registries are contracts of another system: what is taken from them is the choice of
machines and whether the instruction is accepted (`Registries`).  Everything that the contract
itself decides is here: the order of its checks, which of them reverts with which error, and the
parameters of the instruction that goes out.

A `bytes32` is a byte string of length 32, which is a field of the type, and the ABI encoding of
one is its own bytes.  The identifiers of the protocol are texts padded with zeros on the right
(`Bytes32.ofText`), on both sides; the enclave writes a `bytes32` as hexadecimal text
(`Bytes32.hex`).

* `send_ok` says that the instruction which went out is the one that was asked for, to the
  machines that the registry has drawn.
* `originalMessage` is that message as the enclave gets it: the bytes that were sent, in
  hexadecimal.

What the enclave makes of such a message is the subject of the module on the exit through the
chain, and which accounts may cancel that of the one on the exit itself.
-/
import OneSig.Latch.Requests

namespace OneSig.Latch

/-! ## 1. Solidity values -/

structure Bytes32 where
  bytes : List UInt8
  length_eq : bytes.length = 32
  deriving DecidableEq

/-- `bytes32("…")`: a short text, padded with zeros on the right. -/
def Bytes32.ofText (text : String) : Bytes32 where
  bytes := (text.toList.map (fun c : Char => UInt8.ofNat c.toNat) ++ List.replicate 32 0).take 32
  length_eq := by simp

/-- The string a client writes a `bytes32` as. -/
def Bytes32.hex (b : Bytes32) : Hex := bytesToHex b.bytes

/-- `abi.encode(b)`. -/
def abiEncode (b : Bytes32) : List UInt8 := b.bytes

/-- An account. -/
abbrev Account := BitVec 160

/-! ## 2. The contract -/

/-- `ITeeExtensionRegistry.TeeInstructionParams`. -/
structure TeeInstructionParams where
  opType : Bytes32
  opCommand : Bytes32
  message : List UInt8
  cosigners : List Account
  cosignersThreshold : Nat
  claimBackAddress : Account

/-- The registries: the machines drawn for an extension, and whether an instruction is taken. -/
structure Registries where
  getRandomTeeIds : Nat → Nat → Option (List Account)
  sendInstructions : List Account → TeeInstructionParams → Bool

/-- Why a call reverts. -/
inductive Revert
  | alreadyCancelled (commitment : Bytes32)
  | extensionIdNotSet
  | registry
  deriving DecidableEq

/-- The storage of the contract. -/
structure LatchInstructionSender where
  cancelledBy : Bytes32 → Account
  extensionId : Nat

namespace LatchInstructionSender

def opTypeLatch : Bytes32 := .ofText "LATCH"

def opCommandCancel : Bytes32 := .ofText "CANCEL"

def opCommandStatus : Bytes32 := .ofText "STATUS"

/-- The instruction that goes out. -/
def params (opCommand : Bytes32) (message : List UInt8) (sender : Account) :
    TeeInstructionParams where
  opType := opTypeLatch
  opCommand := opCommand
  message := message
  cosigners := []
  cosignersThreshold := 0
  claimBackAddress := sender

def send (r : Registries) (c : LatchInstructionSender) (opCommand : Bytes32)
    (message : List UInt8) (sender : Account) : Except Revert TeeInstructionParams :=
  if c.extensionId = 0 then .error .extensionIdNotSet
  else match r.getRandomTeeIds c.extensionId 1 with
    | none => .error .registry
    | some teeIds =>
      if r.sendInstructions teeIds (params opCommand message sender) then
        .ok (params opCommand message sender)
      else .error .registry

/-- The first to cancel a commitment is recorded, and the instruction sent. -/
def cancelIntent (r : Registries) (c : LatchInstructionSender) (sender : Account)
    (commitment : Bytes32) : Except Revert (LatchInstructionSender × TeeInstructionParams) :=
  if c.cancelledBy commitment ≠ 0 then .error (.alreadyCancelled commitment)
  else
    (send r c opCommandCancel (abiEncode commitment) sender).map fun sent =>
      ({ c with cancelledBy := Function.update c.cancelledBy commitment sender }, sent)

def requestStatus (r : Registries) (c : LatchInstructionSender) (sender : Account)
    (commitment : Bytes32) : Except Revert TeeInstructionParams :=
  send r c opCommandStatus (abiEncode commitment) sender

/-- The instruction that went out is the one that was asked for. -/
theorem send_ok {r : Registries} {c : LatchInstructionSender} {opCommand : Bytes32}
    {message : List UInt8} {sender : Account} {sent : TeeInstructionParams}
    (h : send r c opCommand message sender = .ok sent) : sent = params opCommand message sender := by
  unfold send at h
  split_ifs at h
  split at h
  · cases h
  · split_ifs at h
    simp only [Except.ok.injEq] at h
    exact h.symm

theorem cancelIntent_ok {r : Registries} {c c' : LatchInstructionSender} {sender : Account}
    {commitment : Bytes32} {sent : TeeInstructionParams}
    (h : cancelIntent r c sender commitment = .ok (c', sent)) :
    sent = params opCommandCancel (abiEncode commitment) sender := by
  unfold cancelIntent at h
  split_ifs at h
  cases hsend : send r c opCommandCancel (abiEncode commitment) sender with
  | error e =>
    rw [hsend] at h
    cases h
  | ok sent' =>
    rw [hsend] at h
    simp only [Except.map, Except.ok.injEq, Prod.mk.injEq] at h
    rw [← h.2, send_ok hsend]

end LatchInstructionSender

/-- The message as the enclave gets it: the bytes that were sent, in hex. -/
def TeeInstructionParams.originalMessage (sent : TeeInstructionParams) : Str :=
  bytesToHex sent.message

end OneSig.Latch
