/-
# `packages/executor/src/watcher.ts` and the XRPL client it polls

One poll asks the server for a page of the Core Vault's transactions from the cursor's ledger on,
moves the cursor over it, and reports the payments whose `0xFE` memo commits to a registered
operation.

The loop is the source's.  An entry that is marked as unvalidated, or has no transaction, or is
not a payment, is passed over; every other one moves the cursor before anything else is looked at,
and then the hash is checked against the set of those seen, the memos are searched for a
commitment, the store is asked, and only what is found is marked as seen and reported.  The order
matters: the cursor has moved when the store answers that it knows nothing, and that answer may
have come of a file that could not be read.

`commitmentFromMemos` takes the first memo that holds a commitment.  `Buffer.from(data, "hex")`
stops at the first pair that is no byte; a memo that cannot be decoded throws inside the loop's
own `try`, and a decoded memo of another instruction is passed over.  `commitmentFromMemos_shape`
says that what is found is 32 bytes in lower case, which is how the store writes its keys.

`readResult` is what the client makes of a reply: an error with the server's message, or the
result.  The page size and the direction of the page are part of the request; that the server
honours them is not assumed here but said where a result needs it.  Neither the destination of a
payment nor its result code is read, as in the source.
-/
import OneSig.Executor.Store
import OneSig.Sdk.MemoRoundTrip

namespace OneSig.Executor

open OneSig Async

/-! ## 1. `packages/executor/src/xrpl.ts` -/

namespace XrplHttpClient

/-- What `call` makes of the server's reply. -/
def readResult {α : Type} (method : Str) : XrplReply α → Except JsError α
  | .httpError status => raise ("XRPL HTTP ".toList ++ intText status)
  | .missingResult => raise "XRPL response missing result".toList
  | .failed error error_message =>
    raise ("XRPL ".toList ++ method ++ ": ".toList ++ error_message.getD error)
  | .result a => .ok a

def accountTx (account : Str) (limit : Nat) (ledger_index_min : Int) :
    Prog (Option (List AccountTxEntry)) := do
  let body ← Prog.call (S := sig) (.accountTx account limit ledger_index_min)
  Prog.lift (S := sig) (readResult "account_tx".toList body)

def currentLedger : Prog Int := do
  let body ← Prog.call (S := sig) .ledgerCurrent
  Prog.lift (S := sig) (readResult "ledger_current".toList body)

end XrplHttpClient

/-! ## 2. The commitment in a payment -/

/-- `wrapper?.Memo?.MemoData`. -/
def memoData (wrapper : Json) : Option Json :=
  Json.member "MemoData".toList (Json.member "Memo".toList (some wrapper))

/-- `Uint8Array.from(Buffer.from(data, "hex"))`: decoding stops at the first pair that is no byte.
This is the documented behaviour.  In a text with characters beyond Latin-1 an implementation may
look at their low bytes only; the server's texts are ASCII. -/
def memoBytesOf (data : Str) : Memo.Uint8Array := .ofBytes (Bytes.hexDecodePrefix data)

/-- The commitment of one memo entry. -/
def commitmentOf (wrapper : Json) : Option Hex :=
  match memoData wrapper with
  | some (.str data) =>
    match Memo.decodeMemo (memoBytesOf data) with
    | .ok (.executeCommitted _ _ userOpHash) => some userOpHash
    | _ => none
  | _ => none

/-- Extract a `0xFE` commitment from a payment's memos. -/
def commitmentFromMemos (tx : XrplTx) : Option Hex :=
  match tx.memos with
  | some (.arr memos) => memos.findSome? commitmentOf
  | _ => none

/-- A commitment found in a payment is 32 bytes in lower case. -/
theorem commitmentFromMemos_shape {tx : XrplTx} {commitment : Hex}
    (h : commitmentFromMemos tx = some commitment) : IsLowerHex 32 commitment := by
  unfold commitmentFromMemos at h
  split at h
  case h_2 => cases h
  obtain ⟨wrapper, -, hw⟩ := List.exists_of_findSome?_eq_some h
  unfold commitmentOf at hw
  split at hw
  case h_2 => cases hw
  split at hw
  case h_2 => cases hw
  case h_1 hd =>
    cases hw
    exact Memo.decodeMemo_executeCommitted hd

/-! ## 3. `Watcher` -/

namespace Watcher

/-- `if (ledgerIndex > this.#lastLedger) this.#lastLedger = ledgerIndex`. -/
def advanceCursor (ledgerIndex : Int) (m : Memory) : Memory :=
  { m with lastLedger := max m.lastLedger ledgerIndex }

/-- `this.#seen.add(hash)`. -/
def markSeen (hash : Str) (m : Memory) : Memory := { m with seen := hash :: m.seen }

/-- `if (hash && this.#seen.has(hash))`. -/
def alreadySeen (hash : Option Str) (seen : List Str) : Bool :=
  match hash with
  | some h => decide (h ≠ [] ∧ h ∈ seen)
  | none => false

/-- What the loop does with one entry: the payment to report, if any. -/
def pollEntry (entry : AccountTxEntry) : Prog (Option ObservedPayment) := do
  if entry.validated = some false then
    return none
  else match entry.tx_json.orElse fun _ => entry.tx with
    | none => return none
    | some tx =>
      if tx.transactionType ≠ some "Payment".toList then
        return none
      else
        let ledgerIndex := entry.ledger_index.getD 0
        Prog.modify (S := sig) (advanceCursor ledgerIndex)
        let hashEarly := entry.hash.orElse fun _ => tx.hash
        let seen ← Prog.gets (S := sig) Memory.seen
        if alreadySeen hashEarly seen = true then
          return none
        else match commitmentFromMemos tx with
          | none => return none
          | some commitment =>
            match ← PendingStore.get commitment with
            | none => return none
            | some pending =>
              match hashEarly with
              | some (c :: cs) =>
                let hash := c :: cs
                Prog.modify (S := sig) (markSeen hash)
                let amount := (tx.amount.map XrplAmount.text).getD "0".toList
                let sender := tx.account.getD []
                -- the log line prints the label
                let _ ← Prog.lift (S := sig) pending.label.text
                return some { xrplTxId := hash, commitment, amount, sender, ledgerIndex }
              | _ => return none

/-- The loop of `poll`. -/
def pollLoop : List AccountTxEntry → Prog (List ObservedPayment)
  | [] => return []
  | entry :: rest => do
    let payment ← pollEntry entry
    let found ← pollLoop rest
    return payment.toList ++ found

/-- `this.#lastLedger > 0 ? this.#lastLedger : -1`. -/
def ledgerIndexMin (lastLedger : Int) : Int := if 0 < lastLedger then lastLedger else -1

def poll (o : Options) (limit : Nat := 30) : Prog (List ObservedPayment) := do
  let lastLedger ← Prog.gets (S := sig) Memory.lastLedger
  let transactions ← XrplHttpClient.accountTx o.coreVaultAddress limit (ledgerIndexMin lastLedger)
  pollLoop (transactions.getD [])

/-- Only consider ledgers at or after this index. -/
def setStartLedger (index : Int) (m : Memory) : Memory := { m with lastLedger := index }

end Watcher

end OneSig.Executor
