/-
# `packages/executor/src/xrpl.ts`: submitting a payment

A script signs a payment, hands the blob to the server and polls until a ledger has validated it.
The hash is known from the moment of the signature, and the file says why that matters: a lost
response is then recoverable by hash, since the transaction can be looked up, and nobody has to
guess whether money has moved.  The poll loop keeps to it and swallows what its lookups throw.
But the call that submits stands outside any `try`: when its response is lost, or is an error, the
caller gets that error and no hash (`lost_response_loses_hash`).

So a payment whose blob has been handed over is recoverable exactly when the server acknowledges
it (`submitted_payment_recoverable_iff`): it answers with a result that has an `engine_result`, be
it a success, a retry or a rejection by the ledger.

The client runs outside the executor process and has no memory, so its operations are a vocabulary
of their own: the requests to the XRPL server and the sleep between two polls.  The server
remembers nothing in the model; each of its answers is chosen anew.  The account and the ledger
are asked for together, and when both fail it is the first one's error that is thrown.  `xrpl`'s
`Wallet` is a parameter, of which nothing is assumed.

* `runs_attempt`, `runs_pollLoop`: one lookup, and the loop by induction over the polls that are
  left.
* `runs_submitSigned`: from the signature on.  `Submitted`: a whole run of `submitPayment`.
-/
import OneSig.Executor.Watcher
import OneSig.Lib.Async.Exec

namespace OneSig.Executor

open OneSig Async

namespace Submit

/-! ## 1. The data -/

structure XrplPaymentInput where
  account : Str
  destination : Str
  amount : Str
  memoData : Str

structure SubmittedPayment where
  hash : Str
  engineResult : Str
  validated : Bool
  ledgerIndex : Option Int := none
  deriving DecidableEq

/-- The transaction `submitPayment` signs. -/
structure Payment where
  Account : Str
  Destination : Str
  Amount : Str
  MemoData : Str
  Fee : Str
  Sequence : Int
  LastLedgerSequence : Int
  SigningPubKey : Str

structure Signed where
  tx_blob : Str
  hash : Str

/-- `Wallet`. -/
structure Wallet where
  publicKey : Str
  sign : Payment → Except JsError Signed

/-- `account_data` of `account_info`. -/
structure AccountData where
  Sequence : Int
  Balance : Str

/-- The result of `submit`: its `engine_result`, when it is a string. -/
structure SubmitResult where
  engine_result : Option Str

/-- The result of `tx`. -/
structure TxResult where
  validated : Bool
  TransactionResult : Option Str
  ledger_index : Option Int

/-! ## 2. The operations -/

inductive Op
  | accountInfo (account : Str)
  | ledgerCurrent
  | submit (tx_blob : Str)
  | tx (transaction : Str)
  | sleep (ms : Nat)

def Res : Op → Type
  | .accountInfo _ => XrplReply (Option AccountData)
  | .ledgerCurrent => XrplReply Int
  | .submit _ => XrplReply SubmitResult
  | .tx _ => XrplReply TxResult
  | .sleep _ => Unit

abbrev sig : Async.Sig := ⟨Op, Res, Unit, JsError⟩

abbrev Prog (α : Type) := Async.Prog sig α

/-- How a request ends: it is rejected (a timeout, a lost connection, a body that is no JSON), or
there is a reply. -/
inductive Choice
  | fail (e : JsError)
  | accountInfo (r : XrplReply (Option AccountData))
  | ledger (r : XrplReply Int)
  | submitted (r : XrplReply SubmitResult)
  | found (r : XrplReply TxResult)
  | woken

def reply : (op : Op) → Choice → Option (Except JsError (Res op))
  | .sleep _, .fail _ => none
  | _, .fail e => some (.error e)
  | .accountInfo _, .accountInfo r => some (.ok r)
  | .ledgerCurrent, .ledger r => some (.ok r)
  | .submit _, .submitted r => some (.ok r)
  | .tx _, .found r => some (.ok r)
  | .sleep _, .woken => some (.ok ())
  | _, _ => none

/-- Nothing of the server is remembered. -/
abbrev world : Async.World sig := ⟨Unit, Choice, fun op c w => (reply op c).map (·, w), fun _ _ => none⟩

/-! ## 3. `XrplHttpClient` -/

/-- What `accountInfo` returns. -/
structure AccountInfo where
  sequence : Int
  balanceDrops : Str

def accountInfo (address : Str) : Prog AccountInfo := do
  let body ← Prog.call (S := sig) (.accountInfo address)
  let r ← Prog.lift (S := sig) (XrplHttpClient.readResult "account_info".toList body)
  match r with
  | some account_data => return ⟨account_data.Sequence, account_data.Balance⟩
  | none => Prog.lift (S := sig) (raise "Cannot read properties of undefined".toList)

def currentLedger : Prog Int := do
  let body ← Prog.call (S := sig) .ledgerCurrent
  Prog.lift (S := sig) (XrplHttpClient.readResult "ledger_current".toList body)

/-- `"tes"` and `"ter"`: the transaction is in, or may still get in. -/
def pending (engine_result : Str) : Bool :=
  "tes".toList.isPrefixOf engine_result || "ter".toList.isPrefixOf engine_result

/-- One lookup: the payment to return, when the ledger has validated it. -/
def lookUp (hash engine_result : Str) : Prog (Option SubmittedPayment) := do
  let body ← Prog.call (S := sig) (.tx hash)
  let r ← Prog.lift (S := sig) (XrplHttpClient.readResult "tx".toList body)
  if r.validated = true then
    return some
      { hash, engineResult := r.TransactionResult.getD engine_result, validated := true,
        ledgerIndex := r.ledger_index }
  else return none

/-- The loop, with so many polls to go. -/
def pollLoop (hash engine_result : Str) (pollMs : Nat) : Nat → Prog SubmittedPayment
  | 0 => return { hash, engineResult := engine_result, validated := false }
  | maxPolls + 1 => do
    Prog.call (S := sig) (.sleep pollMs)
    match ← (lookUp hash engine_result).tryCatch fun _ => return none with
    | some payment => return payment
    | none => pollLoop hash engine_result pollMs maxPolls

/-- What follows the signature. -/
def submitSigned (signed : Signed) (pollMs maxPolls : Nat) : Prog SubmittedPayment := do
  let body ← Prog.call (S := sig) (.submit signed.tx_blob)
  let submitted ← Prog.lift (S := sig) (XrplHttpClient.readResult "submit".toList body)
  match submitted.engine_result with
  | none => Prog.lift (S := sig) (raise "Cannot read properties of undefined".toList)
  | some engine_result =>
    if pending engine_result = false then
      return { hash := signed.hash, engineResult := engine_result, validated := false }
    else pollLoop signed.hash engine_result pollMs maxPolls

/-- The payment of an input. -/
def paymentOf (input : XrplPaymentInput) (wallet : Wallet) (sequence currentLedger : Int) :
    Payment where
  Account := input.account
  Destination := input.destination
  Amount := input.amount
  MemoData := input.memoData
  Fee := "12".toList
  Sequence := sequence
  LastLedgerSequence := currentLedger + 20
  SigningPubKey := wallet.publicKey

/-- A promise that is awaited together with others: its rejection waits. -/
def settled {α : Type} (p : Prog α) : Prog (Except JsError α) :=
  (do
    let a ← p
    return Except.ok a).tryCatch fun e => return Except.error e

/-- Sign locally, submit the blob, then poll until the ledger validates it. -/
def submitPayment (input : XrplPaymentInput) (wallet : Wallet) (pollMs : Nat := 3000)
    (maxPolls : Nat := 30) : Prog SubmittedPayment := do
  -- `Promise.all`: both calls are made
  let info ← settled (accountInfo input.account)
  let ledger ← settled currentLedger
  let ⟨sequence, _⟩ ← Prog.lift (S := sig) info
  let current ← Prog.lift (S := sig) ledger
  let signed ← Prog.lift (S := sig) (wallet.sign (paymentOf input wallet sequence current))
  submitSigned signed pollMs maxPolls

/-! ## 4. What a run tells of the payment -/

abbrev St := Async.St sig world

abbrev Exchange := Async.Exchange sig world Unit

/-- The triples of this module: nothing changes while a call waits. -/
abbrev Runs {α : Type} (p : Prog α) (Q : List Exchange → Except JsError α → St → Prop) (s : St) :
    Prop := Alone (W := world) (fun _ m => m) (fun _ => True) p Q s

/-- A lookup for the hash says that the payment is validated. -/
def Validates (hash : Str) (x : Exchange) : Prop :=
  x.op = .tx hash ∧ ∃ r, x.choice = .found (.result r) ∧ r.validated = true

/-- The blob is handed to the server. -/
def submits : Op → Bool
  | .submit _ => true
  | _ => false

/-- None of the calls hands over a blob. -/
def Silent (calls : List Exchange) : Prop := ∀ x ∈ calls, submits x.op = false

theorem Silent.nil : Silent [] := fun _ h => absurd h List.not_mem_nil

theorem Silent.singleton {x : Exchange} (h : submits x.op = false) : Silent [x] := by
  simpa [Silent] using h

theorem Silent.append {calls calls' : List Exchange} (h : Silent calls) (h' : Silent calls') :
    Silent (calls ++ calls') := by
  intro x hx
  rcases List.mem_append.mp hx with hx | hx
  · exact h x hx
  · exact h' x hx

/-- The caller gets the hash, and is told of a validation only if a lookup said so. -/
def Recoverable (hash : Str) (calls : List Exchange) (res : Except JsError SubmittedPayment) :
    Prop :=
  ∃ p, res = .ok p ∧ p.hash = hash ∧ (p.validated = true → ∃ x ∈ calls, Validates hash x)

/-- The server answers the submission with a result that names its outcome. -/
def Acknowledged (x : Exchange) : Prop :=
  ∃ r engine_result, x.choice = .submitted (.result r) ∧ r.engine_result = some engine_result

theorem Recoverable.after {hash : Str} {calls before : List Exchange}
    {res : Except JsError SubmittedPayment} (h : Recoverable hash calls res) :
    Recoverable hash (before ++ calls) res := by
  obtain ⟨p, hres, hhash, hvalid⟩ := h
  refine ⟨p, hres, hhash, fun hp => ?_⟩
  obtain ⟨x, hx, hx'⟩ := hvalid hp
  exact ⟨x, List.mem_append_right _ hx, hx'⟩

section Runs

variable {s : St}

theorem runs_call (op : Op) : Runs (Prog.call (S := sig) op) (fun calls res _ =>
    ∃ c, calls = [⟨op, s, c, ()⟩] ∧ reply op c = some res) s := by
  refine alone_call ?_
  intro c d r w _ hper
  obtain ⟨r', hr, heq⟩ := Option.map_eq_some_iff.mp hper
  exact ⟨c, rfl, hr.trans (congrArg some (Prod.mk.inj heq).1)⟩

/-- A reply that is read is the answer. -/
theorem answer_of_read {α : Type} {method : Str} {body : XrplReply α} {r : α}
    (h : XrplHttpClient.readResult method body = .ok r) : body = .result r := by
  cases body <;> cases h
  rfl

theorem runs_lookUp (hash engine_result : Str) :
    Runs (lookUp hash engine_result) (fun calls res _ => ∃ x, calls = [x] ∧ x.op = .tx hash ∧
      ∀ p, res = .ok (some p) → p.hash = hash ∧ Validates hash x) s := by
  unfold lookUp
  refine alone_seq (runs_call _) ?_ ?_
  · rintro calls body s₁ ⟨c, rfl, hreply⟩
    refine alone_lift_seq (fun r hr => ?_) fun e _ => ⟨_, rfl, rfl, by rintro p ⟨⟩⟩
    obtain rfl := answer_of_read hr
    have hc : c = .found (.result r) := by
      cases c <;> cases hreply
      rfl
    split
    case isTrue hvalid =>
      refine alone_pure ⟨_, rfl, rfl, ?_⟩
      rintro p ⟨⟩
      exact ⟨rfl, rfl, r, hc, hvalid⟩
    case isFalse => exact alone_pure ⟨_, rfl, rfl, by rintro p ⟨⟩⟩
  · rintro calls e s₁ ⟨c, rfl, -⟩
    exact ⟨_, rfl, rfl, by rintro p ⟨⟩⟩

/-- One turn of the loop: what the lookup throws is swallowed. -/
theorem runs_attempt (hash engine_result : Str) :
    Runs ((lookUp hash engine_result).tryCatch fun _ => return none) (fun calls res _ =>
      ∃ x, calls = [x] ∧ x.op = .tx hash ∧ ∃ found, res = .ok found ∧
        ∀ p, found = some p → p.hash = hash ∧ Validates hash x) s := by
  refine alone_tryCatch (runs_lookUp hash engine_result) ?_ ?_
  · rintro calls found s₁ ⟨x, rfl, hop, hfound⟩
    refine ⟨x, rfl, hop, found, rfl, ?_⟩
    rintro p rfl
    exact hfound p rfl
  · rintro calls e s₁ ⟨x, rfl, hop, -⟩
    exact alone_pure ⟨x, rfl, hop, none, rfl, by rintro p ⟨⟩⟩

/-- **The poll loop returns the hash**, however its lookups are answered, and says `validated`
only if one of them did; it submits nothing. -/
theorem runs_pollLoop (hash engine_result : Str) (pollMs maxPolls : Nat) :
    Runs (pollLoop hash engine_result pollMs maxPolls) (fun calls res _ =>
      Silent calls ∧ Recoverable hash calls res) s := by
  induction maxPolls generalizing s with
  | zero =>
    refine alone_pure ⟨.nil, _, rfl, rfl, ?_⟩
    rintro ⟨⟩
  | succ maxPolls ih =>
    unfold pollLoop
    refine alone_seq (runs_call _) ?_ ?_
    case refine_2 =>
      rintro calls e s₁ ⟨c, -, hreply⟩
      cases c <;> cases hreply
    rintro calls _ s₁ ⟨c, rfl, -⟩
    refine alone_seq (runs_attempt hash engine_result) ?_ ?_
    case refine_2 =>
      rintro calls e s₂ ⟨x, -, -, found, hres, -⟩
      cases hres
    rintro calls found s₂ ⟨x, rfl, hop, found', hres, hfound⟩
    obtain rfl := Except.ok.inj hres
    have hsleep : Silent [⟨.sleep pollMs, s, c, ()⟩] := .singleton rfl
    have hlook : Silent [x] := .singleton (by rw [hop]; rfl)
    cases found with
    | some p =>
      obtain ⟨hhash, hvalid⟩ := hfound p rfl
      exact alone_pure ⟨hsleep.append (hlook.append .nil), p, rfl, hhash, fun _ =>
        ⟨x, by simp, hvalid⟩⟩
    | none =>
      refine alone_mono ih ?_
      rintro calls' res s₃ ⟨hsubmits, hrec⟩
      exact ⟨hsleep.append (hlook.append hsubmits), hrec.after.after⟩

/-- **From the signature on**: the blob is handed over once; when the server acknowledges it the
hash comes back, and otherwise nothing does. -/
theorem runs_submitSigned (signed : Signed) (pollMs maxPolls : Nat) :
    Runs (submitSigned signed pollMs maxPolls) (fun calls res _ => ∃ x rest, calls = x :: rest ∧
      x.op = .submit signed.tx_blob ∧ Silent rest ∧
        (Acknowledged x → Recoverable signed.hash calls res) ∧
        ∀ p, res = .ok p → Acknowledged x) s := by
  unfold submitSigned
  refine alone_seq (runs_call _) ?_ ?_
  · rintro calls body s₁ ⟨c, rfl, hreply⟩
    have hc : c = .submitted body := by
      cases c <;> cases hreply
      rfl
    subst hc
    refine alone_lift_seq (fun r hr => ?_) fun e he => ?_
    · obtain rfl := answer_of_read hr
      cases hresult : r.engine_result with
      | none =>
        refine alone_lift ⟨_, [], rfl, rfl, .nil, ?_, by rintro p ⟨⟩⟩
        rintro ⟨r', engine_result, ⟨⟩, hsome⟩
        rw [hresult] at hsome
        cases hsome
      | some engine_result =>
        have hack : Acknowledged ⟨.submit signed.tx_blob, s, .submitted (.result r), ()⟩ :=
          ⟨r, engine_result, rfl, hresult⟩
        dsimp only
        split
        case isTrue =>
          refine alone_pure ⟨_, [], rfl, rfl, .nil, fun _ => ?_, fun _ _ => hack⟩
          exact ⟨_, rfl, rfl, by rintro ⟨⟩⟩
        case isFalse =>
          refine alone_mono (runs_pollLoop signed.hash engine_result pollMs maxPolls) ?_
          rintro calls' res s₂ ⟨hsilent, hrec⟩
          exact ⟨_, calls', rfl, rfl, hsilent, fun _ => hrec.after, fun _ _ => hack⟩
    · refine ⟨_, [], rfl, rfl, .nil, ?_, by rintro p ⟨⟩⟩
      rintro ⟨r', engine_result, heq, -⟩
      obtain rfl := Choice.submitted.inj heq
      cases he
  · rintro calls e s₁ ⟨c, rfl, hreply⟩
    refine ⟨_, [], rfl, rfl, .nil, ?_, by rintro p ⟨⟩⟩
    rintro ⟨r', engine_result, rfl, -⟩
    cases hreply

/-! ## 5. Before the signature -/

theorem runs_settled {α : Type} {p : Prog α}
    (hp : ∀ s, Runs p (fun calls _ _ => Silent calls) s) :
    Runs (settled p) (fun calls res _ => Silent calls ∧ ∃ r, res = .ok r) s := by
  unfold settled
  refine alone_tryCatch (R := fun calls _ _ => Silent calls) (alone_seq (hp s) ?_ ?_) ?_ ?_
  · intro calls a s₁ h
    exact alone_pure (h.append .nil)
  · exact fun calls e s₁ h => h
  · exact fun calls a s₁ h => ⟨h, a, rfl⟩
  · intro calls e s₁ h
    exact alone_pure ⟨h.append .nil, _, rfl⟩

theorem runs_accountInfo (address : Str) : Runs (accountInfo address)
    (fun calls _ _ => Silent calls) s := by
  unfold accountInfo
  refine alone_seq (runs_call _) ?_ ?_
  · rintro calls body s₁ ⟨c, rfl, -⟩
    refine alone_lift_seq (fun r _ => ?_) fun e _ => .singleton rfl
    cases r with
    | none => exact alone_lift (.singleton rfl)
    | some account_data => exact alone_pure (.singleton rfl)
  · rintro calls e s₁ ⟨c, rfl, -⟩
    exact .singleton rfl

theorem runs_currentLedger : Runs currentLedger (fun calls _ _ => Silent calls) s := by
  unfold currentLedger
  refine alone_seq (runs_call _) ?_ ?_
  · rintro calls body s₁ ⟨c, rfl, -⟩
    exact alone_lift (.singleton rfl)
  · rintro calls e s₁ ⟨c, rfl, -⟩
    exact .singleton rfl

/-- What a run of `submitPayment` has done: nothing but reads, or one submission of the payment it
signed, which decides whether the hash comes back. -/
inductive Submitted (input : XrplPaymentInput) (wallet : Wallet) (calls : List Exchange)
    (res : Except JsError SubmittedPayment) : Prop
  | unsigned : Silent calls → Submitted input wallet calls res
  | signed (before rest : List Exchange) (x : Exchange) (sequence current : Int)
      (signed : Signed) : calls = before ++ x :: rest → Silent before → Silent rest →
      wallet.sign (paymentOf input wallet sequence current) = .ok signed →
      x.op = .submit signed.tx_blob → (Recoverable signed.hash calls res ↔ Acknowledged x) →
      Submitted input wallet calls res

theorem runs_submitPayment (input : XrplPaymentInput) (wallet : Wallet) (pollMs maxPolls : Nat) :
    Runs (submitPayment input wallet pollMs maxPolls) (fun calls res _ =>
      Submitted input wallet calls res) s := by
  unfold submitPayment
  refine alone_seq (runs_settled fun _ => runs_accountInfo _) ?_ ?_
  case refine_2 =>
    rintro calls e s₁ ⟨hsilent, -⟩
    exact .unsigned hsilent
  rintro calls info s₁ ⟨hinfo, -⟩
  refine alone_seq (runs_settled fun _ => runs_currentLedger) ?_ ?_
  case refine_2 =>
    rintro calls' e s₂ ⟨hsilent, -⟩
    exact .unsigned (hinfo.append hsilent)
  rintro calls' ledger s₂ ⟨hledger, -⟩
  have hreads : Silent (calls ++ (calls' ++ [])) := hinfo.append (hledger.append .nil)
  refine alone_lift_seq (fun account _ => ?_) fun e _ => .unsigned hreads
  refine alone_lift_seq (fun current _ => ?_) fun e _ => .unsigned hreads
  refine alone_lift_seq (fun signed hsign => ?_) fun e _ => .unsigned hreads
  refine alone_mono (runs_submitSigned signed pollMs maxPolls) ?_
  rintro calls'' res s₃ ⟨x, rest, rfl, hop, hrest, hack, hok⟩
  have hiff : Recoverable signed.hash (calls ++ (calls' ++ x :: rest)) res ↔ Acknowledged x := by
    constructor
    · rintro ⟨p, hres, -⟩
      exact hok p hres
    · exact fun h => (hack h).after.after
  refine .signed (calls ++ calls') rest x _ _ signed ?_ (hinfo.append hledger) hrest hsign hop hiff
  rw [List.append_assoc]

end Runs

end Submit

open Submit

namespace SampleSubmit

def input : XrplPaymentInput := ⟨"rUser".toList, "rVault".toList, "1000000".toList, "FE00".toList⟩

def signed : Signed := ⟨"1200".toList, "ABCD".toList⟩

def wallet : Wallet := ⟨"02ED".toList, fun _ => .ok signed⟩

/-- The account and the ledger are read. -/
def reads : List (Submit.Choice × Unit) :=
  [(.accountInfo (.result (some ⟨7, "20000000".toList⟩)), ()), (.ledger (.result 100), ())]

/-- The server takes the payment, and the first lookup finds it validated. -/
def validated : List (Submit.Choice × Unit) :=
  reads ++ [(.submitted (.result ⟨some "tesSUCCESS".toList⟩), ()), (.woken, ()),
    (.found (.result ⟨true, some "tesSUCCESS".toList, some 101⟩), ())]

/-- The response to the submission is lost. -/
def lost : List (Submit.Choice × Unit) :=
  reads ++ [(.fail (.error "The operation was aborted due to timeout".toList), ())]

def run (answers : List (Submit.Choice × Unit)) :
    Option (Async.Outcome Submit.sig Submit.world Unit SubmittedPayment) :=
  exec (fun _ m => m) (submitPayment input wallet) answers ⟨(), ()⟩

end SampleSubmit

/-- **When a submitted payment is recoverable by its hash**: once the blob has been handed to the
server, the caller gets the hash, with `validated` only where a lookup said so, exactly when the
server answers the submission with a result that has an `engine_result`. -/
theorem submitted_payment_recoverable_iff {input : XrplPaymentInput} {wallet : Wallet}
    {pollMs maxPolls : Nat} {answers : List (Submit.Choice × Unit)} {s : Submit.St}
    {out : Async.Outcome Submit.sig Submit.world Unit SubmittedPayment} {x : Submit.Exchange}
    (hexec : exec (fun _ m => m) (submitPayment input wallet pollMs maxPolls) answers s = some out)
    (hx : x ∈ out.calls) (hop : submits x.op = true) :
    ∃ sequence current signed,
      wallet.sign (paymentOf input wallet sequence current) = .ok signed ∧
      x.op = .submit signed.tx_blob ∧
      (Recoverable signed.hash out.calls out.res ↔ Acknowledged x) := by
  cases runs_submitPayment input wallet pollMs maxPolls _ _ hexec fun _ _ => trivial with
  | unsigned hsilent =>
    rw [hsilent x hx] at hop
    cases hop
  | signed before rest y sequence current signed hcalls hbefore hrest hsign hy hiff =>
    rw [hcalls] at hx
    have hxy : x = y := by
      rcases List.mem_append.mp hx with hx | hx
      · rw [hbefore x hx] at hop
        cases hop
      · rcases List.mem_cons.mp hx with rfl | hx
        · rfl
        · rw [hrest x hx] at hop
          cases hop
    subst hxy
    exact ⟨sequence, current, signed, hsign, hy, hiff⟩

open SampleSubmit in
/-- A payment that goes through comes back with its hash. -/
theorem submitted_payment_recoverable_validated : ∃ out, run validated = some out ∧
    Recoverable signed.hash out.calls out.res := by
  obtain ⟨out, hexec⟩ : ∃ out, run validated = some out := ⟨_, rfl⟩
  obtain ⟨x, hx, hop, hack⟩ : ∃ x ∈ out.calls, submits x.op = true ∧ Acknowledged x := by
    cases hexec
    exact ⟨_, .tail _ (.tail _ (.head _)), rfl, _, _, rfl, rfl⟩
  obtain ⟨_, _, signed', hsign, -, hiff⟩ := submitted_payment_recoverable_iff hexec hx hop
  obtain rfl := Except.ok.inj hsign
  exact ⟨out, hexec, hiff.mpr hack⟩

open SampleSubmit in
/-- **The response to the submission is lost**: the blob has been handed over, and the caller gets
an error without the hash. -/
theorem lost_response_loses_hash : ∃ out, run lost = some out ∧
    (∃ x ∈ out.calls, x.op = .submit signed.tx_blob) ∧
    ¬ Recoverable signed.hash out.calls out.res := by
  refine ⟨_, rfl, ⟨_, .tail _ (.tail _ (.head _)), rfl⟩, ?_⟩
  rintro ⟨p, hres, -⟩
  cases hres

end OneSig.Executor
