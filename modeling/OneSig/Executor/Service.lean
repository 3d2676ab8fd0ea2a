/-
# `packages/executor/src/service.ts`

The process: the two registration endpoints, `start`, and the tick of the timer.

`handleRegister` checks which fields are there and hands them to the store; `handlePrepare` does
the same with what the injected `prepare` returns.  Every error becomes a response with its status
and message.  Building the rest of the response of `/prepare` touches nothing and is left out.

A tick polls and creates jobs inside one `try`, whose error is logged and dropped, and then walks
the live map and advances each job one step.  The walk is the loop of a `for … of` over a `Map`,
so it goes by place and sees what is added behind it; each iteration is a label of its own, which
also lets a state show whose step is in flight.  A job in a terminal state is dropped from the
map.  A job that throws is logged and stays.

`start` reads the current ledger, sets the cursor and runs a tick.  Nothing keeps a tick from
starting while an earlier one is suspended, since the timer does not ask, nor a registration from
running beside both: `machine` is the process with all its interleavings, and the clock and the
ledger go on from outside.

A crash forgets the memory and keeps the files and the chain.  The process that is constructed
next begins with an empty map and an empty cache of operations; it does not list the directory of
jobs.

The labels are what results about this process split on: a request, `start`, the first half of a
tick, the walk at a place, and a step of a job.
-/
import OneSig.Executor.Pipeline
import OneSig.Executor.Watcher

namespace OneSig.Executor

open OneSig Async

/-! ## 1. Registration over HTTP -/

/-- The status and the body of an HTTP response. -/
structure Response where
  code : Nat
  body : Json

/-- `v ?? fallback`. -/
def orElse (v : Option Json) (fallback : Str) : Json :=
  match v with
  | none => .str fallback
  | some .null => .str fallback
  | some j => j

/-- `!v` is false. -/
def present (v : Option Json) : Bool := v.elim false Json.truthy

/-- `{ error: message }`. -/
def errorBody (message : Str) : Json := Json.obj [("error".toList, .str message)]

namespace ExecutorService

/-- What `/register` passes to the store, unless a required field is missing. -/
def registerEntry (body : Json) : Option Entry :=
  let field := fun name : String => Json.member name.toList (some body)
  match field "userOpData", field "personalAccount" with
  | some userOpData, some personalAccount =>
    if userOpData.truthy = false ∨ personalAccount.truthy = false then none
    else some {
      userOpData, personalAccount
      nonce := orElse (field "nonce") "0".toList
      totalCallValue := orElse (field "totalCallValue") "0".toList
      label := orElse (field "label") "(unlabelled)".toList
      commitment := (field "commitment").filter Json.truthy }
  | _, _ => none

/-- `POST /register`. -/
def handleRegister (o : Options) (body : Json) : Prog Response := do
  if let .null := body then
    Prog.lift (S := sig) (raise "Cannot read properties of null".toList)
  else match registerEntry body with
    | none => return ⟨400, errorBody "userOpData and personalAccount are required".toList⟩
    | some entry =>
      let commitment ← PendingStore.register o entry
      -- the log line prints the label
      let _ ← Prog.lift (S := sig) entry.label.text
      return ⟨200, Json.obj [("commitment".toList, .str commitment)]⟩

/-- What `/prepare` passes to the store. -/
def preparedEntry (prepared : PreparedForWeb) : Entry where
  userOpData := .str prepared.userOpData
  commitment := some (.str prepared.userOpHash)
  personalAccount := .str prepared.personalAccount
  nonce := .str prepared.nonce
  totalCallValue := .str prepared.totalCallValue
  label := .str prepared.label

/-- `POST /prepare`, up to the registration: what follows only builds the response. -/
def handlePrepare (o : Options) (body : Json) : Prog Response := do
  if let .null := body then
    Prog.lift (S := sig) (raise "Cannot read properties of null".toList)
  else match (Json.member "xrplAddress".toList (some body)).filter Json.truthy with
    | none => return ⟨400, errorBody "xrplAddress is required".toList⟩
    | some xrplAddress =>
      let prepared : PreparedForWeb ← Prog.call (S := sig) (.prepare xrplAddress)
      let commitment ← PendingStore.register o (preparedEntry prepared)
      return ⟨200, Json.obj [("userOpHash".toList, .str commitment)]⟩

/-! ## 2. `start` and `#tick` -/

def startTimer (m : Memory) : Memory := { m with timer := true }

/-- `start`, from the server's first listening on. -/
def start : Prog Unit := do
  let startLedger ← XrplHttpClient.currentLedger
  Prog.modify (Watcher.setStartLedger startLedger)
  Prog.modify (S := sig) startTimer

/-- `this.#live.set(id, job)`. -/
def setLive (id : Str) (r : Ref) (m : Memory) : Memory := { m with live := m.live.set id r }

/-- `this.#live.delete(id)`. -/
def deleteLive (id : Str) (m : Memory) : Memory := { m with live := m.live.delete id }

/-- One iteration of the creation loop. -/
def createOne (observed : ObservedPayment) : Prog Unit := do
  if ← Prog.gets (S := sig) fun m => m.live.has observed.xrplTxId then
    return ()
  else match ← PendingStore.get observed.commitment with
    | none => return ()
    | some pending =>
      let totalCallValue ← Prog.lift (S := sig) (bigInt pending.totalCallValue)
      let nonce ← Prog.lift (S := sig) (bigInt pending.nonce)
      let job ← ExecutorPipeline.create {
        xrplTxId := observed.xrplTxId
        userOpData := pending.userOpData
        totalCallValue, nonce
        personalAccount := pending.personalAccount }
      Prog.modify (S := sig) (setLive observed.xrplTxId job)
      -- the log line prints the label
      let _ ← Prog.lift (S := sig) pending.label.text
      return ()

/-- The creation loop. -/
def createLoop : List ObservedPayment → Prog Unit
  | [] => return ()
  | observed :: rest => do
    createOne observed
    createLoop rest

/-- The first half of a tick; an error is logged and dropped. -/
def createJobs (o : Options) : Prog Unit :=
  (do
    let payments ← Watcher.poll o
    createLoop payments).tryCatch fun _ => return ()

/-- A terminal state. -/
def isTerminal : JobState → Bool
  | .executed => true
  | .failed => true
  | _ => false

/-- One iteration of the walk: step the job and drop it from the live map when it is done. -/
def advanceOne (o : Options) (id : Str) (job : Ref) : Prog Unit :=
  (do
    ExecutorPipeline.step o job
    Prog.modify (S := sig) (setLive id job)
    let next ← deref job
    if isTerminal next.state = true then
      Prog.modify (S := sig) (deleteLive id)
    else return ()).tryCatch fun _ => return ()

/-! ## 3. The process -/

inductive Label
  | register (body : Json)
  | prepare (body : Json)
  | start
  | tick
  /-- The walk over the live map has come to a place. -/
  | advance (place : Nat)
  /-- The walk steps the job it found there. -/
  | stepping (place : Nat) (id : Str) (job : Ref)
  /-- `Watcher.poll` called on its own. -/
  | poll
  /-- `ExecutorPipeline.load` and `ExecutorPipeline.step` called on their own. -/
  | load (id : Str)
  | step (job : Ref)

/-- Where the walk goes from a place. -/
def walk (place : Nat) (live : JsMap Str Ref) : Option Label :=
  match live.entries[place]? with
  | none => none
  | some none => some (.advance (place + 1))
  | some (some (id, job)) => some (.stepping place id job)

def code (o : Options) : Label → Prog (Option Label)
  | .register body => do
    let _ ← handleRegister o body
    return none
  | .prepare body => do
    let _ ← handlePrepare o body
    return none
  | .start => do
    start
    return none
  | .tick => do
    createJobs o
    return some (.advance 0)
  | .advance place => do
    let live ← Prog.gets (S := sig) Memory.live
    return walk place live
  | .stepping place id job => do
    advanceOne o id job
    return some (.advance (place + 1))
  | .poll => do
    let _ ← Watcher.poll o
    return none
  | .load id => do
    let _ ← ExecutorPipeline.load id
    return none
  | .step job => do
    ExecutorPipeline.step o job
    return none

/-- What changes without the process: the clock, and the ledger, which grows. -/
inductive Ext
  | clock (now : Int)
  | validated (entry : AccountTxEntry)

def outside (x : Ext) (m : Memory) (w : Outside) : Memory × Outside :=
  match x with
  | .clock now => ({ m with now := now }, w)
  | .validated entry => (m, { w with history := w.history ++ [entry] })

/-- The executor process. -/
def machine (o : Options) : Async.Machine sig world where
  Label := Label
  code := code o
  boot := fun m => Memory.boot m.now
  Ext := Ext
  outside := outside

/-- The process at a moment. -/
abbrev Sys (o : Options) := Async.Sys (machine o)

/-- What can happen next. -/
abbrev Event (o : Options) := Async.Event (machine o)

end ExecutorService

end OneSig.Executor
