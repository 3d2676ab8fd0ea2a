/-
# The enclave

The memory of `handlers.ts`, its four commands and its tick.  A handler runs to its end without an
`await`, so it is a function from a message and a memory to a memory and a reply; `tick` awaits a
check for every intent it finds armed, so it is a program of the event loop, and a loop over a map
that others change: it walks by place (`JsMap`) and holds the object it found there, not the key.

Intents are objects: the map holds references into a heap, because a tick that is suspended can
still write an object that the map no longer holds.  Storing an intent under a commitment that has
one already makes a new object and leaves the old one to whoever refers to it.

* `arm`, `handleStatus`, `handleCancel` and `handleCollect` are the handlers behind the reading of
  their messages, with the replies of the source.  The log line of ARM comes after the intent is
  stored and can throw.
* `evaluate` is the body of the loop at the intent it reads: an expired one is dropped, an armed
  one is checked, and `settle` is what follows the check.
* `reportState` is `GET /state`, with its counts.
* `machine` is the process: labels are ticks at their places, and a command, a read of the state
  and the passing of time come from outside.  A restart forgets everything.

A check resolves to whether the intent fires, or rejects; every answer is possible.  What clients
and the check have seen, newest first, is the outside world of the model: it is what results about
runs are stated with, and no handler reads it.
-/
import OneSig.Lib.Async.System
import OneSig.Lib.JsMap
import OneSig.Latch.Requests

namespace OneSig.Latch

open Async

/-! ## 1. The memory -/

inductive IntentState
  | armed
  | fired
  | collected
  | cancelled
  | expired
  deriving DecidableEq, Repr

def IntentState.text : IntentState → Str
  | .armed => "armed".toList
  | .fired => "fired".toList
  | .collected => "collected".toList
  | .cancelled => "cancelled".toList
  | .expired => "expired".toList

structure Intent where
  commitment : Hex
  userOpData : Str
  trigger : Trigger
  deadline : ℚ
  state : IntentState
  armedAt : ℚ
  firedAt : Option ℚ
  deriving DecidableEq, Repr

/-- A reference to an intent object. -/
abbrev Ref := Nat

structure Memory where
  intents : JsMap Str Ref
  heap : List Intent
  armedTotal : Nat
  firedTotal : Nat
  /-- `Date.now()`. -/
  now : ℚ

namespace Memory

/-- The module as it is loaded. -/
def boot (now : ℚ) : Memory := ⟨.empty, [], 0, 0, now⟩

/-- `intents.get(commitment)`. -/
def lookup (m : Memory) (commitment : Str) : Option (Ref × Intent) :=
  (m.intents.get? commitment).bind fun r => (m.heap[r]?).map fun intent => (r, intent)

/-- The intent of a commitment is armed. -/
def isArmed (m : Memory) (commitment : Str) : Bool :=
  (m.lookup commitment).any fun p => p.2.state = .armed

/-- Write an intent object. -/
def update (m : Memory) (r : Ref) (f : Intent → Intent) : Memory :=
  { m with heap := m.heap.modify r f }

/-- `intents.set(commitment, { … })` with a new object. -/
def create (m : Memory) (req : ArmRequest) : Memory :=
  { m with
    intents := m.intents.set req.commitment m.heap.length
    heap := m.heap ++ [{
      commitment := req.commitment
      userOpData := req.userOpData
      trigger := req.trigger
      deadline := req.deadline
      state := .armed
      armedAt := m.now
      firedAt := none }]
    armedTotal := m.armedTotal + 1 }

end Memory

/-- Cancelled and expired intents lose their bytes. -/
def Intent.drop (state : IntentState) (intent : Intent) : Intent :=
  { intent with state := state, userOpData := hexPrefix }

def Intent.fire (now : ℚ) (intent : Intent) : Intent :=
  { intent with state := .fired, firedAt := some now }

def Intent.collect (intent : Intent) : Intent := { intent with state := .collected }

/-! ## 2. The commands -/

/-- The payload of a reply. -/
inductive Payload
  | armed (commitment : Hex) (alreadyArmed : Bool)
  | unknown
  | status (state : IntentState) (armedAt deadline : ℚ) (firedAt : Option ℚ)
  | cancelled (commitment : Str)
  | released (userOpData : Str) (firedAt : Option ℚ)
  deriving DecidableEq, Repr

/-- `ok(payload)` or `fail(message)`. -/
abbrev HandlerResult := Except Str Payload

/-- What comes of a message that is not accepted. -/
def Refusal.result : Refusal → Except JsError HandlerResult
  | .reject message => .ok (.error message)
  | .thrown e => .error e

def ok (payload : Payload) : Except JsError HandlerResult := .ok (.ok payload)

def fail (message : Str) : Except JsError HandlerResult := .ok (.error message)

/-- `handleArm` from its first look at the clock.  The log line that describes the trigger comes
after the intent is stored, and can throw. -/
def arm (o : Options) (req : ArmRequest) (m : Memory) : Memory × Except JsError HandlerResult :=
  if req.deadline ≤ m.now then (m, fail "deadline is already in the past".toList)
  else if m.now + o.maxDeadlineMs < req.deadline then
    (m, fail ("deadline exceeds the maximum of ".toList ++
      o.engine.numbers.text o.maxDeadlineMs ++ " ms".toList))
  else if m.isArmed req.commitment then (m, ok (.armed req.commitment true))
  else
    (m.create req, (describeTrigger req.trigger).map fun _ => .ok (.armed req.commitment false))

def handleArm (o : Options) (msg : Str) (m : Memory) : Memory × Except JsError HandlerResult :=
  match parseArm o msg with
  | .error refusal => (m, refusal.result)
  | .ok req => arm o req m

/-- A commitment is looked up in lower case first. -/
def handleStatus (o : Options) (msg : Str) (m : Memory) : Memory × Except JsError HandlerResult :=
  match namedCommitment o.engine msg with
  | .error refusal => (m, refusal.result)
  | .ok commitment =>
    match (m.lookup (toLowerCase commitment)).or (m.lookup commitment) with
    | none => (m, ok .unknown)
    | some (_, intent) =>
      (m, ok (.status intent.state intent.armedAt intent.deadline
        (intent.firedAt.filter fun t => t ≠ 0)))

def handleCancel (o : Options) (msg : Str) (m : Memory) : Memory × Except JsError HandlerResult :=
  match namedCommitment o.engine msg with
  | .error refusal => (m, refusal.result)
  | .ok commitment =>
    match m.lookup commitment with
    | none => (m, fail "no such intent".toList)
    | some (r, intent) =>
      if intent.state ≠ .armed then
        (m, fail ("intent is ".toList ++ intent.state.text ++ ", not armed".toList))
      else (m.update r (Intent.drop .cancelled), ok (.cancelled commitment))

def handleCollect (o : Options) (msg : Str) (m : Memory) : Memory × Except JsError HandlerResult :=
  match namedCommitment o.engine msg with
  | .error refusal => (m, refusal.result)
  | .ok commitment =>
    match m.lookup commitment with
    | none => (m, fail "no such intent".toList)
    | some (r, intent) =>
      match intent.state with
      | .armed => (m, fail "not fired yet — the trigger condition has not been met".toList)
      | .cancelled => (m, fail "intent was cancelled".toList)
      | .expired => (m, fail "intent expired without firing".toList)
      | _ => (m.update r Intent.collect, ok (.released intent.userOpData intent.firedAt))

inductive Command
  | arm
  | status
  | cancel
  | collect
  deriving DecidableEq, Repr

def handle (o : Options) : Command → Str → Memory → Memory × Except JsError HandlerResult
  | .arm => handleArm o
  | .status => handleStatus o
  | .cancel => handleCancel o
  | .collect => handleCollect o

/-- The intents the map holds, in order. -/
def Memory.values (m : Memory) : List Intent := m.intents.pairs.filterMap fun p => m.heap[p.2]?

/-- `GET /state`. -/
structure Report where
  armed : Nat
  awaitingCollection : Nat
  armedTotal : Nat
  firedTotal : Nat
  deriving DecidableEq, Repr

def reportState (m : Memory) : Report where
  armed := m.values.countP fun intent => intent.state = .armed
  awaitingCollection := m.values.countP fun intent => intent.state = .fired
  armedTotal := m.armedTotal
  firedTotal := m.firedTotal

/-! ## 3. The tick -/

/-- `check(trigger, now)` resolves to its `fired`. -/
inductive Op
  | check (trigger : Trigger) (now : ℚ)

def sig : Sig where
  Op := Op
  Res := fun _ => Bool
  Mem := Memory
  Err := JsError

/-- `await check(trigger, now)`. -/
def check (trigger : Trigger) (now : ℚ) : Prog sig Bool := Prog.call (S := sig) (.check trigger now)

/-- What is seen of the enclave from outside. -/
inductive Seen
  | reply (command : Command) (msg : Str) (result : Except JsError HandlerResult)
  | report (report : Report)
  | reading (trigger : Trigger) (now : ℚ) (fired : Bool)
  deriving DecidableEq, Repr

/-- The check answers, or rejects. -/
def world : World sig where
  State := List Seen
  Choice := Except JsError Bool
  perform := fun
    | .check trigger now, .ok fired, seen => some (.ok fired, .reading trigger now fired :: seen)
    | .check _ _, .error e, seen => some (.error e, seen)
  disturb := fun _ _ => none

/-- A tick at `now`: started, at the iterator's next place, or at the intent found there. -/
inductive Label
  | tick (now : ℚ)
  | next (place : Nat) (now : ℚ)
  | visit (r : Ref) (place : Nat) (now : ℚ)
  deriving DecidableEq, Repr

/-- The end of the loop's body, once the check has said whether the intent fires. -/
def settle (r : Ref) (now : ℚ) (trigger : Trigger) (fired : Bool) : Prog sig Unit :=
  if fired then do
    Prog.modify (S := sig) fun m =>
      { m.update r (Intent.fire now) with firedTotal := m.firedTotal + 1 }
    Prog.lift (describeTrigger trigger)
  else pure ()

/-- The body of the loop, at the intent it reads. -/
def evaluate (r : Ref) (now : ℚ) (intent : Intent) : Prog sig Unit :=
  if intent.state ≠ .armed then pure ()
  else if intent.deadline ≤ now then
    Prog.modify (S := sig) fun m => m.update r (Intent.drop .expired)
  else check intent.trigger now >>= settle r now intent.trigger

def tickOne (r : Ref) (now : ℚ) : Prog sig Unit := do
  match ← Prog.gets (S := sig) fun m => m.heap[r]? with
  | none => pure ()
  | some intent => evaluate r now intent

def code : Label → Prog sig (Option Label)
  | .tick now => pure (some (.next 0 now))
  | .next place now => do
    match ← Prog.gets (S := sig) fun m => m.intents.entries[place]? with
    | none => pure none
    | some none => pure (some (.next (place + 1) now))
    | some (some (_, r)) => pure (some (.visit r place now))
  | .visit r place now => do
    tickOne r now
    pure (some (.next (place + 1) now))

/-! ## 4. The process -/

/-- A command, a read of `GET /state`, or the passing of time. -/
inductive Ext
  | request (command : Command) (msg : Str)
  | state
  | clock (now : ℚ)
  deriving DecidableEq, Repr

def outside (o : Options) : Ext → Memory → List Seen → Memory × List Seen
  | .request command msg, m, seen =>
    ((handle o command msg m).1, .reply command msg (handle o command msg m).2 :: seen)
  | .state, m, seen => (m, .report (reportState m) :: seen)
  | .clock now, m, seen => ({ m with now := now }, seen)

/-- The enclave.  A restart forgets everything. -/
def machine (o : Options) : Machine sig world where
  Label := Label
  code := code
  boot := fun m => .boot m.now
  Ext := Ext
  outside := outside o

abbrev Sys (o : Options) := Async.Sys (machine o)

abbrev Event (o : Options) := Async.Event (machine o)

/-- The enclave as it starts. -/
def Sys.fresh (o : Options) (now : ℚ) : Sys o := ⟨Memory.boot now, ([] : List Seen), []⟩

/-- What was seen so far, newest first. -/
def Sys.seen {o : Options} (s : Sys o) : List Seen := s.world

namespace Event

variable {o : Options}

/-- A command arrives. -/
def request (command : Command) (msg : Str) : Event o := .outside (Ext.request command msg)

/-- Time passes. -/
def clock (now : ℚ) : Event o := .outside (Ext.clock now)

/-- A tick is started. -/
def tick (now : ℚ) : Event o := .spawn (Label.tick now)

/-- The check that task `i` awaits answers. -/
def answer (i : Nat) (fired : Bool) : Event o := .perform i (Except.ok fired)

end Event

end OneSig.Latch
