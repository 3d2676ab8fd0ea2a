/-
# `Server.serialize`: one execution at a time

`serialize` hangs every execution on the promise that the one before it left in `this.queue`, and
leaves there one of its own that never rejects.  Here the server runs on the promises of
`Lib/Promise.lean`, for handlers of any kind: an execution is called in a job, may return or throw
there or return a promise, and that promise settles whenever it likes.  Requests arrive at any
time, also from inside a handler.

`Serialized` is what that is for: executions never overlap and start in the order of the calls,
each caller's promise is settled with what comes of its own execution, and every request is
executed and answered.  `Inv` is why: one execution is at the front, those before it are over and
their queues released, and those behind it wait, each on the queue before it.

What comes of an execution is not always its result: the line on the console prints the action's
id, behind the execution and outside any `try`, and an object without a primitive value rejects
the caller of a handler that has succeeded (`Printed`).
-/
import OneSig.Latch.Framework
import OneSig.Lib.Promise

namespace OneSig.Latch

open Promise

namespace Serialize

variable {H : Type}

/-! ## 1. Up to the queue -/

/-- What an execution returns: a handler's triple, or the state that `reportState` gives. -/
inductive Returned
  | triple (data : Option Str) (status : Nat) (err : Option Str)
  | value (j : Json)

/-- A request whose execution is queued. -/
inductive Call (H : Type)
  | action (handler : H) (data df : Json)
  | state

/-- How far a request comes before its turn. -/
inductive Entry (H : Type)
  | answered (a : Except JsError Answer)
  | queued (call : Call H)

/-- `handleRequest` up to the call of `serialize`. -/
def enter (engine : Engine) (framework : Framework H) (method path body : Str) : Entry H :=
  if cleanPath path = "/action".toList then
    if method = "POST".toList then
      match readAction engine body with
      | .error message => .answered (.ok ⟨400, .error message⟩)
      | .ok (data, df) =>
        match framework.lookup (nullish (fieldOf df "opType") [])
          (nullish (fieldOf df "opCommand") []) with
        | .error e => .answered (.error e)
        | .ok none => .answered (.ok ⟨501, .text "unsupported op type".toList⟩)
        | .ok (some handler) => .queued (.action handler data df)
    else .answered (.ok ⟨405, .text "method not allowed".toList⟩)
  else if cleanPath path = "/state".toList then
    if method = "GET".toList then .queued .state
    else .answered (.ok ⟨405, .text "method not allowed".toList⟩)
  else .answered (.ok ⟨404, .text "not found".toList⟩)

/-! ## 2. Behind the execution -/

inductive Response
  | result (r : ActionResult)
  | state (stateVersion : Hex) (state : Returned)

def log (status : Nat) (err : Option Str) : Str :=
  if status = 0 then
    match err with
    | some message =>
      "error: ".toList ++ (if message = [] then "unknown".toList else message)
    | none => "error: unknown".toList
  else if status = 1 then "ok".toList
  else "pending".toList

/-- The result that carries what the execution returned. -/
def Call.response : Call H → Returned → Response
  | .action _ data df, .triple out status err => .result {
      id := fieldOf data "id"
      submissionTag := fieldOf data "submissionTag"
      status
      log := log status err
      opType := fieldOf df "opType"
      opCommand := fieldOf df "opCommand"
      additionalResultStatus := hexPrefix
      version := VERSION.toList
      data := out.getD hexPrefix }
  | _, r => .state (stringToBytes32Hex VERSION) r

/-- A handler returns a triple. -/
def Call.fits : Call H → Returned → Bool
  | .action _ _ _, .value _ => false
  | _, _ => true

/-- The line on the console can be printed. -/
def Call.line : Call H → Except JsError Unit
  | .action _ data _ => (printId data).map fun _ => ()
  | .state => .ok ()

/-- What comes of a request once its execution is over. -/
def Call.answer (call : Call H) : Except JsError Returned → Except JsError Response
  | .error e => .error e
  | .ok r => call.line.map fun _ => call.response r

/-! ## 3. The handlers of LATCH -/

/-- **A request that is alone is what the server makes of it**: the queue around the handlers
neither adds to its answer nor takes from it. -/
theorem handleRequest_enter (o : Options) (method path body : Str) (m : Memory) :
    handleRequest o method path body m =
      match enter o.engine ⟨handlers⟩ method path body with
      | .answered a => (m, a)
      | .queued .state => processState m
      | .queued (.action command data df) =>
        let run := runHandler o command (nullish (fieldOf df "originalMessage") hexPrefix) m
        (run.1, do
          let result ← run.2
          let _ ← (Call.action command data df).line
          return ⟨200, .result (actionResult o data df result)⟩) := by
  unfold handleRequest enter
  split
  · split
    · unfold processAction
      cases readAction o.engine body with
      | error message => rfl
      | ok action =>
        obtain ⟨data, df⟩ := action
        dsimp only
        rw [Framework.lookupHandler_eq_lookup]
        rcases Framework.lookup _ _ _ with e | _ | command
        · rfl
        · rfl
        · dsimp only [Call.line]
          cases printId data <;> rfl
    · rfl
  · split
    · split <;> rfl
    · rfl

/-! ## 4. The promises -/

/-- `this.queue` as call `i` finds it, what `serialize` returns to it, what its handler returned,
and what `handleRequest` returns. -/
inductive Name
  | queue (i : Nat)
  | run (i : Nat)
  | handler (i : Nat)
  | request (i : Nat)
  deriving DecidableEq

/-- `fn`, `() => undefined`, and the rest of `processAction` or `processState`. -/
inductive Callback
  | fn (i : Nat)
  | discard (i : Nat)
  | resume (i : Nat)
  deriving DecidableEq

inductive Value
  | undefined
  | returned (r : Returned)
  | response (r : Response)

abbrev Outcome := Except JsError Returned

/-- The outcome of a promise that stands for an execution. -/
def ofOutcome (o : Outcome) : Except JsError Value := o.map .returned

/-- An execution starts, or has come to its end. -/
inductive Occurrence
  | started (i : Nat)
  | ended (i : Nat) (o : Outcome)

structure State (H : Type) where
  calls : List (Call H)
  heap : Heap Name Callback (Except JsError Value)
  /-- The execution that is in the part it runs without a break. -/
  running : Option Nat
  trace : List Occurrence

def State.initial : State H where
  calls := []
  heap := {
    settled := fun p => if p = .queue 0 then some (.ok .undefined) else none
    waiting := fun _ => []
    jobs := [] }
  running := none
  trace := []

/-- `serialize`, and the `await` of what it returns. -/
def State.serialize (s : State H) (call : Call H) : State H :=
  let i := s.calls.length
  { s with
    calls := s.calls ++ [call]
    heap := ((s.heap.subscribe (.queue i) (.call (.fn i))).subscribe (.run i)
      (.call (.discard i))).subscribe (.run i) (.call (.resume i)) }

/-- The rest of a request, with the outcome of its execution. -/
def Call.resume (call : Call H) : Except JsError Value → Except JsError Value
  | .ok (.returned r) => (call.answer (.ok r)).map .response
  | o => o

/-- A job is run. -/
def State.perform (s : State H) : Job Name Callback (Except JsError Value) → State H
  | .react (.call (.fn i)) _ => { s with running := some i, trace := s.trace ++ [.started i] }
  | .react (.call (.discard i)) _ =>
    { s with heap := s.heap.settle (.queue (i + 1)) (.ok .undefined) }
  | .react (.call (.resume i)) o =>
    match s.calls[i]? with
    | some call => { s with heap := s.heap.settle (.request i) (call.resume o) }
    | none => s
  | .react (.forward p) o => { s with heap := s.heap.settle p o }
  | .adopt inner outer => { s with heap := s.heap.subscribe inner (.forward outer) }

/-- How the unbroken part of an execution ends. -/
inductive Completion
  | now (o : Outcome)
  | promise

inductive Event
  | request (method path body : Str)
  | job
  | returns (c : Completion)
  | settles (i : Nat) (o : Outcome)

/-- What is returned is what the caller expects. -/
def State.fits (s : State H) (i : Nat) (o : Outcome) : Bool :=
  match o with
  | .ok r => (s.calls[i]?).any fun call => call.fits r
  | .error _ => true

/-- The execution has started and is not over. -/
def State.Active (s : State H) (i : Nat) : Prop :=
  .started i ∈ s.trace ∧ ∀ o, .ended i o ∉ s.trace

variable (engine : Engine) (framework : Framework H)

/-- One event. -/
inductive Step : State H → Event → State H → Prop
  | answered {s : State H} {method path body : Str} {a : Except JsError Answer}
      (h : enter engine framework method path body = .answered a) :
      Step s (.request method path body) s
  | queued {s : State H} {method path body : Str} {call : Call H}
      (h : enter engine framework method path body = .queued call) :
      Step s (.request method path body) (s.serialize call)
  | job {s : State H} {j : Job Name Callback (Except JsError Value)}
      {jobs : List (Job Name Callback (Except JsError Value))}
      (hidle : s.running = none) (h : s.heap.jobs = j :: jobs) :
      Step s .job (State.perform { s with heap := s.heap.withJobs jobs } j)
  | returnsNow {s : State H} {i : Nat} {o : Outcome} (hrunning : s.running = some i)
      (hactive : s.Active i) (hfits : s.fits i o = true) :
      Step s (.returns (.now o)) { s with
        heap := s.heap.settle (.run i) (ofOutcome o)
        running := none
        trace := s.trace ++ [.ended i o] }
  | returnsPromise {s : State H} {i : Nat} (hrunning : s.running = some i) :
      Step s (.returns .promise) { s with
        heap := s.heap.resolve (.handler i) (.run i)
        running := none }
  | settles {s : State H} {i : Nat} {o : Outcome} (hactive : s.Active i)
      (hfits : s.fits i o = true) :
      Step s (.settles i o) { s with
        heap := s.heap.settle (.handler i) (ofOutcome o)
        trace := s.trace ++ [.ended i o] }

/-- A run of events. -/
inductive Run : State H → List Event → State H → Prop
  | nil (s : State H) : Run s [] s
  | cons {s s' s'' : State H} {e : Event} {es : List Event} (h : Step engine framework s e s')
      (hrest : Run s' es s'') : Run s (e :: es) s''

/-- Something happens to a request that has been made. -/
def Event.isMove : Event → Bool
  | .request _ _ _ => false
  | _ => true

/-! ## 5. What serialization is -/

/-- Executions `0`, `1`, ..., each over before the next one starts. -/
def done (os : List Outcome) : List Occurrence :=
  (os.mapIdx fun i o => [.started i, .ended i o]).flatten

/-- What the caller is to receive. -/
def Call.received (call : Call H) : Outcome → Except JsError Value
  | .error e => .error e
  | .ok r => .ok (.response (call.response r))

/-- What a caller has received. -/
def State.received (s : State H) (i : Nat) : Option (Except JsError Value) :=
  s.heap.settled (.request i)

structure Serialized (s : State H) : Prop where
  /-- Executions do not overlap, and start in the order of the calls. -/
  inOrder : ∃ os, s.trace = done os ∨ s.trace = done os ++ [.started os.length]
  /-- No caller has an answer before its execution is over. -/
  executed : ∀ i x, s.received i = some x → ∃ o, .ended i o ∈ s.trace
  /-- Whatever happens next, a caller receives what comes of its own execution. -/
  own : ∀ i call o es s' x, s.calls[i]? = some call → .ended i o ∈ s.trace →
    Run engine framework s es s' → s'.received i = some x → x = call.received o
  /-- While a caller has no answer, an execution is unfinished or the server has a job to do. -/
  live : ∀ i < s.calls.length, s.received i = none →
    ∃ e s', e.isMove = true ∧ Step engine framework s e s'
  /-- However many requests come after it, a request is executed and answered after a bounded
  number of moves. -/
  bounded : ∀ i < s.calls.length, ∃ bound, ∀ es s', Run engine framework s es s' →
    bound < es.countP Event.isMove →
    (∃ o, .ended i o ∈ s'.trace) ∧ (s'.received i).isSome = true

/-- An action that is over prints its id, unless its execution rejected. -/
def Printed (s : State H) : Prop :=
  ∀ i call r, s.calls[i]? = some call → .ended i (.ok r) ∈ s.trace → call.line = .ok ()

/-! ## 6. Traces -/

theorem done_nil : done [] = [] := rfl

theorem done_concat (os : List Outcome) (o : Outcome) :
    done (os ++ [o]) = done os ++ [.started os.length, .ended os.length o] := by
  rw [done, List.mapIdx_concat, List.flatten_concat]
  rfl

theorem ended_mem_done {os : List Outcome} {i : Nat} {o : Outcome} :
    .ended i o ∈ done os ↔ os[i]? = some o := by
  simp only [done, List.mem_flatten, List.mem_mapIdx]
  constructor
  · rintro ⟨l, ⟨k, hk, rfl⟩, hmem⟩
    simp only [List.mem_cons, reduceCtorEq, Occurrence.ended.injEq, List.not_mem_nil, or_false,
      false_or] at hmem
    obtain ⟨rfl, rfl⟩ := hmem
    exact List.getElem?_eq_getElem hk
  · intro h
    obtain ⟨hi, rfl⟩ := List.getElem?_eq_some_iff.mp h
    exact ⟨_, ⟨i, hi, rfl⟩, List.mem_cons_of_mem _ (List.mem_singleton.mpr rfl)⟩

theorem started_mem_done {os : List Outcome} {i : Nat} :
    .started i ∈ done os ↔ i < os.length := by
  simp only [done, List.mem_flatten, List.mem_mapIdx]
  constructor
  · rintro ⟨l, ⟨k, hk, rfl⟩, hmem⟩
    simp only [List.mem_cons, reduceCtorEq, Occurrence.started.injEq, List.not_mem_nil,
      or_false] at hmem
    exact hmem ▸ hk
  · intro h
    exact ⟨_, ⟨i, h, rfl⟩, List.mem_cons_self⟩

/-! ## 7. The execution at the front -/

/-- How far the execution at the front has come. -/
inductive Phase
  /-- Nothing has happened of it, and the caller of the one before may still have to be answered.
  Its turn has come, or it is yet to be asked for. -/
  | between (last : Option Outcome) (released : Bool)
  /-- It runs; the promise that it is going to return may be settled. -/
  | running (o : Option Outcome)
  /-- It has returned a promise. -/
  | returned (o : Option Outcome)
  /-- The promise it has returned is pending. -/
  | following
  /-- The promise it has returned is settled. -/
  | landing (o : Outcome)
  /-- What `serialize` has returned is settled. -/
  | closing (o : Outcome)

namespace Phase

def last : Phase → Option Outcome
  | between last _ => last
  | _ => none

/-- It is there. -/
def present : Phase → Bool
  | between _ released => released
  | _ => true

/-- What has happened of execution `f`. -/
def begun (f : Nat) : Phase → List Occurrence
  | between _ _ => []
  | running o | returned o => .started f :: (o.map (.ended f)).toList
  | following => [.started f]
  | landing o | closing o => [.started f, .ended f o]

def runs (f : Nat) : Phase → Option Nat
  | running _ => some f
  | _ => none

/-- The jobs, when `a` requests are answered and execution `f` is at the front. -/
def jobs (a f : Nat) : Phase → List (Job Name Callback (Except JsError Value))
  | between last released =>
    (last.map fun o => .react (.call (.resume a)) (ofOutcome o)).toList ++
      if released then [.react (.call (.fn f)) (.ok .undefined)] else []
  | running _ | following => []
  | returned _ => [.adopt (.handler f) (.run f)]
  | landing o => [.react (.forward (.run f)) (ofOutcome o)]
  | closing o => [.react (.call (.discard f)) (ofOutcome o),
      .react (.call (.resume f)) (ofOutcome o)]

/-- The first execution of which `run` is pending. -/
def opening (f : Nat) : Phase → Nat
  | closing _ => f + 1
  | _ => f

/-- The promise that execution `f` has returned, or is going to. -/
def Handler (heap : Heap Name Callback (Except JsError Value)) (f : Nat) : Phase → Prop
  | between _ _ => heap.settled (.handler f) = none ∧ heap.waiting (.handler f) = []
  | running o | returned o =>
    heap.settled (.handler f) = o.map ofOutcome ∧ heap.waiting (.handler f) = []
  | following =>
    heap.settled (.handler f) = none ∧ heap.waiting (.handler f) = [.forward (.run f)]
  | landing _ | closing _ => True

/-- The events behind it. -/
def rank : Phase → Nat
  | between (some _) _ => 0
  | between none _ => 1
  | running none => 2
  | running (some _) => 3
  | returned none => 4
  | returned (some _) => 5
  | following => 6
  | landing _ => 7
  | closing _ => 8

end Phase

/-- **Execution `f` is at the front.**  Of those before it, `os` has what came of the ones whose
callers are answered. -/
structure Inv (s : State H) (os : List Outcome) (f : Nat) (phase : Phase) : Prop where
  front : f = os.length + phase.last.toList.length
  running : s.running = phase.runs f
  trace : s.trace = done (os ++ phase.last.toList) ++ phase.begun f
  jobs : s.heap.jobs = phase.jobs os.length f
  within : f ≤ s.calls.length
  present : phase.present = true ↔ f < s.calls.length
  queue : ∀ i, s.heap.settled (.queue i) = if i ≤ f then some (.ok .undefined) else none
  behind : ∀ i, f < i → s.heap.waiting (.queue i) =
    if i < s.calls.length then [.call (.fn i)] else []
  run : ∀ i, phase.opening f ≤ i → s.heap.settled (.run i) = none ∧
    s.heap.waiting (.run i) =
      if i < s.calls.length then [.call (.discard i), .call (.resume i)] else []
  handler : phase.Handler s.heap f
  handlers : ∀ i, f < i → s.heap.settled (.handler i) = none ∧ s.heap.waiting (.handler i) = []
  request : ∀ i, s.heap.settled (.request i) =
    (os[i]?).bind fun o => (s.calls[i]?).map fun call => call.resume (ofOutcome o)
  unwatched : ∀ i, s.heap.waiting (.request i) = []

theorem inv_initial : Inv (.initial : State H) [] 0 (.between none false) := by
  constructor <;> simp [State.initial, Phase.last, Phase.runs, Phase.begun, Phase.jobs,
    Phase.present, Phase.Handler, done_nil]

end Serialize

end OneSig.Latch
