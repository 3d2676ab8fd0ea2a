/-
# `GET /status` and `GET /pending`

The two public views of the service: what a job says of itself, and the registered operations
without their bytes.

`handleStatus` brings the query to an id, reads the job's file and shows its state, round,
transaction, the time from which it may be executed, and its last error.  A query without an id is
a 400; an id without a file is a 404, and so is one whose file cannot be read or does not parse.
Whether the query is a hash is not asked: `jobId` drops a prefix and writes the rest in upper
case, and the file is whichever that names.

`handlePending` lists the directory of the operations, reads each file, sorts by the time of
registration, newest first, and shows what `pendingEntry` takes of a record: not its bytes.  A
directory that cannot be listed and a single file that cannot be read show as an empty list.  The
listing comes with the request: it is some list of names, or an error.

`machine` is the process with the two handlers among its tasks: everything that the service does
goes on beside them.  A handler that has answered leaves its reply as the label of its task, which
is where it can be seen (`Sys.replies`); so a statement about what is disclosed is one about the
replies of every reachable state.

That the replies are right is the subject of `StatusPath`, that nothing is disclosed that should
not be that of `Disclosure`.
-/
import OneSig.Executor.Service

namespace OneSig.Executor

open OneSig Async

/-! ## 1. The handlers -/

/-- One entry of `GET /pending`. -/
structure PendingEntry where
  commitment : Hex
  label : Json
  personalAccount : Json
  registeredAt : Int

/-- The body of a reply, and the status when it is not 200. -/
inductive PublicReply
  | error (code : Nat) (message : Str)
  | status (state : JobState) (roundId : Option Int) (flareTxHash : Option Hex)
      (executionAllowedAt : Option Int) (lastError : Option Str)
  | pending (pending : List PendingEntry)

namespace PendingStore

def jsonSuffix : Str := ".json".toList

/-- The loop of `list`. -/
def listLoop : List Str → Prog (List PendingUserOp)
  | [] => return []
  | f :: rest =>
    if jsonSuffix.isSuffixOf f = false then listLoop rest
    else do
      let raw ← Prog.call (S := sig) (.readPending (f.take (f.length - 5)))
      let record ← Prog.lift (S := sig) (raw.parse PendingUserOp.stored)
      let out ← listLoop rest
      return record :: out

/-- Newest first.  `files` is what `readdir` resolves to, unless it rejects. -/
def list (files : Option (List Str)) : Prog (List PendingUserOp) :=
  (do
    let files ← Prog.lift (S := sig) (files.elim (raise "ENOENT: no such file or directory".toList)
      Except.ok)
    let out ← listLoop files
    return out.mergeSort fun a b => decide (b.registeredAt ≤ a.registeredAt)).tryCatch
      fun _ => return []

end PendingStore

namespace ExecutorService

/-- `id.replace(/^0x/, "").toUpperCase()`. -/
def jobId (o : Options) (id : Str) : Str :=
  o.upperCase.apply (if hexPrefix.isPrefixOf id then id.drop 2 else id)

/-- `GET /status`, with the query parameter `tx`. -/
def handleStatus (o : Options) (tx : Option Str) : Prog PublicReply :=
  match tx.filter fun id => decide (id ≠ []) with
  | none => return .error 400 "tx query parameter is required".toList
  | some id => do
    match ← ExecutorPipeline.load (jobId o id) with
    | none => return .error 404 "no job for that XRPL transaction".toList
    | some r =>
      let job ← deref r
      return .status job.state job.roundId job.flareTxHash job.executionAllowedAt job.lastError

/-- What `GET /pending` shows of an operation: not its bytes. -/
def pendingEntry (p : PendingUserOp) : PendingEntry where
  commitment := p.commitment
  label := p.label
  personalAccount := p.personalAccount
  registeredAt := p.registeredAt

def handlePending (files : Option (List Str)) : Prog PublicReply := do
  let pending ← PendingStore.list files
  return .pending (pending.map pendingEntry)

end ExecutorService

/-! ## 2. The process -/

namespace Views

/-- A task of the service, a view asked for, or one that has been given. -/
inductive Label
  | service (l : ExecutorService.Label)
  | status (tx : Option Str)
  | pending (files : Option (List Str))
  | replied (reply : PublicReply)

def code (o : Options) : Label → Prog (Option Label)
  | .service l => do
    let next ← ExecutorService.code o l
    return next.map .service
  | .status tx => do
    let reply ← ExecutorService.handleStatus o tx
    return some (.replied reply)
  | .pending files => do
    let reply ← ExecutorService.handlePending files
    return some (.replied reply)
  | .replied _ => return none

/-- The executor process with its public views. -/
def machine (o : Options) : Async.Machine sig world where
  Label := Label
  code := code o
  boot := fun m => Memory.boot m.now
  Ext := ExecutorService.Ext
  outside := ExecutorService.outside

abbrev Sys (o : Options) := Async.Sys (machine o)

abbrev Event (o : Options) := Async.Event (machine o)

/-- The process as it is constructed, over an empty directory. -/
def Sys.fresh (o : Options) (now : Int) : Sys o :=
  ⟨Memory.boot now, ⟨fun _ => none, fun _ => none, [], []⟩, []⟩

/-- The reply a task has given. -/
def Label.reply : Label → Option PublicReply
  | .replied reply => some reply
  | _ => none

/-- The replies given so far, by the tasks there are. -/
def Sys.replies {o : Options} (s : Sys o) : List PublicReply :=
  s.tasks.filterMap fun t => (t.label : Label).reply

end Views

end OneSig.Executor
