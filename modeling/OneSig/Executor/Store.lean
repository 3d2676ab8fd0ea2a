/-
# `packages/executor/src/store.ts`

Pending user operations, keyed by their commitment, in a map and in one file each.  `register`
hashes the bytes, compares the hash with the commitment it was given, puts the record in the map
and then writes its file; `get` looks in the map, and when the commitment is not there it reads
the file and fills the map with what it finds.  Both write the commitment in lower case first.

Both endpoints and the watcher share the map, and every `await` lets the others run: between the
entry in the map and the end of the write a poll can already find the operation, and two
registrations of one commitment can write their files in either order.

The fields of a request are whatever the body had.  `keccak256` of a field that is no string is
refused by the package, and the claimed commitment is compared in lower case; everything else is
stored unread.

`get` swallows every error of reading a file, so a file that is missing, half written or
momentarily unreadable is the same as a commitment nobody has registered.  A record that is read
comes back as its file gives it back, in which an infinite number has become `null`.

Both operations leave the store with verified records only, whatever runs between their awaits;
the specifications are in the modules on requests and on polls.  What "verified" means is a
parameter there: the commitment is always that of the bytes, and a result can ask for more of the
records it admits.
-/
import OneSig.Executor.World
import OneSig.Lib.Async.Logic

namespace OneSig.Executor

open OneSig Async

/-! ## 1. The code -/

/-- The argument of `register`. -/
structure Entry where
  userOpData : Json
  commitment : Option Json := none
  personalAccount : Json
  nonce : Json
  totalCallValue : Json
  label : Json

/-- `keccak256` of a request field, with the text it was given.  Anything but a string is
refused. -/
def keccak256 (viem : Viem) : Json → Except JsError (Str × Hex)
  | .str data => (viem.keccak256 data).map fun commitment => (data, commitment)
  | _ => raise "Uint8Array expected".toList

/-- The claimed commitment, when there is one, is the commitment of the bytes. -/
def checkCommitment (claimed : Option Json) (commitment : Hex) : Except JsError Unit :=
  match claimed with
  | none => .ok ()
  | some c =>
    if c.truthy = false then .ok ()
    else match c with
      | .str s =>
        if toLowerCase s ≠ toLowerCase commitment then
          raise ("commitment mismatch: claimed ".toList ++ s ++
            ", keccak256(userOpData) is ".toList ++ commitment)
        else .ok ()
      | _ => raise "entry.commitment.toLowerCase is not a function".toList

/-- The record `register` builds. -/
def Entry.record (entry : Entry) (userOpData : Str) (commitment : Hex) (now : Int) :
    PendingUserOp where
  commitment := commitment
  userOpData := userOpData
  personalAccount := entry.personalAccount
  nonce := entry.nonce
  totalCallValue := entry.totalCallValue
  label := entry.label
  registeredAt := now

/-- `#memory.set(key, record)`. -/
def Memory.remember (key : Hex) (record : PendingUserOp) (m : Memory) : Memory :=
  { m with memory := m.memory.set key record }

namespace PendingStore

/-- The name of the file of a commitment, without its extension. -/
def fileName (commitment : Hex) : Str := commitment.drop 2

def register (o : Options) (entry : Entry) : Prog Hex := do
  let (userOpData, commitment) ← Prog.lift (keccak256 o.viem entry.userOpData)
  Prog.lift (checkCommitment entry.commitment commitment)
  let now ← Prog.gets Memory.now
  let record := entry.record userOpData commitment now
  Prog.modify (Memory.remember (toLowerCase commitment) record)
  Prog.call (S := sig) .mkdirPending
  Prog.call (S := sig) (.writePending (fileName commitment) record)
  return commitment

/-- Read, parse and remember the file of a commitment. -/
def readRecord (commitment : Hex) : Prog (Option PendingUserOp) := do
  let raw ← Prog.call (S := sig) (.readPending (fileName commitment))
  let record ← Prog.lift (S := sig) (raw.parse PendingUserOp.stored)
  Prog.modify (Memory.remember (toLowerCase commitment) record)
  return some record

def get (commitment : Hex) : Prog (Option PendingUserOp) := do
  match ← Prog.gets (S := sig) fun m => m.memory.get? (toLowerCase commitment) with
  | some cached => return some cached
  | none => (readRecord commitment).tryCatch fun _ => return none

end PendingStore

end OneSig.Executor
