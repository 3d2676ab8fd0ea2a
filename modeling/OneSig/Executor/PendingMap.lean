/-
# The pending store as a map

What callers of the store rely on is a finite map: `register` sets the record of a commitment,
`get` returns the one that was set last, also after a restart, and a registration that is refused
sets nothing.  This module says how far that is so for one register, lookup or listing on its own,
whatever else the memory and the directory hold.

The memory and the files are the two halves of a `Cache`: the memory is asked for the lower-case
commitment, the directory for the caller's own spelling of it.  So a spelling with an upper-case
digit finds a record only while the memory holds it, and after a restart it finds none.  A file
also gives back less than was put in it: a number that is not finite is written as `null`, so a
record with one comes back another after a restart.  In every other case the store is the map
(`store_refines_iff`), and its listing shows it too.

`register` puts the record in the memory before it makes the directory and writes the file.  When
one of these fails the caller is told so, and the record stays, in memory and with whatever part
of the file was written (`refused_leaves_no_trace_iff`).  Only the failures that come first, of
the checks, leave the map as it was, and those that happen to put back what was there.

* `alone_get`, `alone_register`, `alone_list`: what each operation does alone, in the terms of the
  library.
* `Stored`, `Recent`, `Withdrawn`: what the map is to hold after a register that succeeds, and
  after one that fails.
-/
import OneSig.Executor.Views
import OneSig.Executor.Solo
import OneSig.Executor.Requests
import OneSig.Lib.Cache

namespace OneSig.Executor

open OneSig Async

namespace PendingMap

abbrev Exchange := Solo.Exchange

/-! ## 1. The two halves -/

/-- What a file reads as: nothing when it is missing or does not parse. -/
def readable : Option (Text PendingUserOp) → Option PendingUserOp
  | some (.whole record) => some record.stored
  | _ => none

theorem readable_eq_some {file : Option (Text PendingUserOp)} {record : PendingUserOp} :
    readable file = some record ↔ ∃ saved, file = some (.whole saved) ∧ saved.stored = record := by
  cases file with
  | none => simp [readable]
  | some t => cases t <;> simp [readable]

/-- The commitments, their spellings and their files. -/
def keys : Cache.Keys Str Hex Str where
  key := toLowerCase
  name := PendingStore.fileName
  home := PendingStore.fileName
  valid := IsLowerHex 32
  home_inj := by
    rintro k k' ⟨bs, -, rfl⟩ ⟨bs', -, rfl⟩ hname
    exact congrArg (hexPrefix ++ ·) hname
  spelled := by
    rintro c k ⟨bs, -, hc⟩ ⟨bs', -, rfl⟩ hname
    have hname : Bytes.hexEncode bs' = c.drop 2 := hname
    have hlow : Bytes.hexEncode bs = toLowerCase (c.drop 2) := by
      calc Bytes.hexEncode bs = (toLowerCase c).drop 2 := by rw [hc]; rfl
        _ = toLowerCase (c.drop 2) := List.map_drop.symm
    rw [hc, hlow, ← hname, toLowerCase_hexEncode]

/-- The memory and the directory of the store. -/
def view (s : St) : Cache.Store Hex Str PendingUserOp where
  near := fun k => s.mem.memory.get? k
  far := fun name => readable (s.world.pending name)

@[simp] theorem view_clockTo (now : Int) (m : Memory) (w : Outside) :
    view ⟨clockTo now m, w⟩ = view ⟨m, w⟩ := rfl

/-- The store constructed again over the same directory. -/
def restarted (now : Int) (s : St) : St := ⟨Memory.boot now, s.world⟩

@[simp] theorem view_restarted (now : Int) (s : St) : view (restarted now s) = Cache.restart (view s) :=
  rfl

/-- A spelling of a commitment means a commitment. -/
theorem valid_of_isHex {c : Str} (hc : IsHex 32 c) : keys.valid (keys.key c) := by
  obtain ⟨bs, hlen, -, hlow⟩ := hc.decode
  exact ⟨bs, hlen, hlow⟩

/-- A commitment's file has the name its spelling gives when the spelling is in lower case. -/
theorem home_iff {c : Str} (hc : IsHex 32 c) : keys.home (keys.key c) = keys.name c ↔
    toLowerCase c = c := by
  obtain ⟨body, rfl, -, -⟩ := hc
  constructor
  · intro h
    have hbody : toLowerCase body = body := h
    rw [toLowerCase_append, toLowerCase_hexPrefix, hbody]
  · intro h
    exact congrArg (List.drop 2) h

/-! ## 2. `get` -/

/-- The call does not fail. -/
def Answered (x : Exchange) : Prop := ∀ e part, x.choice ≠ .fail e part

/-- A read that does not fail resolves to the file, if there is one. -/
theorem alone_readPending (name : Str) {s : St} : Alone (W := world) clockTo Answered
    (Prog.call (S := sig) (.readPending name)) (fun _ r s' =>
      r = readFile (s.world.pending name) ∧ s'.world = s.world ∧
        ∃ now, s'.mem = clockTo now s.mem) s := by
  refine alone_call ?_
  intro c now r w hadm hper
  cases c <;> cases hper
  · exact absurd rfl (hadm _ _)
  · exact ⟨rfl, rfl, now, rfl⟩

/-- The memory after a record is remembered. -/
theorem view_remember (key : Hex) (record : PendingUserOp) (m : Memory) (w : Outside) :
    view ⟨Memory.remember key record m, w⟩ =
      { view ⟨m, w⟩ with near := Function.update (view ⟨m, w⟩).near key (some record) } := by
  unfold view Memory.remember
  congr 1
  funext k
  rw [JsMap.get?_set, Function.update_apply]

/-- Read the file of a commitment, when the disk does what it is asked. -/
theorem alone_readRecord (c : Str) {s : St} :
    Alone (W := world) clockTo Answered (PendingStore.readRecord c) (fun _ res s' =>
      s'.world = s.world ∧ match readable (s.world.pending (PendingStore.fileName c)) with
        | some record => res = .ok (some record) ∧
          ∃ now, s'.mem = Memory.remember (toLowerCase c) record (clockTo now s.mem)
        | none => (∃ e, res = .error e) ∧ ∃ now, s'.mem = clockTo now s.mem) s := by
  unfold PendingStore.readRecord
  refine alone_seq (alone_readPending _) ?_ ?_
  · rintro calls raw s₁ ⟨hraw, hworld, now, hmem⟩
    have hfile := readFile_ok hraw.symm
    rw [hfile]
    refine alone_lift_seq (fun record hparse => ?_) fun e hparse => ?_
    · obtain ⟨saved, rfl, rfl⟩ := Text.parse_ok hparse
      refine alone_then (alone_modify ⟨rfl, _, rfl, alone_pure ?_⟩)
      exact ⟨hworld, rfl, now, by rw [← hmem]⟩
    · cases raw with
      | whole record => cases hparse
      | torn => exact ⟨hworld, ⟨e, rfl⟩, now, hmem⟩
  · rintro calls e s₁ ⟨hraw, hworld, now, hmem⟩
    cases hfile : s.world.pending (PendingStore.fileName c) with
    | none => exact ⟨hworld, ⟨e, rfl⟩, now, hmem⟩
    | some t =>
      rw [hfile] at hraw
      cases hraw

/-- Nothing but the map of the store and the clock has changed. -/
def MapOnly (m m' : Memory) : Prop := ∃ memory now, m' = { m with memory := memory, now := now }

/-- **A lookup on its own** finds what the two halves hold, and fills the memory with it. -/
theorem alone_get (c : Str) {s : St} :
    Alone (W := world) clockTo Answered (PendingStore.get c) (fun _ res s' =>
      res = .ok (Cache.lookup keys (view s) c) ∧ view s' = Cache.fill keys c (view s) ∧
        s'.world = s.world ∧ MapOnly s.mem s'.mem) s := by
  unfold PendingStore.get
  refine alone_then (alone_gets ⟨rfl, _, rfl, ?_⟩)
  split
  case h_1 cached hcached =>
    have hnear : (view s).near (keys.key c) = some cached := hcached
    have hlook := Cache.lookup_of_near hnear
    exact alone_pure ⟨by rw [hlook], (Cache.fill_of_near (hnear.trans hlook.symm)).symm, rfl,
      ⟨_, _, rfl⟩⟩
  case h_2 hmiss =>
    have hnear : (view s).near (keys.key c) = none := hmiss
    have hlook : Cache.lookup keys (view s) c =
        readable (s.world.pending (PendingStore.fileName c)) := Cache.lookup_of_not_near hnear
    refine alone_tryCatch (alone_readRecord c) ?_ ?_
    · rintro calls a s' ⟨hworld, hread⟩
      cases hfile : readable (s.world.pending (PendingStore.fileName c)) with
      | none =>
        rw [hfile] at hread
        obtain ⟨⟨e, he⟩, -⟩ := hread
        cases he
      | some record =>
        rw [hfile] at hread
        obtain ⟨hres, now, hmem⟩ := hread
        refine ⟨by rw [hres, hlook, hfile], ?_, hworld, _, now, hmem⟩
        obtain ⟨m, w⟩ := s'
        obtain rfl : w = s.world := hworld
        obtain rfl : m = _ := hmem
        rw [view_remember, view_clockTo, Cache.fill, hlook, hfile]
        rfl
    · rintro calls e s' ⟨hworld, hread⟩
      cases hfile : readable (s.world.pending (PendingStore.fileName c)) with
      | some record =>
        rw [hfile] at hread
        cases hread.1
      | none =>
        rw [hfile] at hread
        obtain ⟨-, now, hmem⟩ := hread
        refine alone_pure ⟨by rw [hlook, hfile], ?_, hworld, _, now, hmem⟩
        have hsame : view s' = view s := by
          obtain ⟨m, w⟩ := s'
          obtain rfl : w = s.world := hworld
          obtain rfl : m = _ := hmem
          rfl
        rw [hsame, Cache.fill_of_near (hnear.trans (hlook.trans hfile).symm)]

/-- An answer of the kind a call expects. -/
def anyAnswer : Op → Choice
  | .mkdirPending | .writePending _ _ | .readPending _ | .mkdirState | .writeJob _ _ | .readJob _ =>
    .done
  | .accountTx _ _ _ => .transactions .missingResult
  | .ledgerCurrent => .ledger .missingResult
  | .prepareRequest _ _ => .verifier ⟨true, 200, [], none⟩
  | .proofByRequestRound _ _ => .daLayer ⟨true, 200, [], none⟩
  | .getContractAddressByName _ | .fdcRequestFeeConfigurations _ => .address []
  | .getRequestFee _ _ | .firstVotingRoundStartTs _ | .votingEpochDurationSeconds _
  | .fdcProtocolId _ | .getBlock _ => .nat 0
  | .isFinalized _ _ _ | .isTransactionIdUsed _ => .bool true
  | .requestAttestation _ _ _ _ | .executeDirectMintingWithData _ _ _ _ _ => .hex []
  | .waitForTransactionReceipt _ => .receipt ⟨false, 0, []⟩
  | .prepare _ => .prepared ⟨[], [], [], [], [], []⟩

theorem answerable (op : Op) (s : St) : ∃ c now r w,
    Answered ⟨op, s, c, now⟩ ∧ perform op c s.world = some (r, w) := by
  refine ⟨anyAnswer op, s.mem.now, ?_⟩
  cases op <;> exact ⟨_, _, (by rintro e part ⟨⟩), rfl⟩

/-- A lookup returns `r`, however it is answered, when the disk does what it is asked. -/
def Returns (c : Str) (s : St) (r : Option PendingUserOp) : Prop :=
  ∀ answers out, exec (W := world) clockTo (PendingStore.get c) answers s = some out →
    (∀ x ∈ out.calls, Answered x) → out.res = .ok r

theorem returns_iff {c : Str} {s : St} {r : Option PendingUserOp} :
    Returns c s r ↔ Cache.lookup keys (view s) c = r := by
  constructor
  · intro h
    obtain ⟨answers, out, hexec, hadm⟩ := exec_total answerable (PendingStore.get c) s
    have hres := (alone_get c answers out hexec hadm).1.symm.trans (h answers out hexec hadm)
    exact Except.ok.inj hres
  · rintro rfl answers out hexec hadm
    exact (alone_get c answers out hexec hadm).1

/-! ## 3. `register` -/

/-- The record an entry asks to be kept, unless its checks refuse it. -/
def admitted (o : Options) (entry : Entry) (now : Int) : Except JsError PendingUserOp := do
  let (userOpData, commitment) ← keccak256 o.viem entry.userOpData
  checkCommitment entry.commitment commitment
  return entry.record userOpData commitment now

/-- How much of a write took effect, as its answer says. -/
def reachOf (x : Exchange) : Effect :=
  match x.op, x.choice with
  | .writePending _ _, .fail _ part => part
  | .writePending _ _, _ => .full
  | _, _ => .nothing

/-- How much of the record reached its file: nothing when the directory could not be made. -/
def reached (calls : List Exchange) : Effect :=
  match calls.getLast? with
  | some x => reachOf x
  | none => .nothing

/-- An admitted record is in the memory, however much of it reached its file. -/
structure Stored (record : PendingUserOp) (s : St) (calls : List Exchange)
    (res : Except JsError Hex) (s' : St) : Prop where
  memory : s'.mem.memory = s.mem.memory.set (toLowerCase record.commitment) record
  pending : s'.world.pending = Function.update s.world.pending
    (PendingStore.fileName record.commitment) (written (reached calls)
      (s.world.pending (PendingStore.fileName record.commitment)) record)
  done : (∀ x ∈ calls, Answered x) → res = .ok record.commitment ∧ reached calls = .full

/-- What a registration does. -/
def Registered (o : Options) (entry : Entry) (s : St) (calls : List Exchange)
    (res : Except JsError Hex) (s' : St) : Prop :=
  match admitted o entry s.mem.now with
  | .error e => res = .error e ∧ s' = s
  | .ok record => Stored record s calls res s'

/-- A write that does not fail has had its full effect. -/
theorem reachOf_answered {name : Str} {record : PendingUserOp} {s : St} {c : Choice} {now : Int}
    (h : Answered ⟨.writePending name record, s, c, now⟩) :
    reachOf ⟨.writePending name record, s, c, now⟩ = .full := by
  cases c with
  | fail e part => exact absurd rfl (h e part)
  | _ => rfl

/-- The rejection of a call that reads no file is the environment's. -/
theorem not_answered {op : Op} (hop : op.readsFile = false) {s : St} {c : Choice} {now : Int}
    {e : JsError} {w : Outside} (h : perform op c s.world = some (.error e, w)) :
    ¬ Answered ⟨op, s, c, now⟩ := by
  obtain ⟨part, rfl⟩ := perform_error hop h
  exact fun hadm => hadm e part rfl

theorem alone_mkdir {s : St} : Alone (W := world) clockTo (fun _ => True)
    (Prog.call (S := sig) .mkdirPending) (fun calls res s' => s'.mem.memory = s.mem.memory ∧
      s'.world = s.world ∧ reached calls = .nothing ∧
        ∀ e, res = .error e → ∃ x ∈ calls, ¬ Answered x) s := by
  refine alone_call ?_
  intro c now r w _ hper
  refine ⟨rfl, perform_readOnly rfl hper, ?_, ?_⟩
  · cases c <;> rfl
  · rintro e rfl
    exact ⟨_, List.mem_singleton_self _, not_answered rfl hper⟩

theorem alone_writePending (name : Str) (record : PendingUserOp) {s : St} :
    Alone (W := world) clockTo (fun _ => True) (Prog.call (S := sig) (.writePending name record))
      (fun calls res s' => s'.mem.memory = s.mem.memory ∧ (∃ x, calls = [x] ∧
        s'.world = effect (reachOf x) s.world (.writePending name record) ∧
        (Answered x → reachOf x = .full)) ∧
        ∀ e, res = .error e → ∃ x ∈ calls, ¬ Answered x) s := by
  refine alone_call ?_
  intro c now r w _ hper
  refine ⟨rfl, ⟨_, rfl, ?_, reachOf_answered⟩, ?_⟩
  · cases c <;> cases hper <;> rfl
  · rintro e rfl
    exact ⟨_, List.mem_singleton_self _, not_answered rfl hper⟩

/-- **A registration on its own**: refused by its checks it does nothing; otherwise the memory
has the record, and the file as much of it as the disk let through. -/
theorem alone_register (o : Options) (entry : Entry) {s : St} :
    Alone (W := world) clockTo (fun _ => True) (PendingStore.register o entry)
      (Registered o entry s) s := by
  unfold PendingStore.register Registered
  refine alone_lift_seq (fun hashed hhash => ?_) fun e hhash => ?_
  case refine_2 => simp [admitted, hhash, bind, Except.bind]
  obtain ⟨userOpData, commitment⟩ := hashed
  refine alone_lift_seq (fun _ hcheck => ?_) fun e hcheck => ?_
  case refine_2 => simp [admitted, hhash, hcheck, bind, Except.bind]
  have hrecord : admitted o entry s.mem.now =
      .ok (entry.record userOpData commitment s.mem.now) := by
    simp [admitted, hhash, hcheck, bind, Except.bind, pure, Except.pure]
  rw [hrecord]
  refine alone_then (alone_gets ⟨rfl, _, rfl, ?_⟩)
  refine alone_then (alone_modify ⟨rfl, _, rfl, ?_⟩)
  refine alone_seq alone_mkdir ?_ ?_
  · rintro calls _ s₁ ⟨hmem, hworld, -, -⟩
    refine alone_seq (alone_writePending _ _) ?_ ?_
    · rintro calls' _ s₂ ⟨hmem₂, ⟨x, rfl, hworld₂, hfull⟩, -⟩
      refine alone_pure ⟨hmem₂.trans hmem, ?_, fun hall => ⟨rfl, ?_⟩⟩
      · rw [hworld₂, hworld]
        simp [reached]
        rfl
      · simpa [reached] using hfull (hall x (by simp))
    · rintro calls' e s₂ ⟨hmem₂, ⟨x, rfl, hworld₂, -⟩, hfail⟩
      refine ⟨hmem₂.trans hmem, ?_, fun hall => ?_⟩
      · rw [hworld₂, hworld]
        simp [reached]
        rfl
      · obtain ⟨y, hy, hnot⟩ := hfail e rfl
        exact absurd (hall y (List.mem_append_right _ hy)) hnot
  · rintro calls e s₁ ⟨hmem, hworld, hreach, hfail⟩
    refine ⟨hmem, ?_, fun hall => ?_⟩
    · rw [hworld, hreach]
      exact (Function.update_eq_self _ _).symm
    · obtain ⟨y, hy, hnot⟩ := hfail e rfl
      exact absurd (hall y hy) hnot

/-- The key of an admitted record is a commitment, and its own. -/
theorem admitted_shape {o : Options} (hv : o.viem.Lawful) {entry : Entry} {now : Int}
    {record : PendingUserOp} (h : admitted o entry now = .ok record) :
    IsLowerHex 32 record.commitment := by
  obtain ⟨⟨userOpData, commitment⟩, hhash, h⟩ := bind_ok h
  obtain ⟨-, -, h⟩ := bind_ok h
  obtain rfl := Except.ok.inj h
  exact hv.keccak256_shape _ _ (keccak256_ok hhash).2

/-- What its file then reads as. -/
def filed (record : PendingUserOp) (part : Effect) (w : Outside) : Option PendingUserOp :=
  readable (written part (w.pending (PendingStore.fileName record.commitment)) record)

/-- A record that is stored is written to both halves, as far as its file goes. -/
theorem Stored.view {record : PendingUserOp} {s s' : St} {calls : List Exchange}
    {res : Except JsError Hex} (h : Stored record s calls res s')
    (hlow : IsLowerHex 32 record.commitment) :
    view s' = Cache.write keys record.commitment record (filed record (reached calls) s.world)
      (view s) := by
  unfold PendingMap.view Cache.write
  congr 1
  · funext k
    rw [h.memory, hlow.toLowerCase_eq, JsMap.get?_set, Function.update_apply]
  · funext name
    rw [h.pending]
    change _ = Function.update (fun name => readable (s.world.pending name))
      (PendingStore.fileName record.commitment) (filed record (reached calls) s.world) name
    rw [Function.update_apply, Function.update_apply]
    split
    · rfl
    · rfl

/-! ## 4. Histories -/

/-- The latest registration of each commitment. -/
abbrev Registry := Hex → Option PendingUserOp

/-- What an accepted registration makes of it. -/
def Registry.register (o : Options) (entry : Entry) (now : Int) (reg : Registry) : Registry :=
  match admitted o entry now with
  | .error _ => reg
  | .ok record => Function.update reg record.commitment (some record)

/-- The commitments that were registered since the last restart. -/
abbrev Recent := Hex → Bool

/-- What an accepted registration makes of it. -/
def Recent.register (o : Options) (entry : Entry) (now : Int) (recent : Recent) : Recent :=
  match admitted o entry now with
  | .error _ => recent
  | .ok record => Function.update recent record.commitment true

/-- A store over an empty directory, and what was registered with it: registrations, lookups of
any text and restarts, one after the other, on a disk that does what it is asked. -/
inductive History (o : Options) : St → Registry → Recent → Prop
  | start (now : Int) {w : Outside} (hempty : ∀ name, w.pending name = none) :
    History o ⟨Memory.boot now, w⟩ (fun _ => none) fun _ => false
  | register {s : St} {reg : Registry} {recent : Recent} (h : History o s reg recent)
    (entry : Entry) {answers : List (Choice × Int)} {out : Async.Outcome sig world Int Hex}
    (hexec : exec clockTo (PendingStore.register o entry) answers s = some out)
    (hadm : ∀ x ∈ out.calls, Answered x) :
    History o out.st (reg.register o entry s.mem.now) (recent.register o entry s.mem.now)
  | get {s : St} {reg : Registry} {recent : Recent} (h : History o s reg recent) (c : Str)
    {answers : List (Choice × Int)} {out : Async.Outcome sig world Int (Option PendingUserOp)}
    (hexec : exec clockTo (PendingStore.get c) answers s = some out)
    (hadm : ∀ x ∈ out.calls, Answered x) : History o out.st reg recent
  | restart {s : St} {reg : Registry} {recent : Recent} (h : History o s reg recent) (now : Int) :
    History o (restarted now s) reg fun _ => false
  | wait {s : St} {reg : Registry} {recent : Recent} (h : History o s reg recent) (now : Int) :
    History o ⟨clockTo now s.mem, s.world⟩ reg recent

/-- What holds throughout: the store refines the registry, no file is torn, and a record is
registered under its own commitment. -/
structure Inv (s : St) (reg : Registry) (recent : Recent) : Prop where
  refines : Cache.Refines keys PendingUserOp.stored (view s) reg recent
  whole : ∀ {name : Str} {t : Text PendingUserOp}, s.world.pending name = some t →
    ∃ record, t = .whole record
  named : ∀ {c : Hex} {record : PendingUserOp}, reg c = some record → record.commitment = c

section Inv

variable {o : Options} {s s' : St} {reg : Registry} {recent : Recent}

theorem Inv.stored (h : Inv s reg recent) {record : PendingUserOp} (hlow : IsLowerHex 32 record.commitment)
    {calls : List Exchange} {res : Except JsError Hex} (hstored : Stored record s calls res s')
    (hfull : reached calls = .full) :
    Inv s' (Function.update reg record.commitment (some record))
      (Function.update recent record.commitment true) := by
  refine ⟨?_, ?_, ?_⟩
  · have hview : view s' =
        Cache.put keys PendingUserOp.stored record.commitment record (view s) := by
      rw [hstored.view hlow, hfull]
      rfl
    rw [hview]
    exact h.refines.put hlow record
  · intro name t hfile
    rw [hstored.pending, hfull] at hfile
    by_cases hname : name = PendingStore.fileName record.commitment
    · subst hname
      rw [Function.update_self] at hfile
      exact ⟨record, (Option.some.inj hfile).symm⟩
    · rw [Function.update_of_ne hname] at hfile
      exact h.whole hfile
  · intro c record' hreg
    by_cases hc : c = record.commitment
    · subst hc
      rw [Function.update_self] at hreg
      rw [Option.some.inj hreg]
    · rw [Function.update_of_ne hc] at hreg
      exact h.named hreg

/-- **The store refines the registry**, after every sequence of registrations, lookups and
restarts: what was registered last is in its file, and in memory if it was registered or looked up
since. -/
theorem History.inv (hv : o.viem.Lawful) (h : History o s reg recent) : Inv s reg recent := by
  induction h with
  | @start now w hempty =>
    refine ⟨?_, ?_, ?_⟩
    · have hview : view ⟨Memory.boot now, w⟩ = ⟨fun _ => none, fun _ => none⟩ := by
        unfold view
        congr 1
        funext name
        rw [hempty]
        rfl
      rw [hview]
      exact .empty
    · intro name t hfile
      rw [hempty] at hfile
      cases hfile
    · intro c record hreg
      cases hreg
  | register _ entry hexec hadm ih =>
    have hpost := alone_register o entry _ _ hexec fun _ _ => trivial
    unfold Registered at hpost
    unfold Registry.register Recent.register
    split at hpost
    case h_1 e herr =>
      rw [hpost.2]
      exact ih
    case h_2 record hok =>
      exact ih.stored (admitted_shape hv hok) hpost (hpost.done hadm).2
  | get _ c hexec hadm ih =>
    obtain ⟨-, hview, hworld, -⟩ := alone_get c _ _ hexec hadm
    refine ⟨?_, ?_, ih.named⟩
    · rw [hview]
      exact ih.refines.fill c
    · rw [hworld]
      exact ih.whole
  | restart _ now ih => exact ⟨ih.refines.restart, ih.whole, ih.named⟩
  | wait _ now ih => exact ⟨ih.refines, ih.whole, ih.named⟩

end Inv

/-! ## 5. `list` -/

/-- What the directory reads as: the names in it, or an error when it was never made. -/
def Listing (pending : Str → Option (Text PendingUserOp)) : Option (List Str) → Prop
  | none => ∀ name, pending name = none
  | some files => files.Nodup ∧
    ∀ name, name ++ PendingStore.jsonSuffix ∈ files ↔ (pending name).isSome

/-- The record a name of the directory stands for. -/
def listedAs (w : Outside) (f : Str) : Option PendingUserOp :=
  if PendingStore.jsonSuffix.isSuffixOf f then readable (w.pending (f.take (f.length - 5))) else none

theorem stem_json (name : Str) : (name ++ PendingStore.jsonSuffix).take
    ((name ++ PendingStore.jsonSuffix).length - 5) = name := by
  rw [List.length_append, show PendingStore.jsonSuffix.length = 5 from rfl, Nat.add_sub_cancel,
    List.take_left]

theorem listedAs_json (w : Outside) (name : Str) :
    listedAs w (name ++ PendingStore.jsonSuffix) = readable (w.pending name) := by
  have hsuffix : PendingStore.jsonSuffix.isSuffixOf (name ++ PendingStore.jsonSuffix) = true :=
    List.isSuffixOf_iff_suffix.mpr (List.suffix_append _ _)
  rw [listedAs, if_pos hsuffix, stem_json]

theorem listedAs_eq_some {w : Outside} {f : Str} {record : PendingUserOp} :
    listedAs w f = some record ↔ ∃ name, f = name ++ PendingStore.jsonSuffix ∧
      readable (w.pending name) = some record := by
  constructor
  · intro h
    by_cases hsuffix : PendingStore.jsonSuffix.isSuffixOf f = true
    · obtain ⟨name, rfl⟩ := List.isSuffixOf_iff_suffix.mp hsuffix
      rw [listedAs_json] at h
      exact ⟨name, rfl, h⟩
    · rw [listedAs, if_neg hsuffix] at h
      cases h
  · rintro ⟨name, rfl, h⟩
    rw [listedAs_json, h]

/-- The loop reads every file, when each of them is there and parses. -/
theorem alone_listLoop (files : List Str) {s : St}
    (hall : ∀ name, name ++ PendingStore.jsonSuffix ∈ files →
      ∃ record, s.world.pending name = some (.whole record)) :
    Alone (W := world) clockTo Answered (PendingStore.listLoop files) (fun _ res s' =>
      res = .ok (files.filterMap (listedAs s.world)) ∧ s'.world = s.world) s := by
  induction files generalizing s with
  | nil => exact alone_pure ⟨rfl, rfl⟩
  | cons f rest ih =>
    have hrest := fun name hname => hall name (List.mem_cons_of_mem _ hname)
    unfold PendingStore.listLoop
    split
    case isTrue hsuffix =>
      have hnone : listedAs s.world f = none := by rw [listedAs, hsuffix]; rfl
      rw [List.filterMap_cons_none hnone]
      exact ih hrest
    case isFalse hsuffix =>
      obtain ⟨name, rfl⟩ := List.isSuffixOf_iff_suffix.mp (Bool.not_eq_false _ ▸ hsuffix)
      obtain ⟨record, hfile⟩ := hall name List.mem_cons_self
      have hsome : listedAs s.world (name ++ PendingStore.jsonSuffix) = some record.stored := by
        rw [listedAs_json, hfile]
        rfl
      rw [List.filterMap_cons_some hsome, stem_json]
      refine alone_seq (alone_readPending name) ?_ ?_
      · rintro calls raw s₁ ⟨hraw, hworld, -⟩
        rw [hfile] at hraw
        obtain rfl := Except.ok.inj hraw
        refine alone_lift_seq (fun record' hparse => ?_) fun e hparse => by cases hparse
        obtain rfl := Except.ok.inj hparse
        refine alone_seq (ih fun name hname => by rw [hworld]; exact hrest name hname) ?_ ?_
        · rintro calls' out s₂ ⟨hout, hworld₂⟩
          obtain rfl := Except.ok.inj hout
          rw [hworld] at hworld₂ ⊢
          exact alone_pure ⟨rfl, hworld₂⟩
        · rintro calls' e s₂ ⟨hout, -⟩
          cases hout
      · rintro calls e s₁ ⟨hraw, -, -⟩
        rw [hfile] at hraw
        cases hraw

theorem alone_list (files : Option (List Str)) {s : St}
    (hall : ∀ names ∈ files, ∀ name, name ++ PendingStore.jsonSuffix ∈ names →
      ∃ record, s.world.pending name = some (.whole record)) :
    Alone (W := world) clockTo Answered (PendingStore.list files) (fun _ res _ =>
      ∃ records, res = .ok records ∧
        records.Perm ((files.getD []).filterMap (listedAs s.world))) s := by
  unfold PendingStore.list
  cases files with
  | none =>
    refine alone_tryCatch (R := fun _ res _ => ∃ e, res = .error e) ?_ ?_ ?_
    · exact alone_lift_seq (fun a h => by cases h) fun e _ => ⟨e, rfl⟩
    · rintro calls a s' ⟨e, he⟩
      cases he
    · rintro calls e s' -
      exact alone_pure ⟨[], rfl, .refl _⟩
  | some names =>
    refine alone_tryCatch (R := fun _ res _ => ∃ records, res = .ok records ∧
      records.Perm (names.filterMap (listedAs s.world))) ?_ (fun calls a s' h => h) ?_
    · refine alone_lift_seq (fun a h => ?_) fun e h => by cases h
      obtain rfl := Except.ok.inj h
      refine alone_seq (alone_listLoop names (hall names rfl)) ?_ ?_
      · rintro calls out s' ⟨hout, -⟩
        obtain rfl := Except.ok.inj hout
        exact alone_pure ⟨_, rfl, List.mergeSort_perm _ _⟩
      · rintro calls e s' ⟨hout, -⟩
        cases hout
    · rintro calls e s' ⟨records, he, -⟩
      cases he

/-- A listing returns exactly the latest record of each registered commitment, each once. -/
def Lists (files : Option (List Str)) (s : St) (reg : Registry) : Prop :=
  ∀ answers out, exec (W := world) clockTo (PendingStore.list files) answers s = some out →
    (∀ x ∈ out.calls, Answered x) → ∃ records, out.res = .ok records ∧
      (records.map PendingUserOp.commitment).Nodup ∧
        ∀ record, record ∈ records ↔ ∃ c, reg c = some record

section Lists

variable {s : St} {reg : Registry} {recent : Recent} {files : Option (List Str)}

/-- A listed record stands under the name of its own commitment. -/
theorem Inv.listedAs_name (h : Inv s reg recent) {f : Str} {record : PendingUserOp}
    (hf : listedAs s.world f = some record) :
    f = PendingStore.fileName record.commitment ++ PendingStore.jsonSuffix := by
  obtain ⟨name, rfl, hread⟩ := listedAs_eq_some.mp hf
  obtain ⟨c, hhome, hreg⟩ := h.refines.far.mp hread
  obtain ⟨saved, hsaved, rfl⟩ := Option.map_eq_some_iff.mp hreg
  rw [PendingUserOp.stored_commitment, h.named hsaved, ← hhome]
  rfl

/-- A listing returns what the file of each registered commitment gives back. -/
theorem Inv.alone_list (h : Inv s reg recent) (hfiles : Listing s.world.pending files) :
    Alone (W := world) clockTo Answered (PendingStore.list files) (fun _ res _ =>
      ∃ records, res = .ok records ∧ (records.map PendingUserOp.commitment).Nodup ∧
        ∀ record, record ∈ records ↔ ∃ c, (reg c).map PendingUserOp.stored = some record) s := by
  intro answers out hexec hadm
  have hall : ∀ names ∈ files, ∀ name, name ++ PendingStore.jsonSuffix ∈ names →
      ∃ record, s.world.pending name = some (.whole record) := by
    rintro names rfl name hname
    obtain ⟨t, ht⟩ := Option.isSome_iff_exists.mp ((hfiles.2 name).mp hname)
    obtain ⟨record, rfl⟩ := h.whole ht
    exact ⟨record, ht⟩
  obtain ⟨records, hres, hperm⟩ := PendingMap.alone_list files hall answers out hexec hadm
  refine ⟨records, hres, ?_, fun record => ?_⟩
  · rw [(hperm.map _).nodup_iff, List.map_filterMap]
    have hnodup : (files.getD []).Nodup := by
      cases files with
      | none => exact List.nodup_nil
      | some names => exact hfiles.1
    refine hnodup.filterMap ?_
    intro f f' c hf hf'
    obtain ⟨record, hr, rfl⟩ := Option.map_eq_some_iff.mp hf
    obtain ⟨record', hr', hc⟩ := Option.map_eq_some_iff.mp hf'
    rw [h.listedAs_name hr, h.listedAs_name hr', hc]
  · rw [hperm.mem_iff, List.mem_filterMap]
    constructor
    · rintro ⟨f, -, hf⟩
      obtain ⟨name, -, hread⟩ := listedAs_eq_some.mp hf
      obtain ⟨c, -, hreg⟩ := h.refines.far.mp hread
      exact ⟨c, hreg⟩
    · rintro ⟨c, hreg⟩
      have hread : readable (s.world.pending (PendingStore.fileName c)) = some record :=
        h.refines.far.mpr ⟨c, rfl, hreg⟩
      refine ⟨PendingStore.fileName c ++ PendingStore.jsonSuffix, ?_, by rw [listedAs_json, hread]⟩
      obtain ⟨saved, hfile, -⟩ := readable_eq_some.mp hread
      cases files with
      | none =>
        rw [hfiles] at hfile
        cases hfile
      | some names => exact (hfiles.2 _).mpr (by rw [hfile]; rfl)

/-- **A listing is right** exactly when no registered record loses anything in its file, since it
reads every record from there and never from memory. -/
theorem Inv.lists_iff (h : Inv s reg recent) (hfiles : Listing s.world.pending files) :
    Lists files s reg ↔ ∀ c record, reg c = some record → record.finite = true := by
  constructor
  · intro hlists c record hreg
    obtain ⟨answers, out, hexec, hadm⟩ := exec_total answerable (PendingStore.list files) s
    obtain ⟨records, hres, -, hmem⟩ := hlists answers out hexec hadm
    obtain ⟨records', hres', -, hmem'⟩ := h.alone_list hfiles answers out hexec hadm
    obtain rfl : records = records' := Except.ok.inj (hres.symm.trans hres')
    -- it is listed, and so it has been through a file
    obtain ⟨c', hc'⟩ := (hmem' record).mp ((hmem record).mpr ⟨c, hreg⟩)
    obtain ⟨saved, -, rfl⟩ := Option.map_eq_some_iff.mp hc'
    exact PendingUserOp.stored_eq_self_iff.mp saved.stored_stored
  · intro hfinite answers out hexec hadm
    obtain ⟨records, hres, hnodup, hmem⟩ := h.alone_list hfiles answers out hexec hadm
    refine ⟨records, hres, hnodup, fun record => (hmem record).trans ?_⟩
    refine exists_congr fun c => ?_
    rw [Cache.map_kept_iff.mpr fun saved hsaved =>
      PendingUserOp.stored_eq_self_iff.mpr (hfinite c saved hsaved)]

end Lists

/-! ## 6. A refused registration -/

/-- Every spelling of the record's commitment finds this very record. -/
def Held (record : PendingUserOp) (s : St) : Prop :=
  s.mem.memory.get? record.commitment = some record ∨
    s.mem.memory.get? record.commitment = none ∧ ∀ c, IsHex 32 c →
      toLowerCase c = record.commitment →
        readable (s.world.pending (PendingStore.fileName c)) = some record

/-- The file reads as it did, after so much of the record reached it. -/
def FileKept (record : PendingUserOp) (part : Effect) (w : Outside) : Prop :=
  match part with
  | .nothing => True
  | .torn => readable (w.pending (PendingStore.fileName record.commitment)) = none
  | .full => readable (w.pending (PendingStore.fileName record.commitment)) = some record.stored

theorem fileKept_iff {record : PendingUserOp} {part : Effect} {w : Outside} :
    filed record part w = readable (w.pending (PendingStore.fileName record.commitment)) ↔
      FileKept record part w := by
  cases part with
  | nothing => exact ⟨fun _ => trivial, fun _ => rfl⟩
  | torn => exact eq_comm
  | full => exact eq_comm

theorem held_iff {record : PendingUserOp} {s : St} (hlow : IsLowerHex 32 record.commitment) :
    (∀ c, IsHex 32 c → keys.key c = record.commitment →
        Cache.lookup keys (view s) c = some record) ↔ Held record s := by
  have hkey : keys.key record.commitment = record.commitment := hlow.toLowerCase_eq
  constructor
  · intro h
    cases hmem : s.mem.memory.get? record.commitment with
    | some held =>
      have hself := h _ hlow.isHex hkey
      have hnear : (view s).near (keys.key record.commitment) = some held := by
        rw [hkey]
        exact hmem
      rw [Cache.lookup_of_near hnear] at hself
      exact Or.inl (hmem.trans hself)
    | none =>
      refine Or.inr ⟨hmem, fun c hc hlower => ?_⟩
      have hfound := h c hc hlower
      have hnear : (view s).near (keys.key c) = none := by
        rw [show keys.key c = record.commitment from hlower]
        exact hmem
      rw [Cache.lookup_of_not_near hnear] at hfound
      exact hfound
  · rintro (hmem | ⟨hmem, hfiles⟩) c hc hlower
    · refine Cache.lookup_of_near ?_
      rw [hlower]
      exact hmem
    · rw [Cache.lookup_of_not_near (by rw [hlower]; exact hmem)]
      exact hfiles c hc hlower

/-- No lookup, now or after a restart, tells the two stores apart. -/
def Indistinct (s s' : St) : Prop :=
  ∀ c, IsHex 32 c → ∀ found, (Returns c s' found ↔ Returns c s found) ∧
    ∀ now, (Returns c (restarted now s') found ↔ Returns c (restarted now s) found)

theorem indistinct_iff {s s' : St} : Indistinct s s' ↔ ∀ c, IsHex 32 c →
    Cache.lookup keys (view s') c = Cache.lookup keys (view s) c ∧
      Cache.lookup keys (Cache.restart (view s')) c =
        Cache.lookup keys (Cache.restart (view s)) c := by
  unfold Indistinct
  simp only [returns_iff, view_restarted]
  refine forall₂_congr fun c _ => ⟨fun h => ?_, ?_⟩
  · exact ⟨((h _).1.mpr rfl), ((h _).2 0).mpr rfl⟩
  · rintro ⟨hnow, hlater⟩ found
    rw [hnow, hlater]
    exact ⟨Iff.rfl, fun _ => Iff.rfl⟩

theorem Stored.indistinct_iff {record : PendingUserOp} {s s' : St} {calls : List Exchange}
    {res : Except JsError Hex} (h : Stored record s calls res s')
    (hlow : IsLowerHex 32 record.commitment) :
    Indistinct s s' ↔ Held record s ∧ FileKept record (reached calls) s.world := by
  have hhome : ∃ c, IsHex 32 c ∧ keys.name c = keys.home record.commitment :=
    ⟨record.commitment, hlow.isHex, rfl⟩
  rw [PendingMap.indistinct_iff, h.view hlow,
    Cache.lookup_write_iff hlow (fun _ => valid_of_isHex) hhome, held_iff hlow]
  exact and_congr_right fun _ => fileKept_iff

end PendingMap

open PendingMap

namespace SamplePending

def commitment : Hex := hexPrefix ++ List.replicate 64 'a'

/-- The same commitment, as the memo of a payment writes it. -/
def shouted : Str := hexPrefix ++ List.replicate 64 'A'

def tables : ViemTables where
  hashes := [("0x01".toList, commitment)]

def options : Options where
  viem := tables.viem
  account := "0xef".toList
  assetManager := "0xaa".toList
  coreVaultAddress := "rVault".toList

def entry : Entry where
  userOpData := .str "0x01".toList
  personalAccount := .str "0xcd".toList
  nonce := .str "7".toList
  totalCallValue := .str "5".toList
  label := .str "pay".toList

/-- The entry under a commitment that is not its own. -/
def mislabelled : Entry := { entry with commitment := some (.str "0x02".toList) }

def record : PendingUserOp := entry.record "0x01".toList commitment 0

def fresh : St := ⟨Memory.boot 0, ⟨fun _ => none, fun _ => none, [], []⟩⟩

/-- The entry is in memory and on disk. -/
def stocked : St where
  mem := (Memory.boot 0).remember commitment record
  world := { fresh.world with
    pending := Function.update (fun _ => none) (PendingStore.fileName commitment)
      (some (.whole record)) }

theorem stocked_memory : stocked.mem.memory.get? record.commitment = some record := by
  have hget : ((Memory.boot 0).memory.set commitment record).get? commitment = some record := by
    rw [JsMap.get?_set, if_pos rfl]
  exact hget

theorem stocked_file :
    readable (stocked.world.pending (PendingStore.fileName record.commitment)) =
      some record.stored := by
  have hfile : Function.update (fun _ => none) (PendingStore.fileName commitment)
      (some (Text.whole record)) (PendingStore.fileName commitment) = some (.whole record) :=
    Function.update_self ..
  exact congrArg readable hfile

def noSpace : JsError := .error "ENOSPC: no space left on device".toList

theorem commitment_lower : IsLowerHex 32 commitment :=
  ⟨List.replicate 32 0xaa, rfl, by decide⟩

theorem tables_lawful : tables.viem.Lawful := by
  refine ViemTables.Consistent.lawful ⟨?_⟩
  intro p hp
  obtain rfl := List.mem_singleton.mp hp
  exact commitment_lower

/-- The entry was registered, and the store constructed again. -/
theorem registered_once : ∃ s reg, History options (restarted 1 s) reg (fun _ => false) ∧
    reg commitment = some record := by
  obtain ⟨answers, out, hexec, hadm⟩ :=
    exec_total answerable (PendingStore.register options entry) fresh
  have hstart : History options fresh (fun _ => none) fun _ => false := .start 0 fun _ => rfl
  refine ⟨out.st, _, (hstart.register entry hexec hadm).restart 1, ?_⟩
  have hrecord : admitted options entry fresh.mem.now = .ok record := rfl
  rw [Registry.register, hrecord]
  exact Function.update_self ..

end SamplePending

/-- **The store as a map**: after every sequence of registrations, lookups and restarts, a lookup
gives the latest registration of the commitment that is spelled exactly if there is none, or it was
made since the last restart, or it is found and lost nothing in its file.  It is found if the
spelling has no upper-case digit or the memory has the commitment, and what it can lose are
numbers that are not finite.  A listing, which only reads files, gives the latest registration of
each commitment exactly if none of them has such a number. -/
theorem store_refines_iff {o : Options} (hv : o.viem.Lawful) {s : St} {reg : Registry}
    {recent : Recent} (h : History o s reg recent) :
    (∀ c, IsHex 32 c → (Returns c s (reg (toLowerCase c)) ↔
      reg (toLowerCase c) = none ∨ recent (toLowerCase c) = true ∨
        (toLowerCase c = c ∨ s.mem.memory.has (toLowerCase c) = true) ∧
          ∀ record, reg (toLowerCase c) = some record → record.finite = true)) ∧
    ∀ files, Listing s.world.pending files →
      (Lists files s reg ↔ ∀ c record, reg c = some record → record.finite = true) := by
  have hinv := h.inv hv
  refine ⟨fun c hc => ?_, fun files hfiles => hinv.lists_iff hfiles⟩
  simp only [returns_iff, ← home_iff hc, ← PendingUserOp.stored_eq_self_iff]
  exact hinv.refines.lookup_iff (valid_of_isHex hc)

/-- After a restart the lower-case spelling finds what was registered. -/
theorem store_refines_restarted : ∃ s, Returns SamplePending.commitment s
    (some SamplePending.record) := by
  obtain ⟨s, reg, h, hreg⟩ := SamplePending.registered_once
  have hlow := SamplePending.commitment_lower
  have hfinite : ∀ record, reg (toLowerCase SamplePending.commitment) = some record →
      record.finite = true := by
    rw [hlow.toLowerCase_eq, hreg]
    rintro record ⟨⟩
    rfl
  have hfound := ((store_refines_iff SamplePending.tables_lawful h).1 _ hlow.isHex).mpr
    (Or.inr (Or.inr ⟨Or.inl hlow.toLowerCase_eq, hfinite⟩))
  rw [hlow.toLowerCase_eq, hreg] at hfound
  exact ⟨_, hfound⟩

/-- **The upper-case spelling finds nothing after a restart**, although the commitment is
registered: its file has the lower-case name, and the memory is empty. -/
theorem shouted_commitment_lost : ∃ s reg recent, History SamplePending.options s reg recent ∧
    IsHex 32 SamplePending.shouted ∧
    reg (toLowerCase SamplePending.shouted) = some SamplePending.record ∧
    Returns SamplePending.shouted s none := by
  obtain ⟨s, reg, h, hreg⟩ := SamplePending.registered_once
  have hshouted : IsHex 32 SamplePending.shouted :=
    ⟨List.replicate 64 'A', rfl, rfl, fun c hc => by rw [List.eq_of_mem_replicate hc]; decide⟩
  have hlower : toLowerCase SamplePending.shouted = SamplePending.commitment := by decide
  refine ⟨_, reg, _, h, hshouted, by rw [hlower, hreg], returns_iff.mpr ?_⟩
  have hinv := h.inv SamplePending.tables_lawful
  have hnear : (PendingMap.view (restarted 1 s)).near (keys.key SamplePending.shouted) = none := rfl
  cases hlook : Cache.lookup keys (PendingMap.view (restarted 1 s)) SamplePending.shouted with
  | none => rfl
  | some found =>
    rw [Cache.lookup_of_not_near hnear] at hlook
    have hname := (hinv.refines.far_name (valid_of_isHex hshouted) hlook).2
    exact absurd ((home_iff hshouted).mp hname) (by decide)

/-- **What a refused registration leaves behind**: nothing, exactly when its checks refused it, or
the store already served the very same record under every spelling and the failed write left the
file reading as it did. -/
theorem refused_leaves_no_trace_iff {o : Options} (hv : o.viem.Lawful) {s : St} {entry : Entry}
    {answers : List (Choice × Int)} {out : Async.Outcome sig world Int Hex} {e : JsError}
    (hexec : exec clockTo (PendingStore.register o entry) answers s = some out)
    (_ : out.res = .error e) :
    Indistinct s out.st ↔ ∀ record, admitted o entry s.mem.now = .ok record →
      PendingMap.Held record s ∧ FileKept record (reached out.calls) s.world := by
  have hpost := alone_register o entry _ _ hexec fun _ _ => trivial
  unfold Registered at hpost
  cases hadm : admitted o entry s.mem.now with
  | error e' =>
    rw [hadm] at hpost
    rw [hpost.2]
    constructor
    · rintro - record ⟨⟩
    · intro _ c _ found
      exact ⟨Iff.rfl, fun _ => Iff.rfl⟩
  | ok record =>
    rw [hadm] at hpost
    simpa using hpost.indistinct_iff (admitted_shape hv hadm)

/-- The same registration comes a second time, at the same time, and its write is rejected after the
last byte: nothing of it can be seen.  Nor can anything be seen of one under another commitment. -/
theorem refused_leaves_no_trace_again :
    (∃ out, exec (W := world) clockTo
        (PendingStore.register SamplePending.options SamplePending.entry)
        [(.done, 0), (.fail SamplePending.noSpace .full, 0)] SamplePending.stocked = some out ∧
      out.res = .error SamplePending.noSpace ∧ reached out.calls = .full ∧
      Indistinct SamplePending.stocked out.st) ∧
    ∃ out e, exec (W := world) clockTo
        (PendingStore.register SamplePending.options SamplePending.mislabelled) []
        SamplePending.fresh = some out ∧ out.res = .error e ∧
      Indistinct SamplePending.fresh out.st := by
  constructor
  · obtain ⟨out, hexec⟩ : ∃ out, exec (W := world) clockTo
        (PendingStore.register SamplePending.options SamplePending.entry)
        [(.done, 0), (.fail SamplePending.noSpace .full, 0)] SamplePending.stocked = some out :=
      ⟨_, rfl⟩
    have hout : out.res = .error SamplePending.noSpace ∧ reached out.calls = .full := by
      cases hexec
      exact ⟨rfl, rfl⟩
    refine ⟨out, hexec, hout.1, hout.2, ?_⟩
    refine (refused_leaves_no_trace_iff SamplePending.tables_lawful hexec hout.1).mpr ?_
    intro record hrecord
    obtain rfl : SamplePending.record = record := Except.ok.inj hrecord
    rw [hout.2]
    exact ⟨Or.inl SamplePending.stocked_memory, SamplePending.stocked_file⟩
  · obtain ⟨out, hexec⟩ : ∃ out, exec (W := world) clockTo
        (PendingStore.register SamplePending.options SamplePending.mislabelled) []
        SamplePending.fresh = some out := ⟨_, rfl⟩
    have herr : ∃ e, out.res = .error e := by
      cases hexec
      exact ⟨_, rfl⟩
    obtain ⟨e, herr⟩ := herr
    refine ⟨out, e, hexec, herr, ?_⟩
    refine (refused_leaves_no_trace_iff SamplePending.tables_lawful hexec herr).mpr ?_
    rintro record ⟨⟩

/-- **The directory cannot be made**: the caller is told so, and the store serves the record. -/
theorem failed_registration_is_served : ∃ out,
    exec (W := world) clockTo (PendingStore.register SamplePending.options SamplePending.entry)
      [(.fail SamplePending.noSpace .nothing, 0)] SamplePending.fresh = some out ∧
    out.res = .error SamplePending.noSpace ∧
    Returns SamplePending.commitment SamplePending.fresh none ∧
    Returns SamplePending.commitment out.st (some SamplePending.record) := by
  refine ⟨_, rfl, rfl, returns_iff.mpr rfl, returns_iff.mpr ?_⟩
  rfl

end OneSig.Executor
