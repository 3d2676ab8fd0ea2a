/-
# Nobody can make the executor submit bytes the payer did not commit to

Anyone may register an operation, and a web page prepares one through the same server.  What
protects the payer is the memo: `register` hashes the bytes and refuses them when the hash is not
the commitment they are registered under, the watcher reads the commitment out of the memo of a
payment, and a job is created with the record that is found under it.  From there on the bytes
travel through the job, its file and the call of the contract.

The executor's state directories are written by the executor alone, so a run starts with both
empty.  Along every run, whatever is registered by whom, however ticks and requests interleave,
whichever writes fail and whenever the process is restarted, a broadcast mint carries the bytes
whose hash stands in the memo of the payment it is for (`broadcast_bytes_committed`).

The argument is an invariant over everything that holds bytes.  `Provenance` (in `Provenance`)
says of the map, the files and the jobs that each holds bytes with a property that registration
has checked; here the property is `Verified`, that the hash of the bytes is the commitment, and a
page of the ledger is asked to show one transaction under one hash (`HashDetermines`).
`provenance_run` is general in both, so that the results about values can use it too.

* `provenance_run`: the invariant along every run whose registrations are admitted.
* `MadeFrom.commitment_eq`: a job made from a record has the commitment its payment was looked up
  for.
* section 3: a run from the registration to the mint, which the other modules reuse as a sample.
-/
import OneSig.Executor.Provenance

namespace OneSig.Executor

open OneSig Async ExecutorService

/-! ## 1. Runs of the service -/

/-- Empty state directories, no transaction sent, and a ledger. -/
def Outside.fresh (history : List AccountTxEntry) : Outside where
  pending := fun _ => none
  jobs := fun _ => none
  chain := []
  history := history

/-- The service before anything has happened. -/
def Sys.fresh (o : Options) (now : Int) (history : List AccountTxEntry) : Sys o :=
  ⟨Memory.boot now, .fresh history, []⟩

/-- Anything can happen next; the answers satisfy a condition. -/
def Answers {o : Options} (ok : Choice → Prop) (e : Event o) (_ : Sys o) : Prop :=
  match e with
  | .perform _ c => ok c
  | _ => True

theorem provenance_fresh (R : PendingUserOp → Prop) (L : Hex → Hex → Prop) (now : Int)
    (history : List AccountTxEntry) : Provenance R L ⟨Memory.boot now, .fresh history⟩ := by
  refine ⟨?_, ?_, ?_, ?_, ?_⟩ <;> simp [Memory.boot, Outside.fresh]

/-- **Provenance along runs.**  In a service over empty directories, everything that holds bytes
got them from a registration that was admitted, as long as nothing else is registered. -/
theorem provenance_run {o : Options} (hv : o.viem.Lawful) {R : PendingUserOp → Prop}
    (hR : Lasting R) {L : Hex → Hex → Prop} {A : PreparedForWeb → Prop}
    (hA : ∀ prepared, A prepared → EntryAdmitted o.viem R (preparedEntry prepared))
    {ok : Event o → Sys o → Prop} (hanswer : ∀ e s, ok e s → Answers (AnswerOk L A) e s)
    (hspawn : ∀ l s, ok (.spawn l) s → LabelOk o.viem R l) {now : Int}
    {history : List AccountTxEntry} {s : Sys o} (hrun : Run ok (Sys.fresh o now history) s) :
    Provenance R L s.st := by
  have h₀ : Provenance R L (Sys.fresh o now history).st :=
    provenance_fresh R L now history
  refine Discipline.ofInv_run (preserves_code hv hR hA) ?_ rfl h₀ hrun
  intro e s hok
  cases e with
  | spawn l => exact ⟨fun h => h.elim, fun _ _ => hspawn l s hok⟩
  | perform i c => exact fun _ _ _ _ => hanswer _ s hok
  | disturb i => trivial
  | resume i => trivial
  | outside x =>
    refine fun hi => ⟨?_, fun _ _ _ => trivial, fun _ _ => trivial⟩
    cases x with
    | clock t => exact ⟨hi.memory, hi.pending, hi.heap, hi.jobs, hi.chain⟩
    | validated entry => exact ⟨hi.memory, hi.pending, hi.heap, hi.jobs, hi.chain⟩
  | crash =>
    refine fun hi => ⟨⟨?_, hi.pending, ?_, hi.jobs, hi.chain⟩, fun _ => trivial⟩
    · simp [machine, Memory.boot]
    · simp [machine, Memory.boot]

/-! ## 2. The binding -/

/-- What every registration verifies. -/
def Verified (viem : Viem) (record : PendingUserOp) : Prop :=
  viem.keccak256 record.userOpData = .ok record.commitment

/-- The hash and the bytes come back as they were. -/
theorem lasting_verified (viem : Viem) : Lasting (Verified viem) := fun _ h => h

theorem entryAdmitted_verified (viem : Viem) (entry : Entry) :
    EntryAdmitted viem (Verified viem) entry :=
  fun _ _ _ _ hhash _ => hhash

/-- The commitment of a record is the one in the payment it was looked up for. -/
theorem MadeFrom.commitment_eq {viem : Viem} (hv : viem.Lawful) {L : Hex → Hex → Prop}
    {xrplTxId : Hex} {record : PendingUserOp} (h : MadeFrom L xrplTxId record)
    (hr : Verified viem record) : L xrplTxId record.commitment := by
  obtain ⟨commitment, hlink, hshape, hlow⟩ := h.committed
  rw [(hv.keccak256_shape _ _ hr).toLowerCase_eq, hshape.toLowerCase_eq] at hlow
  rwa [hlow]

/-- A transaction hash determines its transaction: a page shows each under its own memos. -/
def HashDetermines (ledger : Hex → XrplTx) : Choice → Prop
  | .transactions (.result (some entries)) => ∀ entry ∈ entries, ∀ tx hash id,
    (entry.tx_json.orElse fun _ => entry.tx) = some tx →
      (entry.hash.orElse fun _ => tx.hash) = some hash → normalizeXrplTxId hash = .ok id →
      tx.memos = (ledger id).memos
  | _ => True

/-- The commitment carried by the transaction of an id. -/
def Carries (ledger : Hex → XrplTx) (id commitment : Hex) : Prop :=
  commitmentFromMemos (ledger id) = some commitment

theorem HashDetermines.answerOk {ledger : Hex → XrplTx} {c : Choice}
    (h : HashDetermines ledger c) : AnswerOk (Carries ledger) (fun _ => True) c := by
  unfold AnswerOk
  split
  · intro entry he tx hash id commitment htx hhash hid hcom
    have hmemos := h entry he tx hash id htx hhash hid
    unfold Carries commitmentFromMemos
    rw [← hmemos]
    exact hcom
  · trivial
  · trivial

/-- **Commitment binding.**  In every state of every run, each mint broadcast so far carries the
bytes whose hash the memos of its payment commit to. -/
theorem broadcast_bytes_committed {o : Options} (hv : o.viem.Lawful) (ledger : Hex → XrplTx)
    {now : Int} {history : List AccountTxEntry} {s : Sys o}
    (hrun : Run (Answers (HashDetermines ledger)) (Sys.fresh o now history) s) :
    ∀ xrplTxId proof userOpData value,
      .executeDirectMintingWithData xrplTxId proof userOpData value ∈ s.world.chain →
      ∃ commitment, commitmentFromMemos (ledger xrplTxId) = some commitment ∧
        o.viem.keccak256 userOpData = .ok commitment ∧ IsLowerHex 32 commitment := by
  have hprov : Provenance (Verified o.viem) (Carries ledger) s.st := by
    refine provenance_run (A := fun _ => True) hv (lasting_verified _) (fun _ _ => entryAdmitted_verified _ _) ?_ ?_ hrun
    · intro e s hok
      cases e with
      | perform i c => exact HashDetermines.answerOk hok
      | _ => trivial
    · intro l _ _
      cases l with
      | register body => exact fun _ _ => entryAdmitted_verified _ _
      | _ => trivial
  intro xrplTxId proof userOpData value hmem
  obtain ⟨record, hR, hfrom, rfl, -⟩ := hprov.chain _ hmem
  have hcom := hfrom.commitment_eq hv hR
  exact ⟨record.commitment, hcom, hR, commitmentFromMemos_shape hcom⟩

/-! ## 3. A run from the registration to the mint -/

namespace Sample

/-- A payment whose memo commits to an operation. -/
def payment (hash : Str) (ledgerIndex : Int) (commitment : Hex) : AccountTxEntry where
  hash := some hash
  ledger_index := some ledgerIndex
  validated := some true
  tx_json := some {
    transactionType := some "Payment".toList
    memos := some (.arr [Json.obj [("Memo".toList, Json.obj [("MemoData".toList,
      .str ("FE000000000000000000".toList ++ toUpperCase (commitment.drop 2)))])]])
    amount := some (.drops "1000000".toList) }

/-- The body of a registration. -/
def body (userOpData totalCallValue : Str) : Json :=
  Json.obj [("userOpData".toList, .str userOpData),
    ("personalAccount".toList, .str "0xcdcdcdcdcdcdcdcdcdcdcdcdcdcdcdcdcdcdcdcd".toList),
    ("nonce".toList, .str "7".toList), ("totalCallValue".toList, .str totalCallValue),
    ("label".toList, .str "pay".toList)]

def options (tables : ViemTables) : Options where
  viem := tables.viem
  account := "0xefefefefefefefefefefefefefefefefefefefef".toList
  assetManager := "0xaaaaaaaaaaaaaaaaaaaaaaaaaaaaaaaaaaaaaaaa".toList
  coreVaultAddress := "rVault".toList

section Events

variable {o : Options} (i : Nat)

/-- A task is answered again and again, and runs on after each answer. -/
def answers (cs : List Choice) : List (Event o) :=
  cs.flatMap fun c => [.perform i c, .resume i]

/-- Start the task with number `i` and answer it. -/
def task (l : Label) (cs : List Choice) : List (Event o) :=
  [.spawn l, .resume i] ++ answers i cs

/-- A tick whose poll is answered with a page, up to the start of its walk. -/
def tickOn (page : List AccountTxEntry) (cs : List Choice) : List (Event o) :=
  task i .tick (.transactions (.result (some page)) :: cs)

/-- The walk over one live job, whose step is answered. -/
def walkOne (cs : List Choice) : List (Event o) :=
  [.resume i, .resume i] ++ answers i cs ++ [.resume i]

end Events

def address : Choice := .address "0xbbbbbbbbbbbbbbbbbbbbbbbbbbbbbbbbbbbbbbbb".toList

def txHash : Choice := .hex "0xcc".toList

def receipt : Choice := .receipt ⟨false, 1, []⟩

/-- The answers to the five steps of a job, each with its save. -/
def preparing : List Choice :=
  [.verifier ⟨true, 200, [], some { abiEncodedRequest := some "0x08".toList }⟩, .done, .done]

def submitting : List Choice :=
  [address, address, .nat 10, txHash, receipt, .nat 1000, address, .nat 100, .nat 90, .done, .done]

def finalizing : List Choice := [address, address, .nat 200, .bool true, .done, .done]

def proof : Choice :=
  .daLayer ⟨true, 200, [], some { response_hex := some "0x09".toList, proof := some [] }⟩

def fetching : List Choice := [proof, .done, .done]

def minting : List Choice := [proof, txHash, receipt, .done, .done]

/-- The files of a new job: none to load, and one to write. -/
def creating : List Choice := [.done, .done, .done]

/-- A job is created from a page and driven through all five steps, a tick each. -/
def driven {o : Options} (i : Nat) (page : List AccountTxEntry) : List (Event o) :=
  (tickOn i page creating ++ walkOne i preparing) ++
    (tickOn (i + 1) [] [] ++ walkOne (i + 1) submitting) ++
    (tickOn (i + 2) [] [] ++ walkOne (i + 2) finalizing) ++
    (tickOn (i + 3) [] [] ++ walkOne (i + 3) fetching) ++
    (tickOn (i + 4) [] [] ++ walkOne (i + 4) minting)

/-- Events that are allowed in any state. -/
def AllOk {o : Options} (ok : Event o → Sys o → Prop) (es : List (Event o)) : Prop :=
  ∀ e ∈ es, ∀ s, ok e s

section AllOk

variable {o : Options} {ok : Event o → Sys o → Prop} {i : Nat} {cs : List Choice}

/-- Resuming is allowed, and so is every answer but those the condition speaks of. -/
structure Lenient (ok : Event o → Sys o → Prop) : Prop where
  resume : ∀ i s, ok (.resume i) s
  tick : ∀ s, ok (.spawn .tick) s
  perform : ∀ i c s, (∀ page, c = .transactions (.result (some page)) → page = []) →
    (∀ p, c ≠ .prepared p) → ok (.perform i c) s

theorem AllOk.append {es es' : List (Event o)} (h : AllOk ok es) (h' : AllOk ok es') :
    AllOk ok (es ++ es') := by
  intro e he
  rcases List.mem_append.mp he with h₁ | h₁
  · exact h e h₁
  · exact h' e h₁

variable (hl : Lenient ok)

include hl

theorem answers_ok (h : ∀ c ∈ cs, ∀ s, ok (.perform i c) s) : AllOk ok (answers i cs) := by
  intro e he s
  obtain ⟨c, hc, he⟩ := List.mem_flatMap.mp he
  rcases List.mem_pair.mp he with rfl | rfl
  · exact h c hc s
  · exact hl.resume i s

theorem task_ok {l : Label} (hspawn : ∀ s, ok (.spawn l) s)
    (h : ∀ c ∈ cs, ∀ s, ok (.perform i c) s) : AllOk ok (task i l cs) := by
  refine AllOk.append ?_ (answers_ok hl h)
  intro e he s
  rcases List.mem_pair.mp he with rfl | rfl
  · exact hspawn s
  · exact hl.resume i s

theorem walkOne_ok (h : ∀ c ∈ cs, ∀ s, ok (.perform i c) s) : AllOk ok (walkOne i cs) := by
  refine (AllOk.append ?_ (answers_ok hl h)).append ?_
  · intro e he s
    rcases List.mem_pair.mp he with rfl | rfl <;> exact hl.resume i s
  · intro e he s
    rw [List.mem_singleton.mp he]
    exact hl.resume i s

theorem tickOn_ok {page : List AccountTxEntry}
    (hpage : ∀ s, ok (.perform i (.transactions (.result (some page)))) s)
    (h : ∀ c ∈ cs, ∀ s, ok (.perform i c) s) : AllOk ok (tickOn i page cs) := by
  refine task_ok hl hl.tick fun c hc => ?_
  rcases List.mem_cons.mp hc with rfl | hc
  · exact hpage
  · exact h c hc

theorem driven_ok {page : List AccountTxEntry}
    (hpage : ∀ s, ok (.perform i (.transactions (.result (some page)))) s) :
    AllOk ok (driven i page) := by
  have hplain : ∀ cs : List Choice, (∀ c ∈ cs, (∀ r, c ≠ .transactions r) ∧ ∀ p, c ≠ .prepared p) →
      ∀ i, ∀ c ∈ cs, ∀ s, ok (.perform i c) s := by
    intro cs hcs i c hc s
    exact hl.perform i c s (fun page h => absurd h ((hcs c hc).1 _)) (hcs c hc).2
  have hpoll : ∀ i, AllOk ok (tickOn i [] []) := by
    intro i
    refine tickOn_ok hl (fun s => hl.perform i _ s ?_ (by simp)) (by simp)
    rintro page ⟨⟩
    rfl
  refine ((((tickOn_ok hl hpage (hplain _ ?_ _)).append (walkOne_ok hl (hplain _ ?_ _))).append
    ((hpoll _).append (walkOne_ok hl (hplain _ ?_ _)))).append
    ((hpoll _).append (walkOne_ok hl (hplain _ ?_ _)))).append
    ((hpoll _).append (walkOne_ok hl (hplain _ ?_ _))) |>.append
    ((hpoll _).append (walkOne_ok hl (hplain _ ?_ _)))
  · simp [creating]
  · simp [preparing]
  · simp [submitting, address, txHash, receipt]
  · simp [finalizing, address]
  · simp [fetching, proof]
  · simp [minting, proof, txHash, receipt]

end AllOk

/-- The bytes `0x01`, registered with the value 5 and paid for in ledger 10. -/
def userOpData : Str := "0x01".toList

def commitment : Hex :=
  "0x5fe7f977e71dba2ea1a68e21057beebb9be2ac30c6410aa38d4f3fbe41dcffd2".toList

def txId : Str := List.replicate 64 'A'

def tables : ViemTables where
  hashes := [(userOpData, commitment)]

theorem tables_consistent : tables.Consistent where
  hashes := by
    intro p hp
    rw [List.mem_singleton.mp hp]
    exact ⟨(Bytes.hexDecode (commitment.drop 2)).getD [], by decide, by decide⟩

/-- Registered, observed, and driven through all five steps. -/
def wholeRun : List (Event (options tables)) :=
  task 0 (.register (body userOpData "5".toList)) [.done, .done] ++
    driven 1 [payment txId 10 commitment]

/-- The ledger in which every hash is that of the payment. -/
def ledger (_ : Hex) : XrplTx :=
  ((payment txId 10 commitment).tx_json).getD { transactionType := none, memos := none }

theorem lenient_hashDetermines {o : Options} (ledger : Hex → XrplTx) :
    Lenient (o := o) (Answers (HashDetermines ledger)) where
  resume := fun _ _ => trivial
  tick := fun _ => trivial
  perform := by
    rintro i c s hpage -
    cases c with
    | transactions r =>
      rcases r with _ | _ | _ | (_ | page)
      · trivial
      · trivial
      · trivial
      · trivial
      · rw [hpage page rfl]
        exact fun entry he => absurd he (by simp)
    | _ => trivial

theorem wholeRun_ok : AllOk (Answers (HashDetermines ledger)) wholeRun := by
  refine AllOk.append (task_ok (lenient_hashDetermines ledger) (fun _ => trivial) ?_)
    (driven_ok (lenient_hashDetermines ledger) fun _ => ?_)
  · intro c hc s
    rcases List.mem_pair.mp hc with rfl | rfl <;> trivial
  · intro entry he tx hash id htx _ _
    rw [List.mem_singleton.mp he] at htx
    cases htx
    rfl

end Sample

theorem broadcast_bytes_committed_wholeRun :
    ∃ s : Sys (Sample.options Sample.tables), s.world.chain.length = 2 ∧
      ∀ xrplTxId proof userOpData value,
        .executeDirectMintingWithData xrplTxId proof userOpData value ∈ s.world.chain →
        ∃ commitment, commitmentFromMemos (Sample.ledger xrplTxId) = some commitment ∧
          (Sample.options Sample.tables).viem.keccak256 userOpData = .ok commitment ∧
          IsLowerHex 32 commitment := by
  have hrun : ((Sys.run Sample.wholeRun (Sys.fresh _ 0 [])).map fun s => s.world.chain.length)
      = some 2 := by decide +kernel
  obtain ⟨s, hs, hlen⟩ := Option.map_eq_some_iff.mp hrun
  exact ⟨s, hlen, broadcast_bytes_committed Sample.tables_consistent.lawful Sample.ledger
    (Run.of_run _ Sample.wholeRun_ok hs)⟩

end OneSig.Executor
