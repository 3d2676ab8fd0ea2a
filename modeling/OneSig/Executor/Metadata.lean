/-
# What travels beside the bytes

Only `userOpData` is hashed.  The value to forward, the nonce and the account are fields of the
registration that nobody checks against the bytes, and a later registration of the same bytes
replaces the whole record, whoever makes it.  So the executor forwards the sum of the call values
exactly as long as nobody registers the bytes with anything else.

Section 1 proves that along every run (`forwarded_value_faithful`).  `Faithful` says of three
fields that they are the sender, the nonce and the value that the operation was prepared with; a
registration of the operation is faithful when the fields it supplies are.  That nobody makes
another one is a condition on the events of the run, over both endpoints, and the conclusion
covers what is forwarded, what is stored in memory and on disk, and what is in the jobs.  After a
restart the record comes back from its file: a faithful one comes back faithful, since its account
is a text and its two numbers convert to what they did (`lasting_faithful`).

The invariant is `Provenance` again, now with the property that a record which has this hash is
faithful; the runs are those of `Binding`.

Section 2 shows the run in which a third party changes the value: the bytes are registered again
with the value 999 before the payment is observed, and 999 is forwarded for them
(`later_registration_changes_value`).
-/
import OneSig.Executor.Binding
import OneSig.Sdk.UserOp

namespace OneSig.Executor

open OneSig Async ExecutorService

/-! ## 1. Faithful registrations -/

/-- Three fields that say what is encoded in the operation beside them. -/
structure Faithful (sender : Address) (nonce : Int) (calls : List Call)
    (personalAccount nonceField totalField : Json) : Prop where
  personalAccount : ∃ pa, personalAccount = .str pa ∧ toLowerCase pa = toLowerCase sender
  nonce : bigInt nonceField = .ok nonce
  totalCallValue : bigInt totalField = .ok (totalCallValue calls)

section Faithful

variable (viem : Viem) (userOpHash : Hex) (sender : Address) (nonce : Int) (calls : List Call)

/-- A record of the operation with this hash is faithful. -/
def RecordFaithful (record : PendingUserOp) : Prop :=
  record.commitment = userOpHash →
    Faithful sender nonce calls record.personalAccount record.nonce record.totalCallValue

/-- An entry the store accepts for the operation with this hash is faithful. -/
def EntryFaithful (entry : Entry) : Prop :=
  ∀ data, entry.userOpData = .str data → viem.keccak256 data = .ok userOpHash →
    checkCommitment entry.commitment userOpHash = .ok () →
    Faithful sender nonce calls entry.personalAccount entry.nonce entry.totalCallValue

/-- Nobody registers the operation with other metadata, over either endpoint. -/
def RegistersFaithfully {o : Options} (e : Event o) (_ : Sys o) : Prop :=
  match e with
  | .spawn (.register body) => ∀ entry, registerEntry body = some entry →
      EntryFaithful o.viem userOpHash sender nonce calls entry
  | .perform _ (.prepared prepared) =>
      EntryFaithful o.viem userOpHash sender nonce calls (preparedEntry prepared)
  | _ => True

variable {viem userOpHash sender nonce calls}

/-- What the file of a faithful record gives back is faithful: its account is text, and its two
numbers convert as they did. -/
theorem lasting_faithful : Lasting fun record => Verified viem record ∧
    RecordFaithful userOpHash sender nonce calls record := by
  rintro record ⟨hverified, hfaithful⟩
  refine ⟨hverified, fun hcommitment => ?_⟩
  obtain ⟨⟨pa, hpa, hsender⟩, hnonce, htotal⟩ := hfaithful hcommitment
  exact ⟨⟨pa, congrArg Json.stored hpa, hsender⟩, Json.bigInt_stored hnonce,
    Json.bigInt_stored htotal⟩

theorem EntryFaithful.admitted {entry : Entry}
    (h : EntryFaithful viem userOpHash sender nonce calls entry) :
    EntryAdmitted viem (fun record => Verified viem record ∧
      RecordFaithful userOpHash sender nonce calls record) entry := by
  intro data commitment now hdata hhash hcheck
  refine ⟨hhash, ?_⟩
  rintro rfl
  exact h data hdata hhash hcheck

end Faithful

/-- **The metadata stays bound to the bytes** in every run in which the operation is only ever
registered faithfully: whatever is forwarded for it is the sum of its call values, and every
record and every job of it has its sender and its nonce. -/
theorem forwarded_value_faithful {o : Options} (hv : o.viem.Lawful) {sender : Address}
    {nonce : Int} {calls : List Call} {p : PreparedUserOp}
    (hp : prepareUserOp o.viem sender nonce calls = .ok p) {now : Int}
    {history : List AccountTxEntry} {s : Sys o}
    (hrun : Run (RegistersFaithfully p.userOpHash sender nonce calls)
      (Sys.fresh o now history) s) :
    (∀ xrplTxId proof userOpData value,
      .executeDirectMintingWithData xrplTxId proof userOpData value ∈ s.world.chain →
      o.viem.keccak256 userOpData = o.viem.keccak256 p.userOpData → value = totalCallValue calls) ∧
    (∀ key record, (key, record) ∈ s.mem.memory.pairs ∨
        s.world.pending key = some (.whole record) →
      RecordFaithful p.userOpHash sender nonce calls record) ∧
    (∀ job ∈ s.mem.heap, o.viem.keccak256 job.userOpData = o.viem.keccak256 p.userOpData →
      job.totalCallValue = totalCallValue calls ∧ job.nonce = nonce ∧
        ∃ pa, job.personalAccount = .str pa ∧ toLowerCase pa = toLowerCase sender) := by
  have hprov : Provenance (fun record => Verified o.viem record ∧
      RecordFaithful p.userOpHash sender nonce calls record) (fun _ _ => True) s.st := by
    refine provenance_run hv lasting_faithful (fun _ h => EntryFaithful.admitted h) ?_ ?_ hrun
    · intro e s hok
      cases e with
      | perform i c =>
        cases c with
        | transactions r =>
          rcases r with _ | _ | _ | (_ | entries)
          · trivial
          · trivial
          · trivial
          · trivial
          · exact fun _ _ _ _ _ _ _ _ _ _ => trivial
        | prepared prepared => exact hok
        | _ => trivial
      | _ => trivial
    · intro l s hok
      cases l with
      | register body => exact fun entry he => (hok entry he).admitted
      | _ => trivial
  obtain ⟨-, -, hash, -, -⟩ := prepareUserOp_ok hp
  rw [hash]
  refine ⟨?_, ?_, ?_⟩
  · intro xrplTxId proof userOpData value hmem hhash
    obtain ⟨record, ⟨hR, hfaith⟩, -, rfl, hval⟩ := hprov.chain _ hmem
    have hcom : record.commitment = p.userOpHash := Except.ok.inj (hR.symm.trans hhash)
    exact Except.ok.inj (hval.symm.trans (hfaith hcom).totalCallValue)
  · rintro key record (hmem | hfile)
    · exact (hprov.memory _ hmem).2.2
    · exact (hprov.pending _ _ hfile).2.2
  · intro job hjob hhash
    obtain ⟨record, ⟨hR, hfaith⟩, -, hdata, hpa, hval, hnonce⟩ := hprov.heap job hjob
    have hcom : record.commitment = p.userOpHash := by
      rw [hdata] at hhash
      exact Except.ok.inj (hR.symm.trans hhash)
    obtain ⟨hfpa, hfnonce, hfval⟩ := hfaith hcom
    refine ⟨Except.ok.inj (hval.symm.trans hfval), Except.ok.inj (hnonce.symm.trans hfnonce), ?_⟩
    rw [hpa]
    exact hfpa

namespace Sample

/-- Register the sample operation with the sum of its call values, and drive it to the mint. -/
def faithfulRun : List (Event (options SampleOp.tables)) :=
  task 0 (.register (body SampleOp.userOpData "5".toList)) [.done, .done] ++
    driven 1 [payment txId 10 SampleOp.userOpHash]

theorem lenient_registersFaithfully {o : Options} (userOpHash : Hex) (sender : Address)
    (nonce : Int) (calls : List Call) :
    Lenient (o := o) (RegistersFaithfully userOpHash sender nonce calls) where
  resume := fun _ _ => trivial
  tick := fun _ => trivial
  perform := by
    rintro i c s - hp
    cases c with
    | prepared p => exact absurd rfl (hp p)
    | _ => trivial

theorem faithfulRun_ok :
    AllOk (RegistersFaithfully SampleOp.userOpHash SampleOp.sender 7 SampleOp.calls)
      faithfulRun := by
  have hl := lenient_registersFaithfully (o := options SampleOp.tables) SampleOp.userOpHash
    SampleOp.sender 7 SampleOp.calls
  refine AllOk.append (task_ok hl ?_ ?_) (driven_ok hl fun _ => trivial)
  · rintro s entry hentry data - - -
    cases hentry
    exact ⟨⟨_, rfl, rfl⟩, by decide, by decide⟩
  · intro c hc s
    rcases List.mem_pair.mp hc with rfl | rfl <;> trivial

end Sample

theorem forwarded_value_faithful_sample :
    ∃ s : Sys (Sample.options SampleOp.tables), s.world.chain.length = 2 ∧
      (∀ xrplTxId proof userOpData value,
        .executeDirectMintingWithData xrplTxId proof userOpData value ∈ s.world.chain →
        SampleOp.tables.viem.keccak256 userOpData =
          SampleOp.tables.viem.keccak256 SampleOp.userOpData →
        value = totalCallValue SampleOp.calls) := by
  have hrun : ((Sys.run Sample.faithfulRun (Sys.fresh _ 0 [])).map fun s => s.world.chain.length)
      = some 2 := by decide +kernel
  obtain ⟨s, hs, hlen⟩ := Option.map_eq_some_iff.mp hrun
  exact ⟨s, hlen, (forwarded_value_faithful (o := Sample.options SampleOp.tables)
    SampleOp.tables_consistent.lawful SampleOp.prepare_eq
    (Run.of_run _ Sample.faithfulRun_ok hs)).1⟩

/-! ## 2. A later registration -/

/-- The same bytes are registered again, with the value 999, before the payment is observed. -/
def Sample.takeoverRun : List (Event (Sample.options SampleOp.tables)) :=
  Sample.task 0 (.register (Sample.body SampleOp.userOpData "5".toList)) [.done, .done] ++
    Sample.task 1 (.register (Sample.body SampleOp.userOpData "999".toList)) [.done, .done] ++
    Sample.driven 2 [Sample.payment Sample.txId 10 SampleOp.userOpHash]

/-- **A third party changes what is forwarded**: the operation was built by `prepareUserOp` and
first registered with the sum of its call values, and 999 is forwarded for it. -/
theorem later_registration_changes_value :
    prepareUserOp SampleOp.tables.viem SampleOp.sender 7 SampleOp.calls =
        .ok ⟨SampleOp.userOp, SampleOp.userOpData, SampleOp.userOpHash⟩ ∧
      totalCallValue SampleOp.calls = 5 ∧
      (Sys.run Sample.takeoverRun (Sys.fresh _ 0 [])).map (fun s => s.world.chain) =
        some [.requestAttestation Sample.txId (some "0x08".toList) 10,
          .executeDirectMintingWithData (hexPrefix ++ Sample.txId)
            { merkleProof := [], data := "0x09".toList } SampleOp.userOpData 999] :=
  ⟨SampleOp.prepare_eq, by decide, by decide +kernel⟩

end OneSig.Executor
