/-
# The two registration endpoints

`POST /register` and `POST /prepare` both end in a registration: the first with the fields of its
body, the second with what `prepare` has computed for them.  Either checks the bytes against the
claimed commitment, puts a record in the store's memory and writes its file; it touches nothing
else.  Whatever is shown of the service along its runs, the same is needed of these requests: that
they keep an invariant which admits the records they make.

`EntryAdmitted` is the condition on what is registered: if the checks accept it, the record that
is made has the property `R`.  `Registers` is what a specification has to allow so that a request
can run beside everything else: a record with that property may be put in memory under its own
commitment and be written to its file, wholly or in part, and reading changes nothing.  A write of
which only a part takes effect leaves a file that does not parse, which is no record.

`register` normalises the bytes and the commitment before it compares them, and rejects with the
errors of viem when a field is not of the type that `keccak256` takes.  `keccak256_ok` says which
fields get through: texts, with the hash of the bytes they spell.

* `Registers`: what has to be checked of a specification, instantiated in `Provenance`, `Intake`
  and `Overlap`.
* `keeps_read`: reading keeps any invariant, so what an endpoint awaits beside its write needs no
  check.
-/
import OneSig.Executor.Service

namespace OneSig.Executor

open OneSig Async ExecutorService

/-- `keccak256` of a field that is accepted is that of its text. -/
theorem keccak256_ok {viem : Viem} {v : Json} {data : Str} {commitment : Hex}
    (h : keccak256 viem v = .ok (data, commitment)) :
    v = .str data ∧ viem.keccak256 data = .ok commitment := by
  cases v with
  | str s =>
    simp only [keccak256] at h
    cases hk : viem.keccak256 s with
    | error e => rw [hk] at h; simp [Except.map] at h
    | ok c =>
      rw [hk] at h
      simp only [Except.map, Except.ok.injEq, Prod.mk.injEq] at h
      obtain ⟨rfl, rfl⟩ := h
      exact ⟨rfl, hk⟩
  | _ => simp [keccak256, raise] at h

/-- The registrations that leave a record of the wanted kind. -/
def EntryAdmitted (viem : Viem) (R : PendingUserOp → Prop) (entry : Entry) : Prop :=
  ∀ data commitment now, entry.userOpData = .str data → viem.keccak256 data = .ok commitment →
    checkCommitment entry.commitment commitment = .ok () → R (entry.record data commitment now)

/-- A specification that lets records of a kind be registered. -/
structure Registers (sp : Spec sig world) (R : PendingUserOp → Prop)
    (A : PreparedForWeb → Prop) : Prop where
  readOnly : ∀ s, sp.inv s → sp.guar s s
  remember : ∀ s record, sp.inv s → R record → IsLowerHex 32 record.commitment →
    sp.inv ⟨s.mem.remember (toLowerCase record.commitment) record, s.world⟩ ∧
      sp.guar s ⟨s.mem.remember (toLowerCase record.commitment) record, s.world⟩
  write : ∀ s record e, sp.inv s → R record → IsLowerHex 32 record.commitment →
    sp.inv ⟨s.mem, effect e s.world
      (.writePending (PendingStore.fileName record.commitment) record)⟩ ∧
    sp.guar s ⟨s.mem, effect e s.world
      (.writePending (PendingStore.fileName record.commitment) record)⟩
  prepared : ∀ address p s, sp.adm (.prepare address) (.prepared p) s → A p

section Registers

variable {sp : Spec sig world} {R : PendingUserOp → Prop} {A : PreparedForWeb → Prop}
  {o : Options}

/-- Reading keeps any invariant. -/
theorem keeps_read (hread : ∀ s, sp.inv s → sp.guar s s) {op : Op} (hop : op.readOnly = true)
    {T : Res op → Prop}
    (hT : ∀ s c r w, sp.inv s → sp.adm op c s → perform op c s.world = some (r, w) →
      ∀ a, r = .ok a → T a) : Keeps sp (Prog.call (S := sig) op) T := by
  refine keeps_call (fun s w _ hw => absurd hw (disturb_readOnly hop)) ?_
  intro s c r w hi hadm hper
  obtain rfl : w = s.world := perform_readOnly hop hper
  exact ⟨hi, hread s hi, hT s c r _ hi hadm hper⟩

theorem Registers.keeps_register (hx : Registers sp R A) (hv : o.viem.Lawful) {entry : Entry}
    (he : EntryAdmitted o.viem R entry) : Keeps sp (PendingStore.register o entry) fun _ => True := by
  unfold PendingStore.register
  refine keeps_bind (keeps_lift fun p hp => hp) ?_
  rintro ⟨data, commitment⟩ hk
  obtain ⟨hdata, hhash⟩ := keccak256_ok hk
  have hlow := hv.keccak256_shape _ _ hhash
  refine keeps_bind (keeps_lift fun _ h => h) fun _ hcheck => ?_
  refine keeps_bind (R := fun _ => True) (keeps_gets fun _ _ => trivial) fun now _ => ?_
  have hR := he data _ now hdata hhash hcheck
  refine keeps_bind (keeps_modify fun s hi => hx.remember s _ hi hR hlow) fun _ _ => ?_
  refine keeps_bind (keeps_read (T := fun _ => True) hx.readOnly rfl fun _ _ _ _ _ _ _ _ _ =>
    trivial) fun _ _ => ?_
  refine keeps_bind (R := fun _ => True) (keeps_call ?_ ?_) fun _ _ => keeps_pure trivial
  · intro s w hi hw
    rw [show w = effect .torn s.world _ from (Option.some.inj hw).symm]
    exact hx.write s _ .torn hi hR hlow
  · intro s c r w hi _ hper
    obtain ⟨e, rfl⟩ := perform_world hper
    obtain ⟨hi', hg'⟩ := hx.write s _ e hi hR hlow
    exact ⟨hi', hg', fun _ _ => trivial⟩

theorem Registers.keeps_handleRegister (hx : Registers sp R A) (hv : o.viem.Lawful) {body : Json}
    (hb : ∀ entry, registerEntry body = some entry → EntryAdmitted o.viem R entry) :
    Keeps sp (handleRegister o body) fun _ => True := by
  unfold handleRegister
  split
  · exact keeps_lift fun _ _ => trivial
  split
  · exact keeps_pure trivial
  case h_2 entry hentry =>
    refine keeps_bind (hx.keeps_register hv (hb entry hentry)) fun _ _ => ?_
    exact keeps_bind (R := fun _ => True) (keeps_lift fun _ _ => trivial) fun _ _ =>
      keeps_pure trivial

theorem Registers.keeps_handlePrepare (hx : Registers sp R A) (hv : o.viem.Lawful) (body : Json)
    (hA : ∀ prepared, A prepared → EntryAdmitted o.viem R (preparedEntry prepared)) :
    Keeps sp (handlePrepare o body) fun _ => True := by
  unfold handlePrepare
  split
  · exact keeps_lift fun _ _ => trivial
  split
  · exact keeps_pure trivial
  case h_2 address haddress =>
    refine keeps_bind (R := A) ?_ fun prepared hp => ?_
    · refine keeps_read hx.readOnly rfl ?_
      rintro s c r w - hadm hper prepared rfl
      have hreply := (perform_ok hper).1
      cases c <;> cases hreply
      exact hx.prepared _ _ _ hadm
    exact keeps_bind (hx.keeps_register hv (hA prepared hp)) fun _ _ => keeps_pure trivial

end Registers

end OneSig.Executor
