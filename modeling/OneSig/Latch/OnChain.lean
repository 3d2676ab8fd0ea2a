/-
# The exit through the chain

`cancelIntent` is the way out for somebody who cannot reach the enclave directly, and
`requestStatus` the way to ask.  Both send the 32 bytes of a commitment.  The enclave reads a
message as the JSON text of an object that names a commitment, and has no other form.  The two do
not meet:

* a text that is decoded from 32 bytes has at most 32 characters (`Utf8.length_decode`);
* no string in a value that was parsed from it is longer (`JsonText.parse_short`);
* every commitment that the enclave keeps is a string of 66 characters, by the invariant of its
  memory.

So no message the contract sends names an intent (`lookup_short`), whatever the 32 bytes are: a
commitment cannot be chosen that happens to be the JSON text of itself.

`onchain_exit_never_reaches` says what follows for every commitment and in every reachable state
of the enclave: after a cancellation from the chain an armed intent is still armed and still has
its bytes, and the reply to a status request from the chain is not its state.  What the contract
promises is stated first, as `Cancels` and `Reports`, and both are shown to fail for every message
it can send.

The instruction itself goes through: the contract takes the call, the registry accepts the
instruction and the enclave answers it, with an error.  The example shows both calls of an account
for an armed intent.
-/
import OneSig.Latch.InstructionSender
import OneSig.Latch.Seal

namespace OneSig.Latch

open Async (Run)

variable {o : Options}

/-! ## 1. Short messages name nothing -/

theorem namedCommitment_length {bs : List UInt8} {k : Str}
    (h : namedCommitment o.engine (bytesToHex bs) = .ok k) : k.length ≤ bs.length := by
  unfold namedCommitment at h
  obtain ⟨req, hreq, h⟩ := bind_ok h
  obtain ⟨hfield, -⟩ := stringField_ok h
  unfold decodeJson at hreq
  rw [hexToBytes_bytesToHex] at hreq
  dsimp only at hreq
  split at hreq
  case h_1 fields prim hparse =>
    cases hreq
    exact (JsonText.parse_short hparse hfield).trans (Utf8.length_decode bs)
  case h_2 => cases hreq
  case h_3 => cases hreq

/-- The map holds nothing under a short string. -/
theorem lookup_short (hv : o.viem.Lawful) {m : Memory} (hm : m.Sound o) {k : Str}
    (hshort : k.length ≤ 32) : m.lookup k = none := by
  rw [Option.eq_none_iff_forall_ne_some]
  rintro ⟨r, intent⟩ hlookup
  obtain ⟨hk, hr⟩ := Memory.lookup_eq_some.mp hlookup
  obtain ⟨intent', hr', rfl⟩ := hm.refs k r hk
  obtain ⟨b, hb⟩ := hm.hashed intent' (List.mem_of_getElem? hr')
  obtain ⟨bs, hlen, hhex⟩ := hv.keccak256_shape b _ hb
  have hlong : intent'.commitment.length = 66 := by
    rw [hhex, List.length_append, Bytes.length_hexEncode, hlen]
    rfl
  omega

/-- A CANCEL whose message is 32 bytes changes nothing. -/
theorem handleCancel_short (hv : o.viem.Lawful) {m : Memory} (hm : m.Sound o) {bs : List UInt8}
    (hshort : bs.length = 32) : (handleCancel o (bytesToHex bs) m).1 = m := by
  unfold handleCancel
  split
  case h_1 => rfl
  case h_2 k hname =>
    have hlen := namedCommitment_length hname
    rw [lookup_short hv hm (by omega)]

/-- A STATUS whose message is 32 bytes is not told the state of an intent. -/
theorem handleStatus_short (hv : o.viem.Lawful) {m : Memory} (hm : m.Sound o) {bs : List UInt8}
    (hshort : bs.length = 32) (state : IntentState) (armedAt deadline : ℚ) (firedAt : Option ℚ) :
    (handleStatus o (bytesToHex bs) m).2 ≠ ok (.status state armedAt deadline firedAt) := by
  unfold handleStatus
  split
  case h_1 refusal _ => cases refusal <;> exact nofun
  case h_2 k hname =>
    have hlen := namedCommitment_length hname
    have hlower : (toLowerCase k).length ≤ 32 := by
      rw [toLowerCase, List.length_map]
      omega
    rw [lookup_short hv hm hlower, lookup_short hv hm (hlen.trans hshort.le)]
    exact nofun

/-! ## 2. What the contract promises -/

/-- A message cancels the intent of a commitment: it ends cancelled and without its bytes. -/
def Cancels (o : Options) (m : Memory) (commitment : Bytes32) (msg : Str) : Prop :=
  ∃ r intent, (handleCancel o msg m).1.lookup commitment.hex = some (r, intent) ∧
    intent.state = .cancelled ∧ intent.userOpData = hexPrefix

/-- A message asks for the intent of a commitment: the reply is its state. -/
def Reports (o : Options) (m : Memory) (commitment : Bytes32) (msg : Str) : Prop :=
  ∃ r intent firedAt, m.lookup commitment.hex = some (r, intent) ∧
    (handleStatus o msg m).2 = ok (.status intent.state intent.armedAt intent.deadline firedAt)

/-- **No cancellation and no status request from the chain reaches an armed intent**, in any state
that a run reaches and for any commitment: the contract sends bytes, and the handlers read JSON.
-/
theorem onchain_exit_never_reaches (hv : o.viem.Lawful) {now : ℚ} {s : Sys o}
    (hrun : Run (fun _ _ => True) (Sys.fresh o now) s) (commitment : Bytes32)
    (harmed : s.mem.isArmed commitment.hex = true) :
    (∀ r c c' sender sent,
      LatchInstructionSender.cancelIntent r c sender commitment = .ok (c', sent) →
      ¬ Cancels o s.mem commitment sent.originalMessage) ∧
    (∀ r c sender sent, LatchInstructionSender.requestStatus r c sender commitment = .ok sent →
      ¬ Reports o s.mem commitment sent.originalMessage) := by
  have hm : s.mem.Sound o := (Seal.inv_run hrun).sound
  refine ⟨?_, ?_⟩
  · rintro r c c' sender sent hsent ⟨ref, intent, hlookup, hstate, -⟩
    obtain rfl := LatchInstructionSender.cancelIntent_ok hsent
    have hsame := handleCancel_short hv hm commitment.length_eq
    rw [TeeInstructionParams.originalMessage, LatchInstructionSender.params, abiEncode,
      hsame] at hlookup
    simp [Memory.isArmed, hlookup, hstate] at harmed
  · rintro r c sender sent hsent ⟨ref, intent, firedAt, -, hreply⟩
    obtain rfl := LatchInstructionSender.send_ok hsent
    exact handleStatus_short hv hm commitment.length_eq _ _ _ _ hreply

/-! ## 3. One commitment -/

namespace Sample

/-- The sample commitment as the contract holds it. -/
def commitment32 : Bytes32 := ⟨Bytes.hexDecodePrefix (commitment.drop 2), by decide +kernel⟩

/-- One machine, which takes every instruction. -/
def registries : Registries := ⟨fun _ _ => some [1], fun _ _ => true⟩

/-- The contract with its extension id set and nothing cancelled. -/
def sender : LatchInstructionSender := ⟨fun _ => 0, 65536⟩

def armed : List (Event options) := [.clock 1000, .request .arm armMessage]

end Sample

/-- The calls of an account to the sample contract go through, for an armed intent. -/
theorem onchain_exit_never_reaches_sample :
    ∃ s, Async.Sys.run Sample.armed (Sys.fresh Sample.options 0) = some s ∧
      (∃ c sent, LatchInstructionSender.cancelIntent Sample.registries Sample.sender 7
          Sample.commitment32 = .ok (c, sent) ∧
        ¬ Cancels Sample.options s.mem Sample.commitment32 sent.originalMessage) ∧
      ∃ sent, LatchInstructionSender.requestStatus Sample.registries Sample.sender 7
          Sample.commitment32 = .ok sent ∧
        ¬ Reports Sample.options s.mem Sample.commitment32 sent.originalMessage := by
  have hrun : (Async.Sys.run Sample.armed (Sys.fresh Sample.options 0)).map (fun s =>
      s.mem.isArmed Sample.commitment32.hex) = some true := by decide +kernel
  obtain ⟨s, hs, harmed⟩ := Option.map_eq_some_iff.mp hrun
  obtain ⟨hcancel, hstatus⟩ := onchain_exit_never_reaches Sample.viem_lawful
    (Run.of_run Sample.armed (fun _ _ _ => trivial) hs) Sample.commitment32 harmed
  exact ⟨s, hs, ⟨_, _, rfl, hcancel Sample.registries Sample.sender _ 7 _ rfl⟩, _, rfl,
    hstatus Sample.registries Sample.sender 7 _ rfl⟩

/-- **The message is refused**: the intent is still armed, and the reply to STATUS is an error. -/
theorem onchain_message_refused :
    ∃ s, Async.Sys.run Sample.armed (Sys.fresh Sample.options 0) = some s ∧
      s.mem.isArmed Sample.commitment32.hex = true ∧
      (∃ c sent, LatchInstructionSender.cancelIntent Sample.registries Sample.sender 7
          Sample.commitment32 = .ok (c, sent) ∧
        ¬ Cancels Sample.options s.mem Sample.commitment32 sent.originalMessage) ∧
      ∃ sent, LatchInstructionSender.requestStatus Sample.registries Sample.sender 7
          Sample.commitment32 = .ok sent ∧
        ¬ Reports Sample.options s.mem Sample.commitment32 sent.originalMessage := by
  have hrun : (Async.Sys.run Sample.armed (Sys.fresh Sample.options 0)).map (fun s =>
      (s.mem.isArmed Sample.commitment32.hex,
        ((handleCancel Sample.options Sample.commitment s.mem).1.lookup
          Sample.commitment32.hex).map fun p => p.2.state,
        (handleStatus Sample.options Sample.commitment s.mem).2)) =
      some (true, some .armed, fail (("decoding request: ".toList ++
        Sample.options.engine.syntaxError []))) := by decide +kernel
  obtain ⟨s, hs, hend⟩ := Option.map_eq_some_iff.mp hrun
  simp only [Prod.mk.injEq] at hend
  obtain ⟨harmed, hstate, hreply⟩ := hend
  refine ⟨s, hs, harmed, ⟨_, _, rfl, ?_⟩, _, rfl, ?_⟩
  · rintro ⟨r, intent, hlookup, hcancelled, -⟩
    have hlookup' : (handleCancel Sample.options Sample.commitment s.mem).1.lookup
        Sample.commitment32.hex = some (r, intent) := hlookup
    rw [hlookup', Option.map_some, hcancelled] at hstate
    cases hstate
  · rintro ⟨r, intent, firedAt, -, hstatus⟩
    have hstatus' : (handleStatus Sample.options Sample.commitment s.mem).2 =
        ok (.status intent.state intent.armedAt intent.deadline firedAt) := hstatus
    rw [hreply] at hstatus'
    cases hstatus'

end OneSig.Latch
