/-
# The exit, over the life of an intent

The contract and the enclave as one system: accounts call `cancelIntent` and `requestStatus`, the
instructions they send are in flight until a machine takes them, and meanwhile the enclave arms,
ticks, cancels and restarts.  An instruction may be delivered late, and in any order.

The contract writes `cancelledBy` once for a commitment and never clears it, and it asks neither
who calls nor whether an intent is armed.  The enclave lets a commitment be armed again and again.
So the first call uses up the exit of every intent that will ever be armed under its commitment,
and it need not be a call of its owner.

`exit_open_iff` says this exactly, over every joint history: a call for a commitment goes through
if and only if nobody has called for it before, or a CANCEL for it is still in flight, whatever
the enclave holds by then.

* `cancelIntent_first` and `cancelIntent_again` are the two cases of one call, for registries that
  take every instruction (`Accepting`); with an extension id set, the first call for a commitment
  goes through and every other one reverts.
* `Recorded` ties the storage of the contract to the history: `cancelledBy` is set exactly for the
  commitments that have been called for, and what is in flight has been called for.  It is an
  induction over the joint history in which the enclave's own steps are all alike.

`stranger_closes_exit` is the history that matters: a stranger calls for the commitment before
there is an intent, the CANCEL finds nothing, then the intent is armed, and the call of its owner
reverts.
-/
import OneSig.Latch.Server
import OneSig.Latch.OnChain

namespace OneSig.Latch

open LatchInstructionSender (params opCommandCancel opCommandStatus)

variable {o : Options}

namespace Exit

/-! ## 1. The joint system -/

/-- An account that can call: nobody has the key of the zero address. -/
structure Caller where
  account : Account
  account_ne : account ≠ 0

/-- The contract, the enclave, and the instructions in flight between them. -/
structure Joint (o : Options) where
  contract : LatchInstructionSender
  enclave : Sys o
  inFlight : List TeeInstructionParams

inductive Act (o : Options)
  | cancelIntent (caller : Caller) (commitment : Bytes32)
  | requestStatus (caller : Caller) (commitment : Bytes32)
  | deliver (i : Nat)
  | enclave (e : Event o)

/-- A machine runs an instruction: the action has its type, its command and its message. -/
def deliver (p : TeeInstructionParams) (s : Sys o) : Option (Sys o) :=
  match registered p.opType.hex p.opCommand.hex with
  | none => some s
  | some command => s.step (Event.request command p.originalMessage)

/-- A call that reverts changes nothing. -/
def Joint.step (r : Registries) (s : Joint o) : Act o → Option (Joint o)
  | .cancelIntent caller commitment =>
    match s.contract.cancelIntent r caller.account commitment with
    | .ok (contract, sent) => some ⟨contract, s.enclave, s.inFlight ++ [sent]⟩
    | .error _ => some s
  | .requestStatus caller commitment =>
    match s.contract.requestStatus r caller.account commitment with
    | .ok sent => some ⟨s.contract, s.enclave, s.inFlight ++ [sent]⟩
    | .error _ => some s
  | .deliver i =>
    (s.inFlight[i]?).bind fun p =>
      (deliver p s.enclave).map fun enclave => ⟨s.contract, enclave, s.inFlight.eraseIdx i⟩
  | .enclave e => (s.enclave.step e).map fun enclave => ⟨s.contract, enclave, s.inFlight⟩

/-- The contract has its extension id and the enclave has just started. -/
def Joint.fresh (o : Options) (extensionId : Nat) (now : ℚ) : Joint o :=
  ⟨⟨fun _ => 0, extensionId⟩, .fresh o now, []⟩

/-- What has happened, newest first, and the state it led to. -/
inductive History (r : Registries) (s₀ : Joint o) : List (Act o) → Joint o → Prop
  | fresh : History r s₀ [] s₀
  | act {past : List (Act o)} {s s' : Joint o} (a : Act o) (h : History r s₀ past s)
      (hstep : s.step r a = some s') : History r s₀ (a :: past) s'

/-- A history computed from its acts, oldest first. -/
def Joint.run (r : Registries) : List (Act o) → Joint o → Option (Joint o)
  | [], s => some s
  | a :: acts, s => (s.step r a).bind (Joint.run r acts)

theorem History.of_run {r : Registries} {s₀ : Joint o} : ∀ (acts : List (Act o))
    {past : List (Act o)} {s s' : Joint o}, History r s₀ past s → Joint.run r acts s = some s' →
    History r s₀ (acts.reverse ++ past) s'
  | [], past, s, s', h, hrun => by
    cases hrun
    exact h
  | a :: acts, past, s, s', h, hrun => by
    obtain ⟨s₁, hstep, hrest⟩ := Option.bind_eq_some_iff.mp hrun
    rw [List.reverse_cons, List.append_assoc]
    exact History.of_run acts (.act a h hstep) hrest

/-! ## 2. What the contract remembers -/

/-- The registries take every instruction. -/
structure Accepting (r : Registries) : Prop where
  draws : ∀ extensionId n, ∃ teeIds, r.getRandomTeeIds extensionId n = some teeIds
  takes : ∀ teeIds params, r.sendInstructions teeIds params = true

/-- A commitment has been named in a call of `cancelIntent`. -/
def Called (commitment : Bytes32) (past : List (Act o)) : Prop :=
  ∃ caller, Act.cancelIntent caller commitment ∈ past

/-- The CANCEL that a call for a commitment sends. -/
def cancelOf (commitment : Bytes32) (caller : Caller) : TeeInstructionParams :=
  params opCommandCancel (abiEncode commitment) caller.account

section Contract

variable {r : Registries} {c : LatchInstructionSender}

theorem send_accepting (hr : Accepting r) (hid : c.extensionId ≠ 0) (opCommand : Bytes32)
    (message : List UInt8) (sender : Account) :
    c.send r opCommand message sender = .ok (params opCommand message sender) := by
  obtain ⟨teeIds, hdraw⟩ := hr.draws c.extensionId 1
  unfold LatchInstructionSender.send
  rw [if_neg hid, hdraw]
  exact if_pos (hr.takes teeIds _)

/-- The first call for a commitment goes through. -/
theorem cancelIntent_first (hr : Accepting r) (hid : c.extensionId ≠ 0) (caller : Caller)
    {commitment : Bytes32} (h : c.cancelledBy commitment = 0) :
    c.cancelIntent r caller.account commitment =
      .ok ({ c with cancelledBy := Function.update c.cancelledBy commitment caller.account },
        cancelOf commitment caller) := by
  unfold LatchInstructionSender.cancelIntent
  rw [if_neg (not_not.mpr h), send_accepting hr hid]
  rfl

/-- Every other one reverts. -/
theorem cancelIntent_again (r : Registries) (caller : Caller) {commitment : Bytes32}
    (h : c.cancelledBy commitment ≠ 0) : c.cancelIntent r caller.account commitment =
      .error (.alreadyCancelled commitment) := if_pos h

end Contract

theorem status_ne_cancel : opCommandStatus ≠ opCommandCancel := by decide

/-! ## 3. Every history -/

/-- What the contract remembers of a history, and what is in flight. -/
structure Recorded (past : List (Act o)) (s : Joint o) : Prop where
  extensionId : s.contract.extensionId ≠ 0
  cancelledBy : ∀ commitment, s.contract.cancelledBy commitment ≠ 0 ↔ Called commitment past
  sent : ∀ p ∈ s.inFlight, p.opCommand = opCommandCancel →
    ∃ commitment caller, p = cancelOf commitment caller ∧ Called commitment past

theorem called_cons {a : Act o} {past : List (Act o)} {commitment : Bytes32} :
    Called commitment (a :: past) ↔
      (∃ caller, a = .cancelIntent caller commitment) ∨ Called commitment past := by
  simp only [Called, List.mem_cons, eq_comm (a := a), exists_or]

/-- A step that calls for nothing new leaves the record. -/
theorem Recorded.same {past : List (Act o)} {s s' : Joint o} (h : Recorded past s) {a : Act o}
    (hcalled : ∀ commitment, Called commitment (a :: past) ↔ Called commitment past)
    (hcontract : s'.contract = s.contract)
    (hsent : ∀ p ∈ s'.inFlight, p.opCommand = opCommandCancel → p ∈ s.inFlight) :
    Recorded (a :: past) s' := by
  constructor
  · rw [hcontract]
    exact h.extensionId
  · intro commitment
    rw [hcontract, hcalled]
    exact h.cancelledBy commitment
  · intro p hp hcancel
    obtain ⟨commitment, caller, rfl, hpast⟩ := h.sent p (hsent p hp hcancel) hcancel
    exact ⟨commitment, caller, rfl, (hcalled commitment).mpr hpast⟩

theorem called_other {past : List (Act o)} {a : Act o}
    (ha : ∀ caller commitment, a ≠ .cancelIntent caller commitment) (commitment : Bytes32) :
    Called commitment (a :: past) ↔ Called commitment past := by
  rw [called_cons]
  exact or_iff_right fun ⟨caller, heq⟩ => ha caller commitment heq

theorem called_again {past : List (Act o)} {caller : Caller} {commitment : Bytes32}
    (h : Called commitment past) (commitment' : Bytes32) :
    Called commitment' (.cancelIntent caller commitment :: past) ↔ Called commitment' past := by
  rw [called_cons]
  refine or_iff_right_of_imp ?_
  rintro ⟨caller', heq⟩
  cases heq
  exact h

theorem Recorded.step {r : Registries} (hr : Accepting r) {past : List (Act o)} {s s' : Joint o}
    (h : Recorded past s) {a : Act o} (hstep : s.step r a = some s') : Recorded (a :: past) s' := by
  cases a with
  | cancelIntent caller commitment =>
    simp only [Joint.step] at hstep
    by_cases hfirst : s.contract.cancelledBy commitment = 0
    · rw [cancelIntent_first hr h.extensionId caller hfirst] at hstep
      cases hstep
      constructor
      · exact h.extensionId
      · intro commitment'
        rw [called_cons]
        by_cases hsame : commitment' = commitment
        · subst hsame
          simp only [Function.update_self]
          exact iff_of_true caller.account_ne (Or.inl ⟨caller, rfl⟩)
        · simp only [Function.update_of_ne hsame]
          rw [h.cancelledBy commitment']
          constructor
          · exact Or.inr
          · rintro (⟨caller', heq⟩ | hpast)
            · cases heq
              exact absurd rfl hsame
            · exact hpast
      · intro p hp hcancel
        rcases List.mem_append.mp hp with hp | hp
        · obtain ⟨commitment', caller', rfl, hpast⟩ := h.sent p hp hcancel
          exact ⟨commitment', caller', rfl, called_cons.mpr (Or.inr hpast)⟩
        · rw [List.mem_singleton] at hp
          exact ⟨commitment, caller, hp, called_cons.mpr (Or.inl ⟨caller, rfl⟩)⟩
    · rw [cancelIntent_again r caller hfirst] at hstep
      cases hstep
      exact h.same (called_again ((h.cancelledBy commitment).mp hfirst)) rfl fun _ hp _ => hp
  | requestStatus caller commitment =>
    simp only [Joint.step, LatchInstructionSender.requestStatus] at hstep
    rw [send_accepting hr h.extensionId] at hstep
    cases hstep
    refine h.same (called_other fun _ _ => nofun) rfl fun p hp hcancel => ?_
    rcases List.mem_append.mp hp with hp | hp
    · exact hp
    · rw [List.mem_singleton.mp hp] at hcancel
      exact absurd hcancel status_ne_cancel
  | deliver i =>
    obtain ⟨p, hp, hstep⟩ := Option.bind_eq_some_iff.mp hstep
    obtain ⟨enclave, henclave, rfl⟩ := Option.map_eq_some_iff.mp hstep
    exact h.same (called_other fun _ _ => nofun) rfl fun p' hp' _ => List.mem_of_mem_eraseIdx hp'
  | enclave e =>
    obtain ⟨enclave, henclave, rfl⟩ := Option.map_eq_some_iff.mp hstep
    exact h.same (called_other fun _ _ => nofun) rfl fun p' hp' _ => hp'

theorem recorded {r : Registries} (hr : Accepting r) {extensionId : Nat} (hid : extensionId ≠ 0)
    {now : ℚ} {past : List (Act o)} {s : Joint o}
    (h : History r (Joint.fresh o extensionId now) past s) : Recorded past s := by
  induction h with
  | fresh =>
    constructor
    · exact hid
    · intro commitment
      simp [Joint.fresh, Called]
    · intro p hp
      cases hp
  | act a _ hstep ih => exact ih.step hr hstep

end Exit

open Exit

/-- A CANCEL in flight has been called for. -/
theorem called_of_inFlight {r : Registries} (hr : Accepting r) {extensionId : Nat}
    (hid : extensionId ≠ 0) {now : ℚ} {past : List (Act o)} {s : Joint o}
    (h : History r (Joint.fresh o extensionId now) past s) {commitment : Bytes32} {caller : Caller}
    (hflight : cancelOf commitment caller ∈ s.inFlight) : Called commitment past := by
  obtain ⟨commitment', caller', heq, hpast⟩ := (recorded hr hid h).sent _ hflight rfl
  have hbytes : commitment.bytes = commitment'.bytes := congrArg TeeInstructionParams.message heq
  obtain rfl : commitment = commitment' := by
    cases commitment
    cases commitment'
    cases hbytes
    rfl
  exact hpast

/-- **The exit is open until somebody has called for the commitment**, whatever the enclave holds
by then. -/
theorem exit_open_iff {r : Registries} (hr : Accepting r) {extensionId : Nat}
    (hid : extensionId ≠ 0) {now : ℚ} {past : List (Act o)} {s : Joint o}
    (h : History r (Joint.fresh o extensionId now) past s) (commitment : Bytes32) :
    (∀ caller : Caller, ∃ contract, s.contract.cancelIntent r caller.account commitment =
      .ok (contract, cancelOf commitment caller)) ↔
    ∀ caller, Act.cancelIntent caller commitment ∉ past := by
  have hrecorded := recorded hr hid h
  constructor
  · intro hopen caller hmem
    obtain ⟨contract, hok⟩ := hopen caller
    have hcancelled := (hrecorded.cancelledBy commitment).mpr ⟨caller, hmem⟩
    rw [cancelIntent_again r caller hcancelled] at hok
    cases hok
  · intro hnone caller
    have hfirst : s.contract.cancelledBy commitment = 0 := by
      by_contra hcancelled
      obtain ⟨caller', hmem⟩ := (hrecorded.cancelledBy commitment).mp hcancelled
      exact hnone caller' hmem
    exact ⟨_, cancelIntent_first hr hrecorded.extensionId caller hfirst⟩

namespace Sample

theorem registries_accepting : Accepting registries :=
  ⟨fun _ _ => ⟨_, rfl⟩, fun _ _ => rfl⟩

def user : Caller := ⟨7, by decide⟩

def stranger : Caller := ⟨666, by decide⟩

/-- A stranger calls for a commitment; the CANCEL finds nothing; then the intent is armed. -/
def squatted : List (Act options) :=
  [.cancelIntent stranger commitment32, .deliver 0, .enclave (.clock 1000),
    .enclave (.request .arm armMessage)]

end Sample

theorem exit_open_iff_armed :
    ∃ past s, History Sample.registries (Joint.fresh Sample.options 65536 0) past s ∧
      s.enclave.mem.isArmed Sample.commitment32.hex = true ∧
      ((∀ caller : Caller, ∃ contract,
        s.contract.cancelIntent Sample.registries caller.account Sample.commitment32 =
          .ok (contract, cancelOf Sample.commitment32 caller)) ↔
        ∀ caller, Act.cancelIntent caller Sample.commitment32 ∉ past) := by
  have hrun : (Joint.run Sample.registries (Sample.armed.map Act.enclave)
      (Joint.fresh Sample.options 65536 0)).map (fun s =>
        s.enclave.mem.isArmed Sample.commitment32.hex) = some true := by decide +kernel
  obtain ⟨s, hs, harmed⟩ := Option.map_eq_some_iff.mp hrun
  have h := History.of_run (Sample.armed.map Act.enclave) .fresh hs
  exact ⟨_, s, h, harmed,
    exit_open_iff Sample.registries_accepting (by decide) h Sample.commitment32⟩

/-- **A stranger can close the exit**: the intent is armed, nothing is in flight, and the call of
the user reverts. -/
theorem stranger_closes_exit :
    ∃ s, History Sample.registries (Joint.fresh Sample.options 65536 0) Sample.squatted.reverse s ∧
      s.enclave.mem.isArmed Sample.commitment32.hex = true ∧ s.inFlight = [] ∧
      s.contract.cancelIntent Sample.registries Sample.user.account Sample.commitment32 =
        .error (.alreadyCancelled Sample.commitment32) := by
  have hrun : (Joint.run Sample.registries Sample.squatted
      (Joint.fresh Sample.options 65536 0)).map (fun s =>
        (s.enclave.mem.isArmed Sample.commitment32.hex, s.inFlight.length,
          s.contract.cancelledBy Sample.commitment32)) = some (true, 0, 666) := by decide +kernel
  obtain ⟨s, hs, hend⟩ := Option.map_eq_some_iff.mp hrun
  simp only [Prod.mk.injEq] at hend
  obtain ⟨harmed, hflight, hcancelled⟩ := hend
  have h := History.of_run Sample.squatted .fresh hs
  rw [List.append_nil] at h
  refine ⟨s, h, harmed, List.length_eq_zero_iff.mp hflight, cancelIntent_again _ _ ?_⟩
  rw [hcancelled]
  decide

end OneSig.Latch
