/-
# What careful runs keep

Why a registration that meets `Careful` in each of its runs resumes only what was done for its own
machine.

Two things are kept in step with the log of events.  The variables of a run that is under way say
nothing but what the log says for its machine: a step that they list as completed is completed,
the attestation id is the latest that a step has produced, and the instruction id is the one of
the latest availability check (`Recorded`).  And the file, if there is one, says nothing but what
the log says for one machine (`Owned`).  `Going` is the two together; it is what every step of
`RegisterNode` starts from and leaves.

* `Recorded.cons`, `Recorded.record` and `Recorded.attest` say what an event does to the first,
  and `Going.save` what saving does to the second.  A step that fails keeps it of the file, since
  what is not written cannot be wrong, and a file that is not written to its end is no JSON.
* `attest`, `stepAvailability` and `stepPromotion` are treated one after the other, each under the
  part of `Careful` that it needs: a failed save leaves no file behind that could be read later, a
  check that is made has the latest attestation id, a promotion the latest instruction id.
* `Kept` is what holds between runs, so the machine may be another one in each of them.
* `resumed_registration` is the result over any sequence of invocations over one state file.

The last section runs the program four times into each of the four things that `Careful` excludes,
and shows an id that is not the latest, or a skipped step that was another machine's.
-/
import OneSig.Tools.RegisterNode

namespace OneSig.Tools

variable {teeID : Address} {state : RegistrationState} {log : List Event} {e : Event} {id : Hash}
  {calls : Calls} {command : Str} {step : Step} {p p' : Progress} {w : World}

/-! ## 1. What a state says -/

/-- **A state that the log of a machine bears out**: every step it lists as done is in the log,
and the ids it keeps are the latest that the log has. -/
structure Recorded (teeID : Address) (state : RegistrationState) (log : List Event) : Prop where
  completed : ∀ step : Step, step.letter ∈ state.completedSteps →
    ∃ id, .completed teeID step id ∈ log
  attested : ∀ step : Step, step.attests = true → step.letter ∈ state.completedSteps →
    latest teeID Step.attests log = some state.teeAttestInstructionID
  instructed : 'a' ∈ state.completedSteps →
    latest teeID Step.instructs log = some state.instructionID

theorem recorded_empty : Recorded teeID {} log where
  completed _ hmem := absurd hmem List.not_mem_nil
  attested _ _ hmem := absurd hmem List.not_mem_nil
  instructed hmem := absurd hmem List.not_mem_nil

theorem latest_cons {produces : Step → Bool} (h : ∀ step id, e = .completed teeID step id →
    produces step = false) : latest teeID produces (e :: log) = latest teeID produces log := by
  cases e with
  | completed machine step id =>
    refine if_neg fun hmachine => ?_
    obtain ⟨rfl, hproduces⟩ := hmachine
    exact Bool.false_ne_true ((h step id rfl).symm.trans hproduces)
  | _ => rfl

theorem latest_completed {produces : Step → Bool} (h : produces step = true) :
    latest teeID produces (.completed teeID step id :: log) = some id := if_pos ⟨rfl, h⟩

/-- What happens afterwards takes nothing back, unless it is a new id that is used. -/
theorem Recorded.cons (h : Recorded teeID state log)
    (hattested : ∀ step id, e = .completed teeID step id → step.attests = true →
      ∀ step : Step, step.attests = true → step.letter ∉ state.completedSteps)
    (hinstructed : ∀ step id, e = .completed teeID step id → step.instructs = true →
      'a' ∉ state.completedSteps) : Recorded teeID state (e :: log) where
  completed step hmem := by
    obtain ⟨id, hid⟩ := h.completed step hmem
    exact ⟨id, List.mem_cons_of_mem _ hid⟩
  attested step hattests hmem := by
    rw [latest_cons fun other id he => ?_]
    · exact h.attested step hattests hmem
    · by_contra hother
      exact hattested other id he (by simpa using hother) step hattests hmem
  instructed hmem := by
    rw [latest_cons fun other id he => ?_]
    · exact h.instructed hmem
    · by_contra hother
      exact hinstructed other id he (by simpa using hother) hmem

/-- What is not a completed step changes nothing. -/
theorem Recorded.record (h : Recorded teeID state log)
    (he : ∀ step id, e ≠ .completed teeID step id) : Recorded teeID state (e :: log) :=
  h.cons (fun step id heq => absurd heq (he step id)) fun step id heq => absurd heq (he step id)

theorem Step.letter_injective {step other : Step} (h : step.letter = other.letter) :
    step = other := by
  revert h
  cases step <;> cases other <;> decide

theorem Step.of_attests (h : step.attests = true) :
    step.instructs = false ∧ step.letter ≠ 'a' := by
  revert h
  cases step <;> decide

/-- A step that has produced an attestation id is written down with it. -/
theorem Recorded.attest (h : Recorded teeID state log) (hattests : step.attests = true) :
    Recorded teeID { state with
        completedSteps := state.completedSteps ++ [step.letter]
        teeAttestInstructionID := id } (.completed teeID step id :: log) where
  completed other hmem := by
    rcases List.mem_append.mp hmem with hmem | hmem
    · obtain ⟨id', hid⟩ := h.completed other hmem
      exact ⟨id', List.mem_cons_of_mem _ hid⟩
    · obtain rfl := Step.letter_injective (List.mem_singleton.mp hmem)
      exact ⟨id, List.mem_cons_self⟩
  attested _ _ _ := latest_completed hattests
  instructed hmem := by
    obtain ⟨hother, hletter⟩ := Step.of_attests hattests
    rw [latest_cons fun other id' he => by cases he; exact hother]
    refine h.instructed ((List.mem_append.mp hmem).resolve_right fun hmem => ?_)
    exact hletter (List.mem_singleton.mp hmem).symm

theorem Recorded.instruct (h : Recorded teeID state log) :
    Recorded teeID { state with
        completedSteps := state.completedSteps ++ ['a']
        instructionID := id } (.completed teeID .availabilityCheck id :: log) where
  completed other hmem := by
    rcases List.mem_append.mp hmem with hmem | hmem
    · obtain ⟨id', hid⟩ := h.completed other hmem
      exact ⟨id', List.mem_cons_of_mem _ hid⟩
    · have hletter : other.letter = Step.availabilityCheck.letter := List.mem_singleton.mp hmem
      obtain rfl := Step.letter_injective hletter
      exact ⟨id, List.mem_cons_self⟩
  attested other hattests hmem := by
    rw [latest_cons fun other id' he => by cases he; rfl]
    refine h.attested other hattests ((List.mem_append.mp hmem).resolve_right fun hmem => ?_)
    exact (Step.of_attests hattests).2 (List.mem_singleton.mp hmem)
  instructed _ := latest_completed rfl

/-! ## 2. What the file says -/

/-- The file, if there is one, is the machine's. -/
def Owned (teeID : Address) (w : World) : Prop :=
  ∀ state, w.file = .holds state → owner w.log = some teeID ∧ Recorded teeID state w.log

theorem Owned.of_unreadable (h : w.file.readable = false) : Owned teeID w := by
  intro state hfile
  rw [hfile] at h
  cases h

theorem owner_cons (he : ∀ machine, e ≠ .saved machine) : owner (e :: log) = owner log := by
  cases e with
  | saved machine => exact absurd rfl (he machine)
  | _ => rfl

theorem Owned.record (h : Owned teeID w) (he : ∀ step id, e ≠ .completed teeID step id)
    (hsaved : ∀ machine, e ≠ .saved machine) : Owned teeID (w.record e) := by
  intro state hfile
  obtain ⟨howner, hrecorded⟩ := h state hfile
  exact ⟨(owner_cons hsaved).trans howner, hrecorded.record he⟩

/-- A run for `teeID` that is under way. -/
structure Going (teeID : Address) (p : Progress) : Prop where
  sound : Sound p.world.log
  recorded : Recorded teeID p.state p.world.log
  owned : Owned teeID p.world
  older : p.world.file.steps ⊆ p.state.completedSteps

/-- How an attempt ends: with an error, or with `post`. -/
def Attempt.Ends (teeID : Address) (post : Progress → Prop) : Attempt → Prop
  | .error (w, _) => Sound w.log ∧ Owned teeID w
  | .ok p => Going teeID p ∧ post p

theorem Attempt.Ends.bind {a : Attempt} {f : Progress → Attempt} {middle post : Progress → Prop}
    (h : a.Ends teeID middle)
    (hf : ∀ p, Going teeID p → middle p → (f p).Ends teeID post) :
    Attempt.Ends teeID post (a >>= f) := by
  cases a with
  | error e => exact h
  | ok p => exact hf p h.1 h.2

theorem Going.record (h : Going teeID p) (he : ∀ step id, e ≠ .completed teeID step id)
    (hsaved : ∀ machine, e ≠ .saved machine) (hjustified : Justified p.world.log e)
    (attestID instructionID : Hash) :
    Going teeID ⟨p.world.record e, p.state, attestID, instructionID⟩ where
  sound := ⟨hjustified, h.sound⟩
  recorded := h.recorded.record he
  owned := h.owned.record he hsaved
  older := h.older

/-- Saving a state that the log bears out. -/
theorem Going.save {outcome : Save} (hsound : Sound w.log) (hrecorded : Recorded teeID state w.log)
    (hkept : outcome = .kept → Owned teeID w ∧ w.file.steps ⊆ state.completedSteps)
    (attestID instructionID : Hash) :
    Going teeID ⟨w.saveState teeID outcome state, state, attestID, instructionID⟩ := by
  cases outcome with
  | saved =>
    have hrecorded' : Recorded teeID state (.saved teeID :: w.log) :=
      hrecorded.record fun _ _ => nofun
    refine ⟨⟨trivial, hsound⟩, hrecorded', fun other hfile => ?_, List.Subset.refl _⟩
    obtain rfl := StateFile.holds.inj hfile
    exact ⟨rfl, hrecorded'⟩
  | kept =>
    obtain ⟨howned, holder⟩ := hkept rfl
    exact ⟨hsound, hrecorded, howned, holder⟩
  | lost => exact ⟨hsound, hrecorded, Owned.of_unreadable rfl, List.nil_subset _⟩

/-! ## 3. The steps -/

/-- What a step that produces an attestation id leaves. -/
structure Attested (calls : Calls) (teeID : Address) (command : Str) (step : Step)
    (p p' : Progress) : Prop where
  asked : step.letter ∈ command →
    latest teeID Step.attests p'.world.log = some p'.teeAttestInstructionID
  unasked : step.letter ∉ command → p' = p
  listed : p.state.completedSteps ⊆ p'.state.completedSteps
  instructs : latest teeID Step.instructs p'.world.log = latest teeID Step.instructs p.world.log
  unreadable : p.world.file.readable = false →
    (step.letter ∈ command → calls.save step ≠ .saved) → p'.world.file.readable = false

theorem latest_saveState {produces : Step → Bool} {outcome : Save} :
    latest teeID produces (w.saveState teeID outcome state).log = latest teeID produces w.log := by
  cases outcome <;> rfl

theorem unreadable_saveState {outcome : Save} (h : w.file.readable = false)
    (houtcome : outcome ≠ .saved) : (w.saveState teeID outcome state).file.readable = false := by
  cases outcome with
  | saved => exact absurd rfl houtcome
  | kept => exact h
  | lost => rfl

theorem steps_of_unreadable {file : StateFile} (h : file.readable = false) : file.steps = [] := by
  cases file with
  | holds state => cases h
  | _ => rfl

/-- **A step that produces an attestation id**, where a failed save leaves no file: it is skipped
if the state lists it, and otherwise made, recorded and saved. -/
theorem attest_ends (step : Step) {request : Except Str Hash} (h : Going teeID p)
    (hattests : step.attests = true)
    (hkept : step.letter ∈ command → step.letter ∉ p.state.completedSteps →
      calls.save step = .kept → p.world.file.readable = false) :
    (attest calls teeID command step request p).Ends teeID
      (Attested calls teeID command step p) := by
  unfold attest
  split
  · rename_i hmem
    split
    · rename_i hdone
      have hskipped : Justified p.world.log (.skipped teeID step) :=
        h.recorded.completed step hdone
      refine ⟨h.record (e := .skipped teeID step) (fun _ _ => nofun) (fun _ => nofun) hskipped _ _,
        ?_, fun hnot => absurd hmem hnot, List.Subset.refl _, rfl, fun hfile _ => hfile⟩
      exact fun _ => h.recorded.attested step hattests hdone
    · rename_i hdone
      cases request with
      | error e => exact ⟨h.sound, h.owned⟩
      | ok id =>
        -- The file may still be an older one here, with an older attestation id.
        have hsound : Sound (p.world.record (.completed teeID step id)).log := ⟨trivial, h.sound⟩
        refine ⟨Going.save hsound (h.recorded.attest hattests) (fun houtcome => ?_) _ _, ?_,
          fun hnot => absurd hmem hnot, List.subset_append_left _ _, ?_, ?_⟩
        · have hfile := hkept hmem hdone houtcome
          refine ⟨Owned.of_unreadable hfile, ?_⟩
          rw [World.record, steps_of_unreadable hfile]
          exact List.nil_subset _
        · intro _
          rw [latest_saveState]
          exact latest_completed hattests
        · rw [latest_saveState]
          refine latest_cons fun other id he => ?_
          cases he
          exact (Step.of_attests hattests).1
        · exact fun hfile houtcome => unreadable_saveState hfile (houtcome hmem)
  · rename_i hmem
    exact ⟨h, fun hin => absurd hin hmem, fun _ => rfl, List.Subset.refl _, rfl,
      fun hfile _ => hfile⟩

variable {HexToHash : Str → Hash} {instructionIDstring : Str}

/-- The instruction id that is left for the promotion. -/
structure Instructed (teeID : Address) (command : Str) (flag : Hash) (p p' : Progress) :
    Prop where
  asked : 'a' ∈ command → latest teeID Step.instructs p'.world.log = some p'.instructionID
  unasked : 'a' ∉ command → p' = { p with instructionID := flag }

/-- **The availability check**, where a check that is made has the latest attestation id: it is
instructed once for it, and saved under the id of the instruction. -/
theorem stepAvailability_ends (h : Going teeID p)
    (hattested : 'a' ∈ command → 'a' ∉ p.state.completedSteps →
      calls.checkFTDCProxyPolicyConsistency = .ok () →
      latest teeID Step.attests p.world.log = some p.teeAttestInstructionID) :
    (stepAvailability HexToHash calls teeID command instructionIDstring p).Ends teeID
      (Instructed teeID command (HexToHash instructionIDstring) p) := by
  unfold stepAvailability
  split
  · rename_i hmem
    split
    · rename_i hdone
      have hskipped : Justified p.world.log (.skipped teeID .availabilityCheck) :=
        h.recorded.completed .availabilityCheck hdone
      refine ⟨h.record (e := .skipped teeID .availabilityCheck) (fun _ _ => nofun) (fun _ => nofun)
        hskipped _ _, fun _ => ?_, fun hnot => absurd hmem hnot⟩
      exact h.recorded.instructed hdone
    · rename_i hdone
      cases hpolicy : calls.checkFTDCProxyPolicyConsistency with
      | error e => exact ⟨h.sound, h.owned⟩
      | ok u =>
        have hrequested := h.record (e := .requested teeID p.teeAttestInstructionID)
          (fun _ _ => nofun) (fun _ => nofun) (hattested hmem hdone hpolicy) 0 0
        cases calls.requestFTDCAvailabilityCheck with
        | error e => exact ⟨hrequested.sound, hrequested.owned⟩
        | ok id =>
          have hsound : Sound ((p.world.record (.requested teeID p.teeAttestInstructionID)).record
            (.completed teeID .availabilityCheck id)).log := ⟨trivial, hrequested.sound⟩
          refine ⟨Going.save hsound hrequested.recorded.instruct (fun _ => ⟨?_, ?_⟩) _ _,
            fun _ => ?_, fun hnot => absurd hmem hnot⟩
          · -- An older file lists no check, so the new instruction id is nothing to it.
            intro state hfile
            obtain ⟨howner, hrecorded⟩ := hrequested.owned state hfile
            refine ⟨howner, hrecorded.cons (fun _ _ heq hattests => ?_) fun _ _ _ _ hlisted => ?_⟩
            · cases heq
              cases hattests
            · have hheld : p.world.file = .holds state := hfile
              refine hdone (h.older ?_)
              rw [hheld]
              exact hlisted
          · exact fun c hc => List.mem_append_left _ (h.older hc)
          · rw [latest_saveState]
            exact latest_completed rfl
  · rename_i hmem
    exact ⟨⟨h.sound, h.recorded, h.owned, h.older⟩, fun hin => absurd hin hmem, fun _ => rfl⟩

/-- **The promotion**, with the latest instruction id.  It does not touch the file, which may be
another machine's. -/
theorem stepPromotion_ends {machine : Address} (h : Going machine p) (hinstructed : 'p' ∈ command →
    latest teeID Step.instructs p.world.log = some p.instructionID) :
    (stepPromotion calls teeID command p).Ends machine fun _ => True := by
  unfold stepPromotion
  split
  · rename_i hmem
    have hpromoting := h.record (e := .promoting teeID p.instructionID) (fun _ _ => nofun)
      (fun _ => nofun) (hinstructed hmem) p.teeAttestInstructionID p.instructionID
    cases calls.getFTDCAvailabilityCheckResult with
    | error e => exact ⟨hpromoting.sound, hpromoting.owned⟩
    | ok u =>
      cases calls.toProduction with
      | error e => exact ⟨hpromoting.sound, hpromoting.owned⟩
      | ok u => exact ⟨hpromoting, trivial⟩
  · exact ⟨h, trivial⟩

/-! ## 4. Runs -/

/-- **A run for the machine of the file**: its steps, one after the other, leave the log in order
and the file to the machine, whichever of them fails. -/
theorem steps_ends (hgoing : Going teeID { world := w, state })
    (hlisted : w.file.steps = state.completedSteps)
    (hcareful : Careful HexToHash calls teeID command instructionIDstring w) :
    (steps HexToHash calls teeID command instructionIDstring { world := w, state }).Ends teeID
      fun _ => True := by
  unfold steps
  have hforgotten := hcareful.forgotten
  rw [hlisted] at hforgotten
  refine Attempt.Ends.bind (attest_ends .preRegistration hgoing rfl fun hmem hnot hkept =>
    (hforgotten .preRegistration rfl hmem hnot hkept).1) fun p hp hr => ?_
  refine Attempt.Ends.bind (attest_ends .attestation hp rfl fun hmem hnot hkept => ?_)
    fun p' hp' hR => ?_
  · obtain ⟨hfile, hsaved⟩ :=
      hforgotten .attestation rfl hmem (fun hin => hnot (hr.listed hin)) hkept
    exact hr.unreadable hfile fun hasked => hsaved rfl hasked
  refine Attempt.Ends.bind (stepAvailability_ends hp' fun hmem hnot hpolicy => ?_)
    fun p'' hp'' ha => ?_
  · have hunlisted : 'a' ∉ w.file.steps := by
      rw [hlisted]
      exact fun hin => hnot (hR.listed (hr.listed hin))
    by_cases hasked : 'R' ∈ command
    · exact hR.asked hasked
    · rw [hR.unasked hasked]
      exact hr.asked ((hcareful.attested hmem hunlisted hpolicy).resolve_right hasked)
  refine stepPromotion_ends hp'' fun hmem => ?_
  by_cases hasked : 'a' ∈ command
  · exact ha.asked hasked
  · rw [ha.unasked hasked, hR.instructs, hr.instructs]
    exact hcareful.instructed hmem hasked

/-- **What holds between runs**: the log is in order, and there is a machine to which the file, if
it can be read, and everything listed in it belong. -/
structure Kept (w : World) : Prop where
  sound : Sound w.log
  owned : ∃ machine, Owned machine w

theorem kept_initial : Kept {} := ⟨trivial, 0, Owned.of_unreadable rfl⟩

theorem Kept.remove (h : Kept w) (removed : Bool) : Kept (w.remove removed) := by
  unfold World.remove
  split
  · exact ⟨h.sound, 0, Owned.of_unreadable rfl⟩
  · exact h

/-- A command that names no step that is written down leaves only a promotion. -/
theorem steps_of_unused (hunused : ¬∃ step : Step, step.letter ∈ command) :
    steps HexToHash calls teeID command instructionIDstring p =
      stepPromotion calls teeID command { p with
        instructionID := HexToHash instructionIDstring } := by
  have hr : 'r' ∉ command := fun hmem => hunused ⟨.preRegistration, hmem⟩
  have hR : 'R' ∉ command := fun hmem => hunused ⟨.attestation, hmem⟩
  have ha : 'a' ∉ command := fun hmem => hunused ⟨.availabilityCheck, hmem⟩
  have hattest : ∀ (step : Step) (request : Except Str Hash), step.letter ∉ command →
      attest calls teeID command step request p = .ok p := fun step request h => if_neg h
  have havailability : stepAvailability HexToHash calls teeID command instructionIDstring p =
      .ok { p with instructionID := HexToHash instructionIDstring } := if_neg ha
  unfold steps stepR stepAttestation
  rw [hattest .preRegistration _ hr]
  change (attest calls teeID command .attestation _ p >>= _) = _
  rw [hattest .attestation _ hR]
  change (stepAvailability HexToHash calls teeID command instructionIDstring p >>= _) = _
  rw [havailability]
  rfl

theorem loadState_ok (h : loadState calls w.file = .ok state) :
    w.file = .holds state ∨ w.file = .absent ∧ state = {} := by
  unfold loadState at h
  cases hread : calls.readFile with
  | error e =>
    rw [hread] at h
    cases h
  | ok u =>
    rw [hread] at h
    cases hfile : w.file with
    | absent =>
      rw [hfile] at h
      exact .inr ⟨rfl, (Except.ok.inj h).symm⟩
    | holds other =>
      rw [hfile] at h
      exact .inl (congrArg StateFile.holds (Except.ok.inj h))
    | garbled =>
      rw [hfile] at h
      cases h

/-- A run starts with what the file says. -/
theorem Kept.going {machine : Address} (h : Sound w.log) (howned : Owned machine w)
    (hload : loadState calls w.file = .ok state) : Going machine { world := w, state } := by
  rcases loadState_ok hload with hfile | ⟨hfile, rfl⟩
  · exact ⟨h, (howned state hfile).2, howned, by rw [hfile]; exact List.Subset.refl _⟩
  · exact ⟨h, recorded_empty, howned, by rw [hfile]; exact List.Subset.refl _⟩

theorem steps_kept (h : Kept w) (hload : loadState calls w.file = .ok state)
    (hcareful : Careful HexToHash calls teeID command instructionIDstring w) :
    ∃ machine, (steps HexToHash calls teeID command instructionIDstring
      { world := w, state }).Ends machine fun _ => True := by
  obtain ⟨hsound, machine, howned⟩ := h
  by_cases hused : ∃ step : Step, step.letter ∈ command
  · have howned' : Owned teeID w := by
      cases hfile : w.file.readable with
      | false => exact Owned.of_unreadable hfile
      | true =>
        intro other hother
        obtain ⟨howner, hrecorded⟩ := howned other hother
        have heq := howner.symm.trans (hcareful.machine hused hfile)
        obtain rfl := Option.some.inj heq
        exact ⟨howner, hrecorded⟩
    refine ⟨teeID, steps_ends (Kept.going hsound howned' hload) ?_ hcareful⟩
    rcases loadState_ok hload with hfile | ⟨hfile, rfl⟩ <;> rw [hfile] <;> rfl
  · have hgoing := Kept.going hsound howned hload
    rw [steps_of_unused hused]
    refine ⟨machine, stepPromotion_ends ⟨hgoing.sound, hgoing.recorded, hgoing.owned, hgoing.older⟩
      fun hmem => ?_⟩
    exact hcareful.instructed hmem fun ha => hused ⟨.availabilityCheck, ha⟩

theorem registerNode_kept (h : Kept w) (hcareful : ∀ teeID proxyID,
    calls.teeProxyId = .ok (teeID, proxyID) →
      Careful HexToHash calls teeID command instructionIDstring w) :
    Kept (registerNode HexToHash calls command instructionIDstring w).1 := by
  unfold registerNode
  split
  · exact h
  · rename_i teeID proxyID hids
    split
    · exact h
    · rename_i state hload
      obtain ⟨machine, hends⟩ := steps_kept h hload (hcareful teeID proxyID hids)
      split
      · rename_i heq
        rw [heq] at hends
        exact ⟨hends.1, machine, hends.2⟩
      · rename_i heq
        rw [heq] at hends
        exact Kept.remove ⟨hends.1.sound, machine, hends.1.owned⟩ _

theorem main_kept {inv : Invocation} (h : Kept w) (hcareful : inv.Careful HexToHash w) :
    Kept (main HexToHash inv w).1 := by
  have hfound : Kept (inv.found w) := by
    unfold Invocation.found
    split
    · exact h
    · exact h.remove _
  unfold main
  split
  · exact hfound
  · rename_i hsetup
    exact registerNode_kept hfound fun teeID proxyID hids => hcareful teeID proxyID hsetup hids

theorem mains_kept {invs : List Invocation} (h : Kept w) (hcareful : AllCareful HexToHash invs w) :
    Kept (mains HexToHash invs w) := by
  induction invs generalizing w with
  | nil => exact h
  | cons inv invs ih => exact ih (main_kept h hcareful.1) hcareful.2

/-- **A careful registration resumes only what was done for its machine.**  After any invocations
over one state file, with any machines, any commands and a failure of any call, every step that was
skipped had been completed for the same machine, and the availability check and the promotion were
asked for with the ids of its latest steps, if every invocation was careful in the world it
found. -/
theorem resumed_registration (HexToHash : Str → Hash) (invs : List Invocation)
    (h : AllCareful HexToHash invs {}) : Sound (mains HexToHash invs {}).log :=
  (mains_kept kept_initial h).sound

/-! ## 5. Samples -/

namespace Sample

/-- Two machines. -/
def earlier : Address := 1

def relaunched : Address := 2

/-- The calls of a run that nothing stops. -/
def works (teeID : Address) : Calls where
  teeProxyId := .ok (teeID, 9)
  readFile := .ok ()
  unmarshal := []
  getTeeMachine := .ok 0
  preRegistration := .ok 10
  requestTeeAttestation _ := .ok 11
  checkFTDCProxyPolicyConsistency := .ok ()
  requestFTDCAvailabilityCheck := .ok 12
  getFTDCAvailabilityCheckResult := .ok ()
  toProduction := .ok ()
  save _ := .saved
  remove := true

/-- The proxy is behind, and there is no availability check. -/
def behind (teeID : Address) : Calls :=
  { works teeID with checkFTDCProxyPolicyConsistency := .error "proxy signing policy".toList }

/-- Nor is the state saved. -/
def unsaved (teeID : Address) : Calls := { behind teeID with save _ := .kept }

def registerTee (steps : String) (isResumed : Bool) (outcomes : Calls) : Invocation where
  resume := isResumed
  removed := true
  setup := .ok ()
  command := steps.toList
  instructionF := []
  calls := outcomes

/-- `common.HexToHash` of no text. -/
def noHash (_ : Str) : Hash := 0

end Sample

open Sample in
/-- A registration that stops before the availability check, and is resumed. -/
theorem resumed_registration_resumed : Sound (mains noHash
    [registerTee "rap" false (behind earlier), registerTee "rap" true (works earlier)] {}).log := by
  refine resumed_registration noHash _ ⟨?_, ?_, trivial⟩
  · rintro teeID proxyID - hids
    obtain ⟨rfl, rfl⟩ := Prod.mk.inj (Except.ok.inj hids)
    exact ⟨fun _ => by decide, by decide, by decide, fun step => by cases step <;> decide⟩
  · rintro teeID proxyID - hids
    obtain ⟨rfl, rfl⟩ := Prod.mk.inj (Except.ok.inj hids)
    exact ⟨fun _ => by decide, by decide, by decide, fun step => by cases step <;> decide⟩

open Sample in
/-- **Four ways to another id.**  A relaunched machine takes over the steps and the id of the one
before it; a check without `r` and `R` is asked for with an id of zero, though the file has one; so
is a promotion without `a`; and after a step whose state was not saved, the id of the step before it
is used again. -/
theorem resumed_registration_slips :
    ¬Sound (mains noHash [registerTee "rap" false (behind earlier),
      registerTee "rap" true (works relaunched)] {}).log ∧
    ¬Sound (mains noHash
      [registerTee "rap" false (behind earlier), registerTee "ap" true (works earlier)] {}).log ∧
    ¬Sound (mains noHash
      [registerTee "ra" false (works earlier), registerTee "p" true (works earlier)] {}).log ∧
    ¬Sound (mains noHash
      [registerTee "rap" false (behind earlier), registerTee "Ra" true (unsaved earlier),
        registerTee "rap" true (works earlier)] {}).log := by
  decide +kernel

end OneSig.Tools
