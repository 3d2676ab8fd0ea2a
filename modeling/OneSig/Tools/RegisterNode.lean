/-
# `register-tee`: a registration that can be resumed

`RegisterNode` takes a TEE through the steps that its command names, writes down after each of
them what is done, and skips on a later run what the file says is done.  The steps are the
pre-registration, the attestation, the availability check and the promotion, and each but the last
is written down with the id it has produced.  The runs here are those of `main` over one state
file: with `-resume` or without, for any machine, and with any outcome of every call that leaves
the program, from the node, the chain and the proxies to the file itself (`Calls`).

The log of events is not part of the program.  It says for which machine what was done, and
`Sound` says of it what resuming is for: a step that was skipped had been completed for the same
machine, and a check and a promotion were asked for with the ids that the latest completed steps
for this machine have produced.

What the file does not say is whose it is, and three more things come of where the ids are kept:

* a run without `r` and `R` checks availability with an attestation id of zero, though the file
  has one;
* a run without `a` promotes by the id given with `-i`;
* an id whose saving failed is forgotten in favour of an older one.

`Careful` is a run to which none of the four happens.  It is a condition on the invocation and on
the world that it finds, with one clause for each; the next module shows that careful runs are
sound, and that a run which is not can fail to be.

Errors keep their texts; what is printed besides is left out.
-/
import OneSig.Js

namespace OneSig.Tools

abbrev Address := BitVec 160

abbrev Hash := BitVec 256

/-! ## 1. The state file -/

structure RegistrationState where
  completedSteps : Str := []
  teeAttestInstructionID : Hash := 0
  instructionID : Hash := 0
  deriving DecidableEq

/-- The steps that are written down. -/
inductive Step
  | preRegistration
  | attestation
  | availabilityCheck
  deriving DecidableEq

def Step.letter : Step → Char
  | preRegistration => 'r'
  | attestation => 'R'
  | availabilityCheck => 'a'

/-- What `os.ReadFile` and `json.Unmarshal` find.  A file that was not written to its end is no
JSON. -/
inductive StateFile
  | absent
  | holds (state : RegistrationState)
  | garbled
  deriving DecidableEq

/-- `os.WriteFile`: the file is written; or it is not even opened; or not to its end. -/
inductive Save
  | saved
  | kept
  | lost
  deriving DecidableEq

/-- What happens, for the machine it happens for. -/
inductive Event
  | skipped (teeID : Address) (step : Step)
  | completed (teeID : Address) (step : Step) (id : Hash)
  | saved (teeID : Address)
  /-- The availability check is requested, with an attestation id. -/
  | requested (teeID : Address) (teeAttestInstructionID : Hash)
  /-- The promotion asks for the result of an instruction. -/
  | promoting (teeID : Address) (instructionID : Hash)
  deriving DecidableEq

/-- The state file, and what has happened, the latest first. -/
structure World where
  file : StateFile := .absent
  log : List Event := []
  deriving DecidableEq

/-- The outcomes of the calls of one run. -/
structure Calls where
  /-- What `TeeProxyId` makes of the TEE info. -/
  teeProxyId : Except Str (Address × Address)
  readFile : Except Str Unit
  /-- The error of `json.Unmarshal`. -/
  unmarshal : Str
  getTeeMachine : Except Str Address
  preRegistration : Except Str Hash
  /-- In each of the two steps that make it. -/
  requestTeeAttestation : Step → Except Str Hash
  checkFTDCProxyPolicyConsistency : Except Str Unit
  requestFTDCAvailabilityCheck : Except Str Hash
  getFTDCAvailabilityCheckResult : Except Str Unit
  toProduction : Except Str Unit
  save : Step → Save
  /-- `os.Remove` at the end. -/
  remove : Bool

def loadState (calls : Calls) (file : StateFile) : Except Str RegistrationState :=
  match calls.readFile with
  | .error e => .error ("failed to read state file: ".toList ++ e)
  | .ok () =>
    match file with
    | .absent => .ok {}
    | .holds state => .ok state
    | .garbled => .error ("failed to parse state file: ".toList ++ calls.unmarshal)

namespace World

def record (w : World) (e : Event) : World := { w with log := e :: w.log }

/-- An error is a warning in the log of the program. -/
def saveState (w : World) (teeID : Address) (outcome : Save) (state : RegistrationState) : World :=
  match outcome with
  | .saved => ⟨.holds state, .saved teeID :: w.log⟩
  | .kept => w
  | .lost => { w with file := .garbled }

def remove (w : World) (removed : Bool) : World :=
  if removed = true then { w with file := .absent } else w

end World

/-! ## 2. The steps -/

/-- The variables of `RegisterNode`. -/
structure Progress where
  world : World
  state : RegistrationState
  teeAttestInstructionID : Hash := 0
  instructionID : Hash := 0

/-- A run that has come to an error leaves its world behind. -/
abbrev Attempt := Except (World × Str) Progress

/-- A step that produces an attestation id. -/
def attest (calls : Calls) (teeID : Address) (command : Str) (step : Step)
    (request : Except Str Hash) (p : Progress) : Attempt :=
  if step.letter ∈ command then
    if step.letter ∈ p.state.completedSteps then
      .ok { p with
        world := p.world.record (.skipped teeID step)
        teeAttestInstructionID := p.state.teeAttestInstructionID }
    else
      match request with
      | .error e => .error (p.world, e)
      | .ok id =>
        let state := { p.state with
          completedSteps := p.state.completedSteps ++ [step.letter]
          teeAttestInstructionID := id }
        .ok { p with
          world := (p.world.record (.completed teeID step id)).saveState teeID (calls.save step)
            state
          state
          teeAttestInstructionID := id }
  else .ok p

/-- The machine is already registered on-chain. -/
def Calls.registered (calls : Calls) : Bool :=
  match calls.getTeeMachine with
  | .ok machine => machine ≠ 0
  | .error _ => false

def stepR (calls : Calls) (teeID : Address) (command : Str) : Progress → Attempt :=
  attest calls teeID command .preRegistration
    (if calls.registered = true then calls.requestTeeAttestation .preRegistration
    else calls.preRegistration)

def stepAttestation (calls : Calls) (teeID : Address) (command : Str) : Progress → Attempt :=
  attest calls teeID command .attestation (calls.requestTeeAttestation .attestation)

variable (HexToHash : Str → Hash)

def stepAvailability (calls : Calls) (teeID : Address) (command instructionIDstring : Str)
    (p : Progress) : Attempt :=
  if 'a' ∈ command then
    if 'a' ∈ p.state.completedSteps then
      .ok { p with
        world := p.world.record (.skipped teeID .availabilityCheck)
        instructionID := p.state.instructionID }
    else
      match calls.checkFTDCProxyPolicyConsistency with
      | .error e => .error (p.world, e)
      | .ok () =>
        let w := p.world.record (.requested teeID p.teeAttestInstructionID)
        match calls.requestFTDCAvailabilityCheck with
        | .error e => .error (w, e)
        | .ok id =>
          let state := { p.state with
            completedSteps := p.state.completedSteps ++ ['a']
            instructionID := id }
          .ok { p with
            world := (w.record (.completed teeID .availabilityCheck id)).saveState teeID
              (calls.save .availabilityCheck) state
            state
            instructionID := id }
  else .ok { p with instructionID := HexToHash instructionIDstring }

def stepPromotion (calls : Calls) (teeID : Address) (command : Str) (p : Progress) : Attempt :=
  if 'p' ∈ command then
    let w := p.world.record (.promoting teeID p.instructionID)
    match calls.getFTDCAvailabilityCheckResult with
    | .error e => .error (w, e)
    | .ok () =>
      match calls.toProduction with
      | .error e => .error (w, e)
      | .ok () => .ok { p with world := w }
  else .ok p

/-! ## 3. `RegisterNode` and `main` -/

def steps (calls : Calls) (teeID : Address) (command instructionIDstring : Str) (p : Progress) :
    Attempt := do
  let p ← stepR calls teeID command p
  let p ← stepAttestation calls teeID command p
  let p ← stepAvailability HexToHash calls teeID command instructionIDstring p
  stepPromotion calls teeID command p

def registerNode (calls : Calls) (command instructionIDstring : Str) (w : World) :
    World × Except Str Unit :=
  match calls.teeProxyId with
  | .error e => (w, .error e)
  | .ok (teeID, _) =>
    match loadState calls w.file with
    | .error e => (w, .error e)
    | .ok state =>
      match steps HexToHash calls teeID command instructionIDstring { world := w, state } with
      | .error (w, e) => (w, .error e)
      | .ok p => (p.world.remove calls.remove, .ok ())

/-- One invocation of `register-tee`. -/
structure Invocation where
  resume : Bool
  /-- `os.Remove` of a state file that is not to be resumed. -/
  removed : Bool
  /-- What `main` asks for before `RegisterNode`. -/
  setup : Except Str Unit
  command : Str
  instructionF : Str
  calls : Calls

/-- The world in which `RegisterNode` is called.  Default: start fresh. -/
def Invocation.found (inv : Invocation) (w : World) : World :=
  if inv.resume = true then w else w.remove inv.removed

def main (inv : Invocation) (w : World) : World × Except Str Unit :=
  match inv.setup with
  | .error e => (inv.found w, .error e)
  | .ok () => registerNode HexToHash inv.calls inv.command inv.instructionF (inv.found w)

/-- Invocations, one after the other. -/
def mains (invs : List Invocation) (w : World) : World :=
  invs.foldl (fun w inv => (main HexToHash inv w).1) w

/-! ## 4. What resuming is to do -/

/-- The steps that produce an attestation id. -/
def Step.attests : Step → Bool
  | preRegistration | attestation => true
  | availabilityCheck => false

/-- The step that produces an instruction id. -/
def Step.instructs : Step → Bool
  | availabilityCheck => true
  | _ => false

/-- The id that the latest completed step of a kind has produced for a machine. -/
def latest (teeID : Address) (produces : Step → Bool) : List Event → Option Hash
  | [] => none
  | .completed machine step id :: earlier =>
    if machine = teeID ∧ produces step = true then some id else latest teeID produces earlier
  | _ :: earlier => latest teeID produces earlier

/-- What a skipped step, a check and a promotion need to have happened before. -/
def Justified (earlier : List Event) : Event → Prop
  | .skipped teeID step => ∃ id, .completed teeID step id ∈ earlier
  | .requested teeID id => latest teeID Step.attests earlier = some id
  | .promoting teeID id => latest teeID Step.instructs earlier = some id
  | _ => True

def Event.completes (teeID : Address) (step : Step) : Event → Bool
  | completed machine other _ => machine = teeID ∧ other = step
  | _ => false

theorem any_completes_iff {teeID : Address} {step : Step} {earlier : List Event} :
    earlier.any (Event.completes teeID step) = true ↔ ∃ id, .completed teeID step id ∈ earlier := by
  rw [List.any_eq_true]
  constructor
  · rintro ⟨e, hmem, hcompletes⟩
    cases e with
    | completed machine other id =>
      obtain ⟨rfl, rfl⟩ := of_decide_eq_true hcompletes
      exact ⟨id, hmem⟩
    | _ => cases hcompletes
  · rintro ⟨id, hmem⟩
    exact ⟨_, hmem, decide_eq_true ⟨rfl, rfl⟩⟩

instance decidableJustified (earlier : List Event) : DecidablePred (Justified earlier)
  | .skipped _ _ => decidable_of_iff _ any_completes_iff
  | .requested _ _ | .promoting _ _ => inferInstanceAs (Decidable (_ = _))
  | .completed _ _ _ | .saved _ => inferInstanceAs (Decidable True)

/-- **Only what was done for this machine is skipped, and only its latest ids are used.** -/
def Sound : List Event → Prop
  | [] => True
  | e :: earlier => Justified earlier e ∧ Sound earlier

instance decidableSound : DecidablePred Sound
  | [] => inferInstanceAs (Decidable True)
  | e :: earlier => @instDecidableAnd _ _ (decidableJustified earlier e) (decidableSound earlier)

/-! ## 5. Runs that do not depend on what the file leaves out -/

/-- The steps that a file lists. -/
def StateFile.steps : StateFile → Str
  | holds state => state.completedSteps
  | _ => []

def StateFile.readable : StateFile → Bool
  | holds _ => true
  | _ => false

/-- The machine for which the state was last saved. -/
def owner : List Event → Option Address
  | [] => none
  | .saved teeID :: _ => some teeID
  | _ :: earlier => owner earlier

/-- A run of `RegisterNode` for `teeID` that finds the world `w`. -/
structure Careful (calls : Calls) (teeID : Address) (command instructionIDstring : Str)
    (w : World) : Prop where
  /-- A run that uses the state file does not find another machine's. -/
  machine : (∃ step : Step, step.letter ∈ command) → w.file.readable = true →
    owner w.log = some teeID
  /-- A check that is made comes with a step that has an attestation id. -/
  attested : 'a' ∈ command → 'a' ∉ w.file.steps →
    calls.checkFTDCProxyPolicyConsistency = .ok () → 'r' ∈ command ∨ 'R' ∈ command
  /-- A promotion without a check is told the instruction id of the machine's latest one. -/
  instructed : 'p' ∈ command → 'a' ∉ command →
    latest teeID Step.instructs w.log = some (HexToHash instructionIDstring)
  /-- An attestation id that cannot be saved leaves no older one behind. -/
  forgotten : ∀ step : Step, step.attests = true → step.letter ∈ command →
    step.letter ∉ w.file.steps → calls.save step = .kept → w.file.readable = false ∧
      (step = .attestation → 'r' ∈ command → calls.save .preRegistration ≠ .saved)

/-- An invocation that fails before it has a machine does nothing. -/
def Invocation.Careful (inv : Invocation) (w : World) : Prop :=
  ∀ teeID proxyID, inv.setup = .ok () → inv.calls.teeProxyId = .ok (teeID, proxyID) →
    Tools.Careful HexToHash inv.calls teeID inv.command inv.instructionF (inv.found w)

/-- Each invocation is careful in the world that it finds. -/
def AllCareful : List Invocation → World → Prop
  | [], _ => True
  | inv :: invs, w => inv.Careful HexToHash w ∧ AllCareful invs (main HexToHash inv w).1

end OneSig.Tools
