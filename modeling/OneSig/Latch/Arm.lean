/-
# ARM, whole or not at all

`handleArm` checks everything it is sent before it stores the intent, and still two things can go
wrong: a check may itself throw, and the line that is logged about the stored intent throws on a
time no `Date` can hold.  In the second case the caller gets no answer, and the intent is stored.

`ArmMet` is what is promised of an ARM on a message and a memory: it is answered; when the answer
is a success the map holds an armed intent under the hash of the bytes of the message, with those
bytes; and when it is not, nothing has changed.  `ArmFails` lists, in terms of the message and the
memory before, when the promise is broken: when the handler throws, and when the commitment is
armed already with other bytes of the same hash.  The second needs a collision of the hash, which
is not excluded by an assumption but named.

* `ArmedHashed` is the invariant behind the last clause: the bytes of an armed intent are those
  its commitment is the hash of.  It is kept by every command and by the steps of overlapping
  ticks, so it holds along every run (`ArmedHashed.run`).
* `handleArm_arms` says how an ARM goes, as four cases: refused, thrown, answered again, stored.
* `arm_met_iff` is the equivalence in every reachable state; ARM is total and atomic on exactly
  the messages that do not make it fail.

The example is a condition on a time far beyond what a `Date` can hold.
-/
import OneSig.Latch.HttpContract

namespace OneSig.Latch

open Async (Run Discipline Keeps keeps_bind keeps_call keeps_gets keeps_lift keeps_modify keeps_mono
  keeps_pure)

variable {o : Options}

/-! ## 1. Armed intents keep their bytes -/

/-- The bytes of an armed intent are those its commitment is the hash of. -/
def ArmedHashed (o : Options) (m : Memory) : Prop :=
  ∀ intent ∈ m.heap, intent.state = .armed →
    o.viem.keccak256 intent.userOpData = .ok intent.commitment

namespace ArmedHashed

variable {m : Memory}

/-- A write after which an intent is not armed. -/
theorem update (h : ArmedHashed o m) {r : Ref} {f : Intent → Intent}
    (hf : ∀ intent, (f intent).state ≠ .armed) : ArmedHashed o (m.update r f) := by
  intro intent hmem harmed
  obtain ⟨j, hj⟩ := List.mem_iff_getElem?.mp hmem
  rw [Memory.update_heap] at hj
  split at hj
  · obtain ⟨old, -, rfl⟩ := Option.map_eq_some_iff.mp hj
    exact absurd harmed (hf old)
  · exact h intent (List.mem_of_getElem? hj) harmed

theorem create (h : ArmedHashed o m) {req : ArmRequest}
    (hhash : o.viem.keccak256 req.userOpData = .ok req.commitment) :
    ArmedHashed o (m.create req) := by
  intro intent hmem harmed
  obtain ⟨j, hj⟩ := List.mem_iff_getElem?.mp hmem
  rcases Memory.create_heap hj with hold | ⟨-, rfl⟩
  · exact h intent (List.mem_of_getElem? hold) harmed
  · exact hhash

/-- **A command keeps it**: only an ARM puts in an intent, and it has compared the hash of the
bytes with the commitment. -/
theorem handle (h : ArmedHashed o m) (command : Command) (msg : Str) :
    ArmedHashed o (handle o command msg m).1 := by
  have hdo := handled o command msg m
  generalize (Latch.handle o command msg m).1 = m' at hdo ⊢
  generalize (Latch.handle o command msg m).2 = result at hdo
  cases hdo with
  | quiet => exact h
  | created hreq => exact h.create (parseArm_hash hreq).1
  | status => exact h
  | cancelled => exact h.update fun _ => nofun
  | collected => exact h.update fun _ => nofun

/-- The invariant of the enclave's code. -/
abbrev spec (o : Options) : Async.Spec sig world :=
  .ofInv (fun s => ArmedHashed o s.mem) fun _ _ _ => True

theorem keeps_update {r : Ref} {f : Intent → Intent} (hf : ∀ intent, (f intent).state ≠ .armed)
    (total : Nat → Nat) : Keeps (spec o) (Async.Prog.modify (S := sig) fun m =>
      { m.update r f with firedTotal := total m.firedTotal }) fun _ => True :=
  keeps_modify fun _ h => ⟨h.update hf, trivial⟩

theorem keeps_evaluate (r : Ref) (now : ℚ) (intent : Intent) :
    Keeps (spec o) (evaluate r now intent) fun _ => True := by
  unfold evaluate
  split_ifs
  · exact keeps_pure trivial
  · exact keeps_update (f := Intent.drop .expired) (fun _ => nofun) id
  · refine keeps_bind (R := fun _ => True) (keeps_call (fun _ _ _ hw => nomatch hw) ?_) ?_
    · intro s c res w h _ _
      exact ⟨h, trivial, fun _ _ => trivial⟩
    · intro fired _
      unfold settle
      split_ifs
      · refine keeps_bind (R := fun _ => True) (keeps_update (f := Intent.fire now)
        (fun _ => nofun) (· + 1)) ?_
        exact fun _ _ => keeps_lift fun _ _ => trivial
      · exact keeps_pure trivial

theorem keeps_code (l : Label) : Keeps (spec o) (code l) fun _ => True := by
  cases l with
  | tick now => exact keeps_pure trivial
  | next place now =>
    refine keeps_bind (R := fun _ => True) (keeps_gets fun _ _ => trivial) fun found _ => ?_
    rcases found with _ | _ | found
    · exact keeps_pure trivial
    · exact keeps_pure trivial
    · exact keeps_pure trivial
  | visit r place now =>
    refine keeps_bind (R := fun _ => True) ?_ fun _ _ => keeps_pure trivial
    refine keeps_bind (R := fun _ => True) (keeps_gets fun _ _ => trivial) fun found _ => ?_
    cases found with
    | none => exact keeps_pure trivial
    | some intent => exact keeps_evaluate r now intent

/-- **It holds along every run** of the extension, since a tick leaves the bytes of an intent that
stays armed as they are. -/
theorem run {now : ℚ} {s : Sys o} (hrun : Run (fun _ _ => True) (Sys.fresh o now) s) :
    ArmedHashed o s.mem := by
  have hboot : ∀ now, ArmedHashed o (.boot now) := fun _ _ h => absurd h List.not_mem_nil
  have hcode : ∀ l, True → Keeps (spec o) ((machine o).code l) fun next =>
      ∀ l', next = some l' → True := fun l _ => keeps_mono (keeps_code l) fun _ _ _ _ => trivial
  have hfresh : ArmedHashed o (Sys.fresh o now).st.mem := hboot now
  refine Discipline.ofInv_run hcode ?_ rfl hfresh hrun
  intro e s _
  cases e with
  | spawn l => exact ⟨fun h => h.elim, fun _ _ => trivial⟩
  | perform i c => exact fun _ _ _ _ => trivial
  | disturb i => trivial
  | resume i => trivial
  | outside x =>
    intro hi
    refine ⟨?_, fun _ _ _ => trivial, fun _ _ => trivial⟩
    cases x with
    | request command msg => exact ArmedHashed.handle hi command msg
    | state => exact hi
    | clock now => exact hi
  | crash => exact fun _ => ⟨hboot _, fun _ => trivial⟩

end ArmedHashed

/-! ## 2. What is promised of an ARM -/

/-- The bytes of a 0x string; an odd number of digits is read with a zero in front. -/
def bytesOf (hex : Str) : Option (List UInt8) :=
  let digits := hex.drop 2
  Bytes.hexDecode (if digits.length % 2 = 0 then digits else '0' :: digits)

/-- A message carries these bytes. -/
def Carries (o : Options) (msg userOpData : Str) : Prop :=
  ∃ req, decodeJson o.engine msg = .ok req ∧ fieldOf req "userOpData" = some (.str userOpData)

/-- ARM is total and atomic on a message. -/
structure ArmMet (o : Options) (msg : Str) (m : Memory) : Prop where
  total : ∃ result, (handleArm o msg m).2 = .ok result
  armed : ∀ payload, (handleArm o msg m).2 = ok payload →
    ∃ userOpData commitment r intent, Carries o msg userOpData ∧
      o.viem.keccak256 userOpData = .ok commitment ∧
      (handleArm o msg m).1.lookup commitment = some (r, intent) ∧ intent.state = .armed ∧
      bytesOf intent.userOpData = bytesOf userOpData
  unchanged : (∀ payload, (handleArm o msg m).2 ≠ ok payload) → (handleArm o msg m).1 = m

/-- Why an ARM is not total and atomic. -/
inductive ArmFails (o : Options) (msg : Str) (m : Memory) : Prop
  | throws : ArmThrows o msg m → ArmFails o msg m
  /-- The commitment is armed, with other bytes of the same hash. -/
  | collides {req : ArmRequest} {r : Ref} {intent : Intent} : parseArm o msg = .ok req →
      m.now < req.deadline → req.deadline ≤ m.now + o.maxDeadlineMs →
      m.lookup req.commitment = some (r, intent) → intent.state = .armed →
      o.viem.keccak256 intent.userOpData = o.viem.keccak256 req.userOpData →
      bytesOf intent.userOpData ≠ bytesOf req.userOpData → ArmFails o msg m

section Arm

variable {m : Memory} {msg : Str} {req : ArmRequest}

theorem parseArm_carries (h : parseArm o msg = .ok req) : Carries o msg req.userOpData := by
  unfold parseArm at h
  obtain ⟨j, hj, h⟩ := bind_ok h
  obtain ⟨userOpData, hdata, h⟩ := bind_ok h
  obtain ⟨commitment, -, h⟩ := bind_ok h
  obtain ⟨-, -, h⟩ := bind_ok h
  obtain ⟨trigger, -, h⟩ := bind_ok h
  obtain ⟨deadline, -, h⟩ := bind_ok h
  cases h
  exact ⟨j, hj, (stringField_ok hdata).1⟩

theorem lookup_create : (m.create req).lookup req.commitment = some (m.heap.length,
    ⟨req.commitment, req.userOpData, req.trigger, req.deadline, .armed, m.now, none⟩) := by
  rw [Memory.lookup_eq_some]
  exact ⟨JsMap.mem_pairs_set.mpr (.inl ⟨rfl, rfl⟩), List.getElem?_concat_length ..⟩

/-- How an ARM goes. -/
inductive Arms (o : Options) (msg : Str) (m : Memory) : Memory → Except JsError HandlerResult → Prop
  | refused (message : Str) : Arms o msg m m (fail message)
  | threw (e : JsError) (m' : Memory) : ArmThrows o msg m → Arms o msg m m' (.error e)
  | again {req : ArmRequest} {r : Ref} {intent : Intent} : parseArm o msg = .ok req →
      m.now < req.deadline → req.deadline ≤ m.now + o.maxDeadlineMs →
      m.lookup req.commitment = some (r, intent) → intent.state = .armed →
      Arms o msg m m (ok (.armed req.commitment true))
  | stored {req : ArmRequest} : parseArm o msg = .ok req →
      Arms o msg m (m.create req) (ok (.armed req.commitment false))

theorem handleArm_arms (o : Options) (msg : Str) (m : Memory) :
    Arms o msg m (handleArm o msg m).1 (handleArm o msg m).2 := by
  cases hres : (handleArm o msg m).2 with
  | error e => exact .threw e _ (handleArm_throws hres)
  | ok result =>
    unfold handleArm at hres ⊢
    split at hres
    case h_1 refusal hparse =>
      cases refusal with
      | reject message =>
        cases hres
        exact .refused message
      | thrown e => cases hres
    case h_2 req hparse =>
      unfold arm at hres ⊢
      split_ifs at hres ⊢ with hpast hfar harmed
      · cases hres
        exact .refused _
      · cases hres
        exact .refused _
      · cases hres
        rw [Memory.isArmed, Option.any_eq_true] at harmed
        obtain ⟨⟨r, intent⟩, hlookup, harmed⟩ := harmed
        exact .again hparse (Rat.not_le.mp hpast) (Rat.not_lt.mp hfar) hlookup
          (of_decide_eq_true harmed)
      · cases hdate : describeTrigger req.trigger with
        | ok u =>
          rw [hdate] at hres
          cases hres
          exact .stored hparse
        | error e =>
          rw [hdate] at hres
          cases hres

/-- **What makes an ARM fail**: in a memory in order it does what it should exactly when the
message has none of the faults that `ArmFails` lists. -/
theorem armMet_iff (hsound : m.Sound o) (hhashed : ArmedHashed o m) :
    ArmMet o msg m ↔ ¬ArmFails o msg m := by
  constructor
  · rintro hmet (hthrows | @⟨req, r, intent, hparse, hpast, hfar, hlookup, harmed, -, hbytes⟩)
    · obtain ⟨e, he⟩ := hthrows.handleArm
      obtain ⟨result, hresult⟩ := hmet.total
      rw [he] at hresult
      cases hresult
    · have hisArmed : m.isArmed req.commitment = true := by
        rw [Memory.isArmed, hlookup]
        exact decide_eq_true harmed
      have hagain : handleArm o msg m = (m, ok (.armed req.commitment true)) := by
        rw [handleArm, hparse]
        dsimp only
        rw [arm, if_neg (Rat.not_le.mpr hpast), if_neg (Rat.not_lt.mpr hfar), if_pos hisArmed]
      obtain ⟨userOpData, commitment, r', intent', ⟨j, hj, hdata⟩, hhash, hlookup', -, hbytes'⟩ :=
        hmet.armed _ (congrArg Prod.snd hagain)
      obtain ⟨j', hj', hdata'⟩ := parseArm_carries hparse
      obtain rfl := Except.ok.inj (hj.symm.trans hj')
      rw [hdata] at hdata'
      cases hdata'
      rw [(parseArm_hash hparse).1] at hhash
      cases hhash
      rw [hagain, hlookup] at hlookup'
      cases hlookup'
      exact hbytes hbytes'
  · intro hfine
    have harms := handleArm_arms o msg m
    generalize hm' : (handleArm o msg m).1 = m' at harms
    generalize hres : (handleArm o msg m).2 = res at harms
    cases harms with
    | refused message =>
      refine ⟨⟨_, hres⟩, fun payload hpayload => ?_, fun _ => hm'⟩
      rw [hres] at hpayload
      cases hpayload
    | threw e _ hthrows => exact absurd (.throws hthrows) hfine
    | @again req r intent hparse hpast hfar hlookup harmed =>
      refine ⟨⟨_, hres⟩, fun payload _ => ?_, fun h => absurd hres (h _)⟩
      rw [hm']
      obtain ⟨hk, hr⟩ := Memory.lookup_eq_some.mp hlookup
      obtain ⟨intent', hr', hkey⟩ := hsound.refs _ _ hk
      obtain rfl := Option.some.inj (hr.symm.trans hr')
      have hhash := hhashed intent (List.mem_of_getElem? hr) harmed
      rw [hkey] at hhash
      refine ⟨req.userOpData, req.commitment, r, intent, parseArm_carries hparse,
        (parseArm_hash hparse).1, hlookup, harmed, ?_⟩
      by_contra hbytes
      exact hfine (.collides hparse hpast hfar hlookup harmed
        (hhash.trans (parseArm_hash hparse).1.symm) hbytes)
    | @stored req hparse =>
      refine ⟨⟨_, hres⟩, fun payload _ => ?_, fun h => absurd hres (h _)⟩
      rw [hm']
      exact ⟨req.userOpData, req.commitment, _, _, parseArm_carries hparse,
        (parseArm_hash hparse).1, lookup_create, rfl, rfl⟩

end Arm

/-- **ARM is total and atomic exactly on the messages that do not make it fail**, in every state
that a run of the extension reaches. -/
theorem arm_met_iff {now : ℚ} {s : Sys o} (hrun : Run (fun _ _ => True) (Sys.fresh o now) s)
    (msg : Str) : ArmMet o msg s.mem ↔ ¬ArmFails o msg s.mem :=
  armMet_iff (Seal.inv_run hrun).sound (.run hrun)

theorem arm_met_sample : ArmMet Sample.options Sample.armMessage (Memory.boot 1000) := by
  refine (arm_met_iff (.refl (Sys.fresh Sample.options 1000)) Sample.armMessage).mpr ?_
  have hreply : (handleArm Sample.options Sample.armMessage (Memory.boot 1000)).2 =
      ok (.armed Sample.commitment false) := by decide +kernel
  rintro (hthrows | ⟨-, -, -, hlookup, -, -, -⟩)
  · obtain ⟨e, he⟩ := hthrows.handleArm
    have hthrown : (handleArm Sample.options Sample.armMessage (Memory.boot 1000)).2 =
        .error e := he
    rw [hreply] at hthrown
    cases hthrown
  · cases hlookup

/-- **A time no date can hold**: the ARM throws while it builds its reply, after its intent has
been stored, so the caller sees an error and the intent is armed. -/
theorem far_arm_is_stored :
    (handleArm Sample.options Sample.farMessage (Memory.boot 1000)).2.toOption.isSome = false ∧
    (handleArm Sample.options Sample.farMessage (Memory.boot 1000)).1.isArmed Sample.commitment =
      true ∧
    ¬ArmMet Sample.options Sample.farMessage (Memory.boot 1000) := by
  have hthrows : (handleArm Sample.options Sample.farMessage
      (Memory.boot 1000)).2.toOption.isSome = false := by decide +kernel
  refine ⟨hthrows, by decide +kernel, fun hmet => ?_⟩
  obtain ⟨result, hresult⟩ := hmet.total
  rw [hresult] at hthrows
  cases hthrows

end OneSig.Latch
