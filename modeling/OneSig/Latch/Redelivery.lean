/-
# An ARM delivered again

An ARM is a direct action: a client that has no answer sends it again, so the enclave has to
expect the same message twice.  `handleArm` looks at the state of the intent it finds.  If that
intent is still armed the second delivery is a retry: it is answered like the first and changes
nothing.  Once the intent has fired, expired, or been collected or cancelled, the same message
stores a second intent in its place and counts it.

`redelivery_changes_nothing_iff` says exactly that, in every reachable state and for every message
that has been accepted before and whose deadline is still ahead: the second delivery changes
nothing if and only if the intent of the message is armed, or the deadline lies too far ahead for
an ARM to be accepted.  The second case needs a clock that was set back, since the same deadline
was near enough before.

* `reply_handled`: every reply that was seen is a handler's, given in some state of the run.  This
  is what turns "has been accepted" into a message that can be read.
* `parseArm_of_accepted`: an accepted ARM is one that can be read, so the second delivery is read
  the same.
* `create_ne`: storing an intent is a change, since the counters go up.

In the example an intent is armed and cancelled, and the message it was armed with revives it.
-/
import OneSig.Latch.Seal
import OneSig.Latch.Steps

namespace OneSig.Latch

open Async (Run)

variable {o : Options}

/-! ## 1. Where a reply comes from -/

/-- **Every reply that was seen is a handler's**, computed in the memory of some moment of the
run; nothing else puts a reply on record. -/
theorem reply_handled {ok : Event o → Sys o → Prop} {now : ℚ} {s : Sys o}
    (hrun : Run ok (Sys.fresh o now) s) {command : Command} {msg : Str}
    {result : Except JsError HandlerResult} (h : Seen.reply command msg result ∈ s.seen) :
    ∃ m, (handle o command msg m).2 = result := by
  refine hrun.invariant (P := fun s : Sys o => Seen.reply command msg result ∈ s.seen →
    ∃ m, (handle o command msg m).2 = result) (fun h₀ => by cases h₀) ?_ h
  intro s s' e ih _ hst hmem
  rcases seen_step hst with hw | ⟨trigger, now, fired, hw⟩ | ⟨x, rfl, hw⟩
  · rw [hw] at hmem
    exact ih hmem
  · rw [hw] at hmem
    rcases List.mem_cons.mp hmem with heq | hold
    · cases heq
    · exact ih hold
  · rw [hw] at hmem
    cases x with
    | request command' msg' =>
      rcases List.mem_cons.mp hmem with heq | hold
      · cases heq
        exact ⟨s.mem, rfl⟩
      · exact ih hold
    | state =>
      rcases List.mem_cons.mp hmem with heq | hold
      · cases heq
      · exact ih hold
    | clock now => exact ih hmem

/-! ## 2. The second delivery -/

/-- An accepted ARM is one that can be read. -/
theorem parseArm_of_accepted {msg : Str} {m : Memory} {k : Hex} {again : Bool}
    (h : (handleArm o msg m).2 = ok (.armed k again)) :
    ∃ req, parseArm o msg = .ok req ∧ req.commitment = k := by
  unfold handleArm at h
  split at h
  case h_1 refusal _ => cases refusal <;> cases h
  case h_2 req hreq =>
    refine ⟨req, hreq, ?_⟩
    unfold arm at h
    split_ifs at h
    · cases h
    · cases h
    · cases h
      rfl
    · cases hdesc : describeTrigger req.trigger with
      | ok u =>
        rw [hdesc] at h
        cases h
        rfl
      | error e =>
        rw [hdesc] at h
        cases h

/-- Storing an intent is a change. -/
theorem Memory.create_ne (m : Memory) (req : ArmRequest) : m.create req ≠ m := by
  intro h
  have hlen := congrArg (fun m : Memory => m.heap.length) h
  simp [Memory.create] at hlen

theorem arm_unchanged_iff {req : ArmRequest} {m : Memory} (hdue : m.now < req.deadline) :
    (arm o req m).1 = m ↔
      m.isArmed req.commitment = true ∨ m.now + o.maxDeadlineMs < req.deadline := by
  unfold arm
  rw [if_neg (Rat.not_le.mpr hdue)]
  split_ifs with hfar harmed
  · exact iff_of_true rfl (Or.inr hfar)
  · exact iff_of_true rfl (Or.inl harmed)
  · refine iff_of_false (m.create_ne req) ?_
    rintro (h | h)
    · exact harmed h
    · exact hfar h

/-- **A delivered ARM is a retry while its intent is armed, and no longer.**  The second case is
a clock that was set back, so that the deadline is too far away again. -/
theorem redelivery_changes_nothing_iff {now : ℚ} {s : Sys o}
    (hrun : Run (fun _ _ => True) (Sys.fresh o now) s) {msg : Str} {k : Hex} {again : Bool}
    (haccepted : Seen.reply .arm msg (ok (.armed k again)) ∈ s.seen) :
    ∃ req, parseArm o msg = .ok req ∧ req.commitment = k ∧
      (s.mem.now < req.deadline → ((handleArm o msg s.mem).1 = s.mem ↔
        s.mem.isArmed k = true ∨ s.mem.now + o.maxDeadlineMs < req.deadline)) := by
  obtain ⟨m, hm⟩ := reply_handled hrun haccepted
  obtain ⟨req, hreq, rfl⟩ := parseArm_of_accepted hm
  refine ⟨req, hreq, rfl, fun hdue => ?_⟩
  have harm : handleArm o msg s.mem = arm o req s.mem := by
    simp only [handleArm, hreq]
  rw [harm]
  exact arm_unchanged_iff hdue

namespace Sample

/-- An intent is armed and cancelled. -/
def cancelled : List (Event options) :=
  [.clock 1000, .request .arm armMessage, .request .cancel namedMessage]

/-- The ARM was accepted, and what the same message would do after the CANCEL. -/
theorem cancelled_run : ∃ s : Sys options, Async.Sys.run cancelled (Sys.fresh _ 0) = some s ∧
    Seen.reply .arm armMessage (ok (.armed commitment false)) ∈ s.seen ∧
    s.mem.now < 9000 ∧ s.mem.isArmed commitment = false ∧ s.mem.armedTotal = 1 ∧
    (handleArm options armMessage s.mem).1.isArmed commitment = true ∧
    (handleArm options armMessage s.mem).1.armedTotal = 2 := by
  have hrun : (Async.Sys.run cancelled (Sys.fresh options 0)).map (fun s =>
      decide (Seen.reply .arm armMessage (ok (.armed commitment false)) ∈ Sys.seen s ∧
        s.mem.now < 9000 ∧ s.mem.isArmed commitment = false ∧ s.mem.armedTotal = 1 ∧
        (handleArm options armMessage s.mem).1.isArmed commitment = true ∧
        (handleArm options armMessage s.mem).1.armedTotal = 2)) = some true := by
    decide +kernel
  obtain ⟨s, hs, hend⟩ := Option.map_eq_some_iff.mp hrun
  exact ⟨s, hs, of_decide_eq_true hend⟩

end Sample

theorem redelivery_changes_nothing_iff_sample :
    ∃ s : Sys Sample.options, Async.Sys.run Sample.cancelled (Sys.fresh _ 0) = some s ∧
      ∃ req, parseArm Sample.options Sample.armMessage = .ok req ∧
        req.commitment = Sample.commitment ∧ (s.mem.now < req.deadline →
          ((handleArm Sample.options Sample.armMessage s.mem).1 = s.mem ↔
            s.mem.isArmed Sample.commitment = true ∨
              s.mem.now + Sample.options.maxDeadlineMs < req.deadline)) := by
  obtain ⟨s, hs, haccepted, -⟩ := Sample.cancelled_run
  exact ⟨s, hs, redelivery_changes_nothing_iff
    (Run.of_run Sample.cancelled (fun _ _ _ => trivial) hs) haccepted⟩

/-- **A cancelled intent is revived** by the message it was armed with: it is armed again, and
counted twice. -/
theorem redelivered_arm_revives :
    ∃ s : Sys Sample.options, Async.Sys.run Sample.cancelled (Sys.fresh _ 0) = some s ∧
      Seen.reply .arm Sample.armMessage (ok (.armed Sample.commitment false)) ∈ s.seen ∧
      s.mem.now < 9000 ∧ s.mem.isArmed Sample.commitment = false ∧ s.mem.armedTotal = 1 ∧
      (handleArm Sample.options Sample.armMessage s.mem).1.isArmed Sample.commitment = true ∧
      (handleArm Sample.options Sample.armMessage s.mem).1.armedTotal = 2 :=
  Sample.cancelled_run

end OneSig.Latch
