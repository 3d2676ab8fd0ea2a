/-
# Which intent a commitment names

The map of intents is keyed by what `keccak256` returns, which is in lower case.  A client may
write a commitment in any case.  STATUS looks it up in lower case first and then as it was sent;
CANCEL and COLLECT look it up as it was sent only.  So the three agree on the lower-case spelling,
and on any other one only where there is nothing to find.

Agreement is stated by what a client can observe, over any text as a commitment and in any
reachable state: `CommandsAgree` says that what STATUS finds is what CANCEL and COLLECT find, so
that an intent it reports as armed can be cancelled by the same message, and one it reports as
fired can be collected.

* `commandsAgree_of_resolve`: commands that find the same intent agree, whatever the intent is.
* `resolve_iff`: the two lookups find the same exactly when the text is its own lower-case
  spelling or when its lower-case spelling names nothing.  Here the invariant of the memory is
  used, that every key is 32 bytes in lower case; a text in another case is therefore never a key
  itself.
* `commands_agree_iff` is the result, an equivalence for every text in every reachable state.

The last section arms an intent and names it in upper case: STATUS reports it as armed, and CANCEL
with the same message does not find it.
-/
import OneSig.Latch.Lifecycle

namespace OneSig.Latch

open Async (Run)

variable {o : Options}

/-- The intent STATUS finds. -/
def Memory.statusLookup (m : Memory) (commitment : Str) : Option (Ref × Intent) :=
  (m.lookup (toLowerCase commitment)).or (m.lookup commitment)

/-- STATUS reports a state. -/
def ReportsState (o : Options) (m : Memory) (msg : Str) (state : IntentState) : Prop :=
  ∃ armedAt deadline firedAt,
    (handleStatus o msg m).2 = ok (.status state armedAt deadline firedAt)

/-- The commands agree on what a commitment names: what STATUS finds is what CANCEL and COLLECT
find, so that what it reports as armed can be cancelled, and what it reports as fired collected. -/
structure CommandsAgree (o : Options) (m : Memory) (commitment : Str) : Prop where
  resolve : m.statusLookup commitment = m.lookup commitment
  cancel : ∀ msg msg', namedCommitment o.engine msg = .ok commitment →
    namedCommitment o.engine msg' = .ok commitment → ReportsState o m msg .armed →
    (handleCancel o msg' m).2 = ok (.cancelled commitment)
  collect : ∀ msg msg', namedCommitment o.engine msg = .ok commitment →
    namedCommitment o.engine msg' = .ok commitment → ReportsState o m msg .fired →
    ∃ userOpData firedAt, (handleCollect o msg' m).2 = ok (.released userOpData firedAt)

section Spelling

variable {m : Memory} {msg commitment : Str}

theorem ReportsState.found {state : IntentState} (h : ReportsState o m msg state)
    (hname : namedCommitment o.engine msg = .ok commitment) :
    ∃ r intent, m.statusLookup commitment = some (r, intent) ∧ intent.state = state := by
  obtain ⟨armedAt, deadline, firedAt, h⟩ := h
  rw [handleStatus, hname] at h
  cases hfound : m.statusLookup commitment with
  | none =>
    rw [Memory.statusLookup] at hfound
    simp only [hfound] at h
    cases h
  | some found =>
    obtain ⟨r, intent⟩ := found
    rw [Memory.statusLookup] at hfound
    simp only [hfound] at h
    cases h
    exact ⟨r, intent, rfl, rfl⟩

theorem handleCancel_found {r : Ref} {intent : Intent}
    (hname : namedCommitment o.engine msg = .ok commitment)
    (hlookup : m.lookup commitment = some (r, intent)) (harmed : intent.state = .armed) :
    (handleCancel o msg m).2 = ok (.cancelled commitment) := by
  simp [handleCancel, hname, hlookup, harmed]

theorem handleCollect_found {r : Ref} {intent : Intent}
    (hname : namedCommitment o.engine msg = .ok commitment)
    (hlookup : m.lookup commitment = some (r, intent)) (hfired : intent.state = .fired) :
    (handleCollect o msg m).2 = ok (.released intent.userOpData intent.firedAt) := by
  simp [handleCollect, hname, hlookup, hfired]

/-- Commands that find the same intent agree. -/
theorem commandsAgree_of_resolve (h : m.statusLookup commitment = m.lookup commitment) :
    CommandsAgree o m commitment := by
  refine ⟨h, fun msg msg' hname hname' hstate => ?_, fun msg msg' hname hname' hstate => ?_⟩
  · obtain ⟨r, intent, hfound, harmed⟩ := hstate.found hname
    exact handleCancel_found hname' (h ▸ hfound) harmed
  · obtain ⟨r, intent, hfound, hfired⟩ := hstate.found hname
    exact ⟨_, _, handleCollect_found hname' (h ▸ hfound) hfired⟩

/-- What STATUS finds under another spelling, CANCEL does not. -/
theorem resolve_iff (hv : o.viem.Lawful) (hm : m.Sound o) :
    m.statusLookup commitment = m.lookup commitment ↔
      toLowerCase commitment = commitment ∨ m.lookup (toLowerCase commitment) = none := by
  unfold Memory.statusLookup
  by_cases hlower : toLowerCase commitment = commitment
  · rw [hlower, Option.or_self]
    exact iff_of_true rfl (.inl rfl)
  · have hnone : m.lookup commitment = none := by
      rw [Option.eq_none_iff_forall_ne_some]
      rintro ⟨r, intent⟩ hlookup
      exact hlower (Lifecycle.key_lower hv hm hlookup)
    rw [hnone, Option.or_none, or_iff_right hlower]

end Spelling

/-- **The commands agree exactly on the lower-case spelling**, and where there is no intent:
STATUS looks a commitment up in lower case too, CANCEL and COLLECT only as it is spelled. -/
theorem commands_agree_iff (hv : o.viem.Lawful) {now : ℚ} {s : Sys o}
    (hrun : Run (fun _ _ => True) (Sys.fresh o now) s) (commitment : Str) :
    CommandsAgree o s.mem commitment ↔
      toLowerCase commitment = commitment ∨ s.mem.lookup (toLowerCase commitment) = none := by
  have hm : s.mem.Sound o := (Seal.inv_run hrun).sound
  rw [← resolve_iff hv hm]
  exact ⟨fun h => h.resolve, commandsAgree_of_resolve⟩

namespace Sample

/-- The commitment in upper case, and a message that names it. -/
def shouted : Str := hexPrefix ++ toUpperCase (commitment.drop 2)

def shoutedMessage : Str := message "\x7b\"commitment\":\"" shouted "\"\x7d"

/-- The enclave with one armed intent. -/
def withArmed : List (Event options) := [.clock 1000, .request .arm armMessage]

end Sample

theorem commands_agree_lower : ∃ s : Sys Sample.options,
    (Async.Sys.run Sample.withArmed (Sys.fresh _ 0)) = some s ∧
    s.mem.isArmed Sample.commitment = true ∧
    CommandsAgree Sample.options s.mem Sample.commitment := by
  have harmed : ((Async.Sys.run Sample.withArmed (Sys.fresh _ 0)).map fun s =>
      s.mem.isArmed Sample.commitment) = some true := by decide +kernel
  obtain ⟨s, hs, hstate⟩ := Option.map_eq_some_iff.mp harmed
  refine ⟨s, hs, hstate, ?_⟩
  exact (commands_agree_iff Sample.viem_lawful
    (Run.of_run Sample.withArmed (fun _ _ _ => trivial) hs) _).mpr (.inl (by decide +kernel))

/-- **In upper case the armed intent is reported and cannot be cancelled**: STATUS finds it under
that spelling, and CANCEL answers that there is no such intent. -/
theorem shouted_commitment_stays : ∃ s : Sys Sample.options,
    (Async.Sys.run Sample.withArmed (Sys.fresh _ 0)) = some s ∧
    namedCommitment Sample.options.engine Sample.shoutedMessage = .ok Sample.shouted ∧
    ReportsState Sample.options s.mem Sample.shoutedMessage .armed ∧
    (handleCancel Sample.options Sample.shoutedMessage s.mem).2 =
      fail "no such intent".toList ∧
    ¬CommandsAgree Sample.options s.mem Sample.shouted := by
  have hname : namedCommitment Sample.options.engine Sample.shoutedMessage =
      .ok Sample.shouted := by decide +kernel
  have hreplies : ((Async.Sys.run Sample.withArmed (Sys.fresh _ 0)).map fun s =>
      ((handleStatus Sample.options Sample.shoutedMessage s.mem).2,
        (handleCancel Sample.options Sample.shoutedMessage s.mem).2)) =
      some (ok (.status .armed 1000 9000 none), fail "no such intent".toList) := by
    decide +kernel
  obtain ⟨s, hs, hboth⟩ := Option.map_eq_some_iff.mp hreplies
  obtain ⟨hstatus, hcancel⟩ := Prod.mk.inj hboth
  refine ⟨s, hs, hname, ⟨_, _, _, hstatus⟩, hcancel, fun h => ?_⟩
  have hagree := h.cancel _ _ hname hname ⟨_, _, _, hstatus⟩
  rw [hcancel] at hagree
  cases hagree

end OneSig.Latch
