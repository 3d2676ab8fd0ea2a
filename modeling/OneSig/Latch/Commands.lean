/-
# What a command does

The four handlers read a message, look the intent up and write it.  `Handled` is everything a
command can do, as its own case each: an ARM stores a new intent, a CANCEL drops an armed one with
its bytes, a COLLECT releases a fired one, a STATUS reads one, and otherwise nothing changes.
Each case carries what the handler has checked before, the reply it gives, and the memory it
leaves.  `handled` says that every command on every message in every memory is one of them; the
proofs about runs split on it and never open a handler.

Around it stand the notions that results about runs are stated with:

* `Memory.Sound`, the invariant of the map: it refers to the heap, every intent is kept under its
  own commitment, which is a hash in lower case, no object is there twice, and `armedTotal` counts
  the objects.
* What was seen.  A run keeps the replies of its commands and the checks of its ticks, newest
  first.  `cancels`, `releases` and `saysFired` read a success off an entry, `lastArm` is the ARM
  that created the intent of a commitment, and `sinceArm` what was seen since.
* An ARM is recognised in what was seen by its reply: it created an intent when the reply says so,
  and also when the message was accepted and the handler threw, which it then did after the intent
  was stored (`created`).

`Throughout P seen` says that `P` holds of everything that was seen, and of what had been seen
before it; it is how a property of runs is written that looks back at the past of each step.
-/
import OneSig.Latch.Handlers

namespace OneSig.Latch

/-! ## 1. The memory -/

/-- The map refers to the heap, every intent is kept under its own commitment, which is a hash,
and `armedTotal` counts the objects. -/
structure Memory.Sound (o : Options) (m : Memory) : Prop where
  refs : ∀ k r, (k, r) ∈ m.intents.pairs → ∃ intent, m.heap[r]? = some intent ∧ intent.commitment = k
  hashed : ∀ intent ∈ m.heap, ∃ b, o.viem.keccak256 b = .ok intent.commitment
  counted : m.armedTotal = m.heap.length

/-- What is written to an intent leaves what it was armed with. -/
structure Intent.Kept (intent intent' : Intent) : Prop where
  commitment : intent'.commitment = intent.commitment
  trigger : intent'.trigger = intent.trigger
  deadline : intent'.deadline = intent.deadline

theorem Intent.Kept.refl (intent : Intent) : intent.Kept intent := ⟨rfl, rfl, rfl⟩

theorem Intent.Kept.trans {i i' i'' : Intent} (h : i.Kept i') (h' : i'.Kept i'') : i.Kept i'' :=
  ⟨h'.commitment.trans h.commitment, h'.trigger.trans h.trigger, h'.deadline.trans h.deadline⟩

theorem Intent.drop_kept (state : IntentState) (intent : Intent) :
    intent.Kept (intent.drop state) := ⟨rfl, rfl, rfl⟩

theorem Intent.fire_kept (now : ℚ) (intent : Intent) : intent.Kept (intent.fire now) :=
  ⟨rfl, rfl, rfl⟩

theorem Intent.collect_kept (intent : Intent) : intent.Kept intent.collect := ⟨rfl, rfl, rfl⟩

namespace Memory

variable {o : Options} {m : Memory} {req : ArmRequest} {r : Ref} {f : Intent → Intent}

theorem lookup_eq_some {k : Str} {intent : Intent} : m.lookup k = some (r, intent) ↔
    (k, r) ∈ m.intents.pairs ∧ m.heap[r]? = some intent := by
  simp only [lookup, Option.bind_eq_some_iff, Option.map_eq_some_iff, Prod.mk.injEq,
    JsMap.get?_eq_some]
  constructor
  · rintro ⟨r', hk, intent', hr, rfl, rfl⟩
    exact ⟨hk, hr⟩
  · rintro ⟨hk, hr⟩
    exact ⟨r, hk, intent, hr, rfl, rfl⟩

theorem update_heap (j : Ref) :
    (m.update r f).heap[j]? = if r = j then (m.heap[j]?).map f else m.heap[j]? := by
  rw [update, List.getElem?_modify]
  split <;> simp

theorem update_length : (m.update r f).heap.length = m.heap.length := List.length_modify ..

/-- The last object is the new one. -/
theorem create_heap {j : Ref} {intent : Intent} (h : (m.create req).heap[j]? = some intent) :
    m.heap[j]? = some intent ∨ (j = m.heap.length ∧
      intent = ⟨req.commitment, req.userOpData, req.trigger, req.deadline, .armed, m.now, none⟩) := by
  simp only [create] at h
  rcases Nat.lt_or_ge j m.heap.length with hj | hj
  · rw [List.getElem?_append_left hj] at h
    exact Or.inl h
  · rw [List.getElem?_append_right hj, List.getElem?_singleton] at h
    split at h
    case isTrue hz =>
      refine Or.inr ⟨Nat.le_antisymm (Nat.le_of_sub_eq_zero hz) hj, ?_⟩
      simp only [Option.some.injEq] at h
      exact h.symm
    case isFalse => cases h

theorem create_heap_old {j : Ref} (h : j < m.heap.length) :
    (m.create req).heap[j]? = m.heap[j]? := List.getElem?_append_left h

/-! ### What is kept -/

theorem boot_sound (o : Options) (now : ℚ) : (boot now).Sound o :=
  ⟨by simp [boot], by simp [boot], rfl⟩

theorem Sound.update (h : m.Sound o) (hf : ∀ intent : Intent, intent.Kept (f intent)) :
    (m.update r f).Sound o := by
  refine ⟨?_, ?_, by rw [update_length]; exact h.counted⟩
  · intro k j hk
    obtain ⟨intent, hj, rfl⟩ := h.refs k j hk
    rw [update_heap]
    split
    · rw [hj]
      exact ⟨f intent, rfl, (hf intent).commitment⟩
    · exact ⟨intent, hj, rfl⟩
  · intro intent hmem
    obtain ⟨j, hj⟩ := List.mem_iff_getElem?.mp hmem
    rw [update_heap] at hj
    split at hj
    · obtain ⟨old, hold, rfl⟩ := Option.map_eq_some_iff.mp hj
      rw [(hf old).commitment]
      exact h.hashed old (List.mem_of_getElem? hold)
    · exact h.hashed intent (List.mem_of_getElem? hj)

theorem Sound.create (h : m.Sound o) (hreq : ∃ b, o.viem.keccak256 b = .ok req.commitment) :
    (m.create req).Sound o := by
  refine ⟨?_, ?_, ?_⟩
  · intro k j hk
    rcases JsMap.mem_pairs_set.mp hk with ⟨rfl, rfl⟩ | ⟨-, hk⟩
    · exact ⟨_, List.getElem?_concat_length .., rfl⟩
    · obtain ⟨intent, hj, rfl⟩ := h.refs k j hk
      refine ⟨intent, ?_, rfl⟩
      rw [create_heap_old (List.getElem?_eq_some_iff.mp hj).1, hj]
  · intro intent hmem
    obtain ⟨j, hj⟩ := List.mem_iff_getElem?.mp hmem
    rcases create_heap hj with hj | ⟨-, rfl⟩
    · exact h.hashed intent (List.mem_of_getElem? hj)
    · exact hreq
  · simp [Memory.create, h.counted]

/-- Different commitments have different objects. -/
theorem Sound.ref_unique (h : m.Sound o) {k k' : Str} (hk : (k, r) ∈ m.intents.pairs)
    (hk' : (k', r) ∈ m.intents.pairs) : k = k' := by
  obtain ⟨intent, hr, rfl⟩ := h.refs k r hk
  obtain ⟨intent', hr', rfl⟩ := h.refs k' r hk'
  rw [hr, Option.some.injEq] at hr'
  rw [hr']

theorem Sound.ref_lt (h : m.Sound o) {k : Str} (hk : (k, r) ∈ m.intents.pairs) :
    r < m.heap.length := by
  obtain ⟨intent, hr, -⟩ := h.refs k r hk
  exact (List.getElem?_eq_some_iff.mp hr).1

end Memory

/-! ## 2. What was seen -/

namespace Seen

/-- The request of an ARM that created an intent. -/
def created (o : Options) : Seen → Option ArmRequest
  | .reply .arm msg (.ok (.ok (.armed _ false))) => (parseArm o msg).toOption
  | .reply .arm msg (.error _) => (parseArm o msg).toOption
  | _ => none

/-- The request of an ARM that created an intent for a commitment. -/
def creates (o : Options) (commitment : Str) (e : Seen) : Option ArmRequest :=
  (e.created o).filter fun req => req.commitment = commitment

/-- A CANCEL of a commitment succeeded. -/
def cancels (commitment : Str) : Seen → Bool
  | .reply .cancel _ (.ok (.ok (.cancelled c))) => c = commitment
  | _ => false

/-- A COLLECT for a commitment succeeded. -/
def releases (o : Options) (commitment : Str) : Seen → Bool
  | .reply .collect msg (.ok (.ok (.released _ _))) => namedCommitment o.engine msg = .ok commitment
  | _ => false

/-- A STATUS for a commitment, in any case, said that its intent has fired. -/
def saysFired (o : Options) (commitment : Str) : Seen → Bool
  | .reply .status msg (.ok (.ok (.status .fired _ _ _))) =>
    (namedCommitment o.engine msg).map toLowerCase = .ok commitment
  | _ => false

end Seen

/-- The last ARM that created the intent of a commitment. -/
def lastArm (o : Options) (commitment : Str) (seen : List Seen) : Option ArmRequest :=
  seen.findSome? (Seen.creates o commitment)

/-- What was seen since. -/
def sinceArm (o : Options) (commitment : Str) (seen : List Seen) : List Seen :=
  seen.takeWhile fun e => (e.creates o commitment).isNone

/-- A property of everything that was seen, and of what had been seen before it. -/
def Throughout (P : Seen → List Seen → Prop) (seen : List Seen) : Prop :=
  ∀ later e earlier, seen = later ++ e :: earlier → P e earlier

theorem Throughout.cons {P : Seen → List Seen → Prop} {seen : List Seen} {e : Seen}
    (h : Throughout P seen) (he : P e seen) : Throughout P (e :: seen) := by
  intro later e' earlier heq
  cases later with
  | nil =>
    simp only [List.nil_append, List.cons.injEq] at heq
    obtain ⟨rfl, rfl⟩ := heq
    exact he
  | cons e₀ later =>
    simp only [List.cons_append, List.cons.injEq] at heq
    exact h later e' earlier heq.2

theorem Throughout.nil (P : Seen → List Seen → Prop) : Throughout P [] := by
  intro later e earlier heq
  simp at heq

section Since

variable {o : Options} {k : Str} {e : Seen} {req : ArmRequest}

theorem lastArm_of_creates (seen : List Seen) (h : e.creates o k = some req) :
    lastArm o k (e :: seen) = some req := by
  rw [lastArm, List.findSome?_cons, h]

theorem lastArm_of_none (seen : List Seen) (h : e.creates o k = none) :
    lastArm o k (e :: seen) = lastArm o k seen := by
  rw [lastArm, List.findSome?_cons, h]
  rfl

theorem sinceArm_of_creates (seen : List Seen) (h : e.creates o k = some req) :
    sinceArm o k (e :: seen) = [] := by
  rw [sinceArm, List.takeWhile_cons_of_neg (by simp [h])]

theorem creates_none (h : e.created o = none) : e.creates o k = none := by
  rw [Seen.creates, h]
  rfl

theorem sinceArm_of_none (seen : List Seen) (h : e.creates o k = none) :
    sinceArm o k (e :: seen) = e :: sinceArm o k seen := by
  rw [sinceArm, List.takeWhile_cons_of_pos (by simp [h])]
  rfl

end Since

/-! ## 3. The commands -/

/-- A reply that changes nothing: neither a new intent, nor a success of CANCEL or COLLECT, nor
the state of an intent. -/
def Quiet (o : Options) (e : Seen) : Prop :=
  e.created o = none ∧ ∀ k, e.cancels k = false ∧ e.releases o k = false ∧ e.saysFired o k = false

/-- What a command can do. -/
inductive Handled (o : Options) (m : Memory) :
    Command → Str → Memory → Except JsError HandlerResult → Prop
  | quiet {command : Command} {msg : Str} {result : Except JsError HandlerResult}
      (hquiet : Quiet o (.reply command msg result)) : Handled o m command msg m result
  | created {msg : Str} {req : ArmRequest} {result : Except JsError HandlerResult}
      (hreq : parseArm o msg = .ok req) (hnew : m.isArmed req.commitment = false)
      (hcreated : (Seen.reply .arm msg result).created o = some req) :
      Handled o m .arm msg (m.create req) result
  | status {msg : Str} {named k : Str} {r : Ref} {intent : Intent} {firedAt : Option ℚ}
      (hname : namedCommitment o.engine msg = .ok named)
      (hkey : k = toLowerCase named ∨ k = named)
      (hlookup : m.lookup k = some (r, intent)) :
      Handled o m .status msg m (ok (.status intent.state intent.armedAt intent.deadline firedAt))
  | cancelled {msg : Str} {k : Str} {r : Ref} {intent : Intent}
      (hname : namedCommitment o.engine msg = .ok k) (hlookup : m.lookup k = some (r, intent))
      (harmed : intent.state = .armed) :
      Handled o m .cancel msg (m.update r (Intent.drop .cancelled)) (ok (.cancelled k))
  | collected {msg : Str} {k : Str} {r : Ref} {intent : Intent}
      (hname : namedCommitment o.engine msg = .ok k) (hlookup : m.lookup k = some (r, intent))
      (hstate : intent.state = .fired ∨ intent.state = .collected) :
      Handled o m .collect msg (m.update r Intent.collect)
        (ok (.released intent.userOpData intent.firedAt))

section Handlers

variable {o : Options} {m : Memory} {msg : Str}

/-- A refused message is answered quietly. -/
theorem quiet_fail (o : Options) (command : Command) (msg message : Str) :
    Quiet o (.reply command msg (fail message)) := by
  cases command <;> exact ⟨rfl, fun _ => ⟨rfl, rfl, rfl⟩⟩

theorem quiet_refusal (o : Options) {command : Command} (hcommand : command ≠ .arm) (msg : Str)
    (refusal : Refusal) : Quiet o (.reply command msg refusal.result) := by
  cases refusal with
  | reject message => exact quiet_fail o command msg message
  | thrown e =>
    cases command with
    | arm => exact absurd rfl hcommand
    | _ => exact ⟨rfl, fun _ => ⟨rfl, rfl, rfl⟩⟩

theorem handleArm_handled (o : Options) (m : Memory) (msg : Str) :
    Handled o m .arm msg (handleArm o msg m).1 (handleArm o msg m).2 := by
  unfold handleArm
  split
  case h_1 refusal hparse =>
    refine .quiet ?_
    cases refusal with
    | reject message => exact quiet_fail o .arm msg message
    | thrown e =>
      refine ⟨?_, fun _ => ⟨rfl, rfl, rfl⟩⟩
      simp [Refusal.result, Seen.created, hparse, Except.toOption]
  case h_2 req hparse =>
    unfold arm
    split_ifs with hpast hfar harmed
    · exact .quiet (quiet_fail o .arm msg _)
    · exact .quiet (quiet_fail o .arm msg _)
    · exact .quiet ⟨rfl, fun _ => ⟨rfl, rfl, rfl⟩⟩
    · refine .created hparse (by simpa using harmed) ?_
      cases describeTrigger req.trigger with
      | ok u => simp [Except.map, Seen.created, hparse, Except.toOption]
      | error e => simp [Except.map, Seen.created, hparse, Except.toOption]

theorem handleStatus_handled (o : Options) (m : Memory) (msg : Str) :
    Handled o m .status msg (handleStatus o msg m).1 (handleStatus o msg m).2 := by
  unfold handleStatus
  split
  case h_1 refusal _ => exact .quiet (quiet_refusal o (by decide) msg refusal)
  case h_2 named hname =>
    split
    case h_1 => exact .quiet ⟨rfl, fun _ => ⟨rfl, rfl, rfl⟩⟩
    case h_2 r intent hlookup =>
      rcases Option.or_eq_some_iff.mp hlookup with hlower | ⟨-, hexact⟩
      · exact .status hname (Or.inl rfl) hlower
      · exact .status hname (Or.inr rfl) hexact

theorem handleCancel_handled (o : Options) (m : Memory) (msg : Str) :
    Handled o m .cancel msg (handleCancel o msg m).1 (handleCancel o msg m).2 := by
  unfold handleCancel
  split
  case h_1 refusal _ => exact .quiet (quiet_refusal o (by decide) msg refusal)
  case h_2 k hname =>
    split
    case h_1 => exact .quiet (quiet_fail o .cancel msg _)
    case h_2 r intent hlookup =>
      split_ifs with hstate
      · exact .quiet (quiet_fail o .cancel msg _)
      · exact .cancelled hname hlookup (not_not.mp hstate)

theorem handleCollect_handled (o : Options) (m : Memory) (msg : Str) :
    Handled o m .collect msg (handleCollect o msg m).1 (handleCollect o msg m).2 := by
  unfold handleCollect
  split
  case h_1 refusal _ => exact .quiet (quiet_refusal o (by decide) msg refusal)
  case h_2 k hname =>
    split
    case h_1 => exact .quiet (quiet_fail o .collect msg _)
    case h_2 r intent hlookup =>
      cases hstate : intent.state with
      | armed => exact .quiet (quiet_fail o .collect msg _)
      | cancelled => exact .quiet (quiet_fail o .collect msg _)
      | expired => exact .quiet (quiet_fail o .collect msg _)
      | fired => exact .collected hname hlookup (Or.inl hstate)
      | collected => exact .collected hname hlookup (Or.inr hstate)

/-- **Every command is one of the cases** of `Handled`, which say what it does to the memory and
what it replies; the results about commands split over these. -/
theorem handled (o : Options) (command : Command) (msg : Str) (m : Memory) :
    Handled o m command msg (handle o command msg m).1 (handle o command msg m).2 := by
  cases command with
  | arm => exact handleArm_handled o m msg
  | status => exact handleStatus_handled o m msg
  | cancel => exact handleCancel_handled o m msg
  | collect => exact handleCollect_handled o m msg

/-- The commitment of an accepted ARM is the hash of its bytes, which are not empty. -/
theorem parseArm_hash {req : ArmRequest} (h : parseArm o msg = .ok req) :
    o.viem.keccak256 req.userOpData = .ok req.commitment ∧ req.userOpData ≠ hexPrefix := by
  unfold parseArm at h
  obtain ⟨j, -, h⟩ := bind_ok h
  obtain ⟨userOpData, hdata, h⟩ := bind_ok h
  obtain ⟨commitment, hhash, h⟩ := bind_ok h
  obtain ⟨-, -, h⟩ := bind_ok h
  obtain ⟨trigger, -, h⟩ := bind_ok h
  obtain ⟨deadline, -, h⟩ := bind_ok h
  cases h
  obtain ⟨-, hlong⟩ := stringField_ok hdata
  rw [Bool.and_eq_true, decide_eq_true_eq] at hlong
  refine ⟨?_, ?_⟩
  · cases hk : o.viem.keccak256 userOpData with
    | ok c =>
      rw [hk] at hhash
      cases hhash
      rfl
    | error e =>
      rw [hk] at hhash
      cases hhash
  · rintro rfl
    exact absurd hlong.2 (by decide)

end Handlers

end OneSig.Latch
