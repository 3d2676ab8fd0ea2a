/-
# What is seen of an intent before it fires

The bytes of an intent are sealed until it fires.  To say that nothing of them can be seen before,
one takes two runs with the same requests, clock and readings, in which one intent is armed with
other bytes.  Its commitment is another one then, and the requests that name it name the other
one.  Until it fires, the replies of the second run are those of the first with the one commitment
written for the other, and `GET /state` answers alike to the letter.

* `SameMessage` says what the two requests of a pair may differ in: the bytes behind the
  commitment, and the commitment where it names the intent.  For the rest they are the same, and
  neither commitment occurs in any other text, in any case.
* `SameMemory` is what stays equal of the memories: everything but that commitment and those
  bytes, with the objects in the same places.  The ticks of the two runs stand at the same place,
  since a tick reads the trigger, the deadline and the state of an intent, and never its bytes.
* A reply is put together from fixed texts, hashes and numbers.  `renamed` writes the one
  commitment for the other in it, and section 1 says when that can be done part by part: no fixed
  text of the source holds a hash, and two hashes do not overlap.
* `handle_same`: a command answers alike and leaves alike memories; COLLECT is where the bytes
  come out, and not before the intent has fired.

`bytes_unobservable` is the result over every pair of runs, by the rules for two runs side by
side.  The hash itself is taken as it is: whoever can guess the bytes can check the guess against
the commitment, which is public.
-/
import OneSig.Lib.Pointwise
import OneSig.Lib.Replace
import OneSig.Latch.Seal
import OneSig.Latch.Steps

namespace OneSig.Latch

open Async (Task Prog)

variable {o : Options}

namespace Secrecy

/-! ## 1. Texts -/

section Texts

variable {c c' : Hex}

theorem length_hash (hc : IsLowerHex 32 c) : c.length = 66 := by
  obtain ⟨bs, hlen, rfl⟩ := hc
  rw [List.length_append, Bytes.length_hexEncode, hlen]
  rfl

theorem hash_ne_nil (hc : IsLowerHex 32 c) : c ≠ [] := by
  obtain ⟨bs, -, rfl⟩ := hc
  exact nofun

/-- A character that is neither a digit nor the `x`. -/
theorem notMem_hash (hc : IsLowerHex 32 c) {a : Char} (ha : Bytes.isLowerHexDigit a = false)
    (hx : a ≠ 'x') : a ∉ c := by
  obtain ⟨bs, -, rfl⟩ := hc
  intro hmem
  rcases List.mem_append.mp hmem with hmem | hmem
  · have h0 : a = '0' ∨ a = 'x' := by simpa [hexPrefix] using hmem
    rcases h0 with rfl | rfl
    · cases ha
    · exact hx rfl
  · rw [Bytes.hexEncode_lower bs a hmem] at ha
    cases ha

/-- A hash is not in a text that is shorter. -/
theorem absent_of_short (hc : IsLowerHex 32 c) {t : Str} (ht : t.length < 66) : ¬c <:+: t := by
  intro hin
  have hle := hin.length_le
  rw [length_hash hc] at hle
  omega

/-- Nor in another hash. -/
theorem absent_of_hash (hc : IsLowerHex 32 c) {h : Hex} (hh : IsLowerHex 32 h) (hne : h ≠ c) :
    ¬c <:+: h := by
  intro hin
  refine hne (hin.eq_of_length ?_).symm
  rw [length_hash hc, length_hash hh]

end Texts

/-- A text of the first run as the second has it. -/
def renamed (c c' : Hex) (t : Str) : Str := List.replaceAll c c' t

section Renamed

variable {c c' : Hex}

theorem renamed_absent {t : Str} (h : ¬c <:+: t) : renamed c c' t = t :=
  List.replaceAll_of_absent h

theorem renamed_short (hc : IsLowerHex 32 c) {t : Str} (ht : t.length < 66) : renamed c c' t = t :=
  renamed_absent (absent_of_short hc ht)

theorem renamed_self (hc : IsLowerHex 32 c) : renamed c c' c = c' :=
  List.replaceAll_self (hash_ne_nil hc)

/-- Text without the first digit is passed over. -/
theorem renamed_append (hc : IsLowerHex 32 c) {a : Str} (ha : '0' ∉ a) (b : Str) :
    renamed c c' (a ++ b) = a ++ renamed c c' b := by
  obtain ⟨bs, -, rfl⟩ := hc
  exact List.replaceAll_append_of_notMem ha

/-- The answer to a claim that is not the hash, with the hash. -/
theorem renamed_mismatch (hc : IsLowerHex 32 c) (claimed h : Str) :
    renamed c c' ("commitment mismatch: claimed ".toList ++ claimed ++
      ", keccak256(userOpData) is ".toList ++ h) =
    "commitment mismatch: claimed ".toList ++ renamed c c' claimed ++
      ", keccak256(userOpData) is ".toList ++ renamed c c' h := by
  have hcomma : ',' ∉ c := notMem_hash hc (by decide) (by decide)
  have hsplit : ", keccak256(userOpData) is ".toList = ',' :: " keccak256(userOpData) is ".toList :=
    rfl
  have hfirst : '0' ∉ "commitment mismatch: claimed ".toList := by decide +kernel
  have hsecond : '0' ∉ " keccak256(userOpData) is ".toList := by decide +kernel
  rw [List.append_assoc, List.append_assoc, renamed_append hc hfirst, hsplit, List.cons_append,
    renamed, List.replaceAll_split (hash_ne_nil hc) hcomma, ← renamed, ← renamed,
    renamed_append hc hsecond, List.append_assoc, List.append_assoc, List.cons_append]

end Renamed

/-! ## 2. Requests -/

/-- Neither commitment is in a text, in any case. -/
def Foreign (c c' : Hex) (t : Str) : Prop := ¬c <:+: toLowerCase t ∧ ¬c' <:+: toLowerCase t

/-- The `commitment` of two requests. -/
inductive SameName (c c' : Hex) : Option Json → Option Json → Prop
  | named : SameName c c' (some (.str c)) (some (.str c'))
  | other {v : Option Json} (h : ∀ t, v = some (.str t) → Foreign c c' t) : SameName c c' v v

/-- What `handleArm` takes for bytes. -/
def validBytes (b : Str) : Bool := isHexText Bytes.isHexDigit b && decide (4 ≤ b.length)

/-- The `userOpData` of two requests: the bytes behind the commitments, or other ones. -/
inductive SameBytes (o : Options) (c c' : Hex) : Option Json → Option Json → Prop
  | bytes {b b' : Str} (hvalid : validBytes b = true) (hvalid' : validBytes b' = true)
      (hb : o.viem.keccak256 b = .ok c) (hb' : o.viem.keccak256 b' = .ok c') :
      SameBytes o c c' (some (.str b)) (some (.str b'))
  | other {v : Option Json} (h : ∀ b, v = some (.str b) → ¬c <:+: b ∧
      o.viem.keccak256 b ≠ .ok c ∧ o.viem.keccak256 b ≠ .ok c') : SameBytes o c c' v v

/-- The deadline of a request. -/
def readDeadline (j : Json) : Except Refusal ℚ :=
  numberField (fun _ => true) "deadline must be unix milliseconds" (fieldOf j "deadline")

/-- Two requests, field by field. -/
structure SameFields (o : Options) (c c' : Hex) (j j' : Json) : Prop where
  userOpData : SameBytes o c c' (fieldOf j "userOpData") (fieldOf j' "userOpData")
  commitment : SameName c c' (fieldOf j "commitment") (fieldOf j' "commitment")
  trigger : parseTrigger (fieldOf j' "trigger") = parseTrigger (fieldOf j "trigger")
  deadline : readDeadline j' = readDeadline j
  refused : ∀ t, parseTrigger (fieldOf j "trigger") = .error (.reject t) → ¬c <:+: t

/-- **Two messages that differ in the bytes of one intent only**, and in the commitment that names
it, which both use for nothing else.  A message that cannot be read is the same in both runs. -/
inductive SameMessage (o : Options) (c c' : Hex) : Str → Str → Prop
  | read {msg msg' : Str} {j j' : Json} (h : decodeJson o.engine msg = .ok j)
      (h' : decodeJson o.engine msg' = .ok j') (hfields : SameFields o c c' j j') :
      SameMessage o c c' msg msg'
  | unread {msg t : Str} (h : decodeJson o.engine msg = .error (.reject t)) (habsent : ¬c <:+: t) :
      SameMessage o c c' msg msg

/-- What comes of reading two ARM messages. -/
inductive SameArm (c c' : Hex) : Except Refusal ArmRequest → Except Refusal ArmRequest → Prop
  | refused (t : Str) : SameArm c c' (.error (.reject t)) (.error (.reject (renamed c c' t)))
  | thrown (e : JsError) : SameArm c c' (.error (.thrown e)) (.error (.thrown e))
  | read {u u' : Str} {k k' : Hex} (hk : SameKey c c' k k') (hlower : IsLowerHex 32 k)
      (hu : k = c ∨ (u' = u ∧ ¬c <:+: u)) (trigger : Trigger) (deadline : ℚ) :
      SameArm c c' (.ok ⟨u, k, trigger, deadline⟩) (.ok ⟨u', k', trigger, deadline⟩)

section Reading

variable {c c' : Hex}

/-- A text in which `c` is absent in lower case. -/
theorem Foreign.absent (hc : IsLowerHex 32 c) {t : Str} (h : Foreign c c' t) : ¬c <:+: t := by
  rintro ⟨before, after, rfl⟩
  refine h.1 ⟨toLowerCase before, toLowerCase after, ?_⟩
  rw [toLowerCase_append, toLowerCase_append, hc.toLowerCase_eq]

/-- A claim is accepted in both runs, or in neither. -/
theorem checkClaimed_same (hc : IsLowerHex 32 c) (hc' : IsLowerHex 32 c') {k k' : Hex}
    (hk : SameKey c c' k k') (hlower : IsLowerHex 32 k) {v v' : Option Json}
    (hv : SameName c c' v v') :
    (checkClaimed k v = .ok () ∧ checkClaimed k' v' = .ok ()) ∨
      ∃ t, checkClaimed k v = reject t ∧ checkClaimed k' v' = reject (renamed c c' t) := by
  cases hv with
  | named =>
    cases hk with
    | named => exact Or.inl ⟨if_pos rfl, if_pos rfl⟩
    | other hne hne' =>
      refine Or.inr ⟨_, if_neg ?_, ?_⟩
      · rw [hc.toLowerCase_eq, hlower.toLowerCase_eq]
        exact hne.symm
      · rw [renamed_mismatch hc, renamed_self hc, renamed_absent (absent_of_hash hc hlower hne)]
        refine if_neg ?_
        rw [hc'.toLowerCase_eq, hlower.toLowerCase_eq]
        exact hne'.symm
  | other hforeign =>
    unfold checkClaimed
    split
    case h_2 => exact Or.inl ⟨rfl, rfl⟩
    case h_1 claimed =>
      have hclaimed := hforeign claimed rfl
      have hlowered : ∀ {h : Hex}, IsLowerHex 32 h → ¬h <:+: toLowerCase claimed →
          toLowerCase claimed ≠ toLowerCase h := by
        intro h hh habsent heq
        rw [heq, hh.toLowerCase_eq] at habsent
        exact habsent (List.infix_refl h)
      cases hk with
      | named =>
        rw [if_neg (hlowered hc hclaimed.1), if_neg (hlowered hc' hclaimed.2)]
        refine Or.inr ⟨_, rfl, ?_⟩
        rw [renamed_mismatch hc, renamed_self hc, renamed_absent (hclaimed.absent hc)]
      | other hne hne' =>
        split_ifs
        · exact Or.inl ⟨rfl, rfl⟩
        · refine Or.inr ⟨_, rfl, ?_⟩
          rw [renamed_mismatch hc, renamed_absent (hclaimed.absent hc),
            renamed_absent (absent_of_hash hc hlower hne)]

/-- A text is refused in both runs: as it is, or renamed. -/
theorem SameArm.short (hc : IsLowerHex 32 c) {t : Str} (ht : t.length < 66) :
    SameArm c c' (.error (.reject t)) (.error (.reject t)) := by
  have h : SameArm c c' _ _ := .refused t
  rwa [renamed_short hc ht] at h

/-- What follows the hash of the bytes. -/
theorem armFields_same (hc : IsLowerHex 32 c) (hc' : IsLowerHex 32 c') {j j' : Json}
    (hfields : SameFields o c c' j j') {u u' : Str} {k k' : Hex} (hk : SameKey c c' k k')
    (hlower : IsLowerHex 32 k) (hu : k = c ∨ (u' = u ∧ ¬c <:+: u)) :
    SameArm c c'
      (do
        checkClaimed k (fieldOf j "commitment")
        let trigger ← parseTrigger (fieldOf j "trigger")
        let deadline ← readDeadline j
        return ⟨u, k, trigger, deadline⟩)
      (do
        checkClaimed k' (fieldOf j' "commitment")
        let trigger ← parseTrigger (fieldOf j' "trigger")
        let deadline ← readDeadline j'
        return ⟨u', k', trigger, deadline⟩) := by
  rw [hfields.trigger, hfields.deadline]
  rcases checkClaimed_same hc hc' hk hlower hfields.commitment with ⟨h, h'⟩ | ⟨t, h, h'⟩
  · rw [h, h']
    cases htrigger : parseTrigger (fieldOf j "trigger") with
    | error refusal =>
      cases refusal with
      | reject t =>
        have hsame : SameArm c c' _ _ := .refused t
        rwa [renamed_absent (hfields.refused t htrigger)] at hsame
      | thrown e => exact .thrown e
    | ok trigger =>
      cases hdeadline : readDeadline j with
      | error refusal =>
        have htext : refusal = .reject "deadline must be unix milliseconds".toList := by
          unfold readDeadline numberField at hdeadline
          split at hdeadline
          · cases hdeadline
          · cases hdeadline
            rfl
        subst htext
        exact .short hc (by decide)
      | ok deadline => exact .read hk hlower hu trigger deadline
  · rw [h, h']
    exact .refused t

/-- **Two ARM messages that differ in the bytes of one intent are read alike**: both are refused
with texts that correspond, or both give intents that do. -/
theorem parseArm_same (hv : o.viem.Lawful) (hc : IsLowerHex 32 c) (hc' : IsLowerHex 32 c')
    {msg msg' : Str} (h : SameMessage o c c' msg msg') :
    SameArm c c' (parseArm o msg) (parseArm o msg') := by
  cases h with
  | @unread t h habsent =>
    have hparse : parseArm o msg = .error (.reject t) := by
      rw [parseArm, h]
      rfl
    have hsame : SameArm c c' _ _ := .refused t
    rwa [renamed_absent habsent, ← hparse] at hsame
  | @read _ j j' h h' hfields =>
    unfold parseArm
    rw [h, h']
    change SameArm c c' (stringField validBytes _ (fieldOf j "userOpData") >>= fun u => _)
      (stringField validBytes _ (fieldOf j' "userOpData") >>= fun u => _)
    have hbytes := hfields.userOpData
    generalize fieldOf j "userOpData" = v at hbytes
    generalize fieldOf j' "userOpData" = v' at hbytes
    cases hbytes with
    | @bytes b b' hvalid hvalid' hb hb' =>
      have hread : ∀ {b : Str} (message : String), validBytes b = true →
          stringField validBytes message (some (.str b)) = .ok b := fun _ h => if_pos h
      rw [hread _ hvalid, hread _ hvalid']
      change SameArm c c' ((o.viem.keccak256 b).mapError _ >>= fun k => _)
        ((o.viem.keccak256 b').mapError _ >>= fun k => _)
      rw [hb, hb']
      exact armFields_same hc hc' hfields .named hc (Or.inl rfl)
    | other hother =>
      cases hfield : stringField validBytes "userOpData must be non-empty 0x hex" v with
      | error refusal =>
        have htext : refusal = .reject "userOpData must be non-empty 0x hex".toList := by
          unfold stringField at hfield
          split at hfield
          · split at hfield
            · cases hfield
            · cases hfield
              rfl
          · cases hfield
            rfl
        subst htext
        exact .short hc (by decide)
      | ok b =>
        obtain ⟨habsent, hne, hne'⟩ := hother b (stringField_ok hfield).1
        change SameArm c c' ((o.viem.keccak256 b).mapError _ >>= fun k => _)
          ((o.viem.keccak256 b).mapError _ >>= fun k => _)
        cases hk : o.viem.keccak256 b with
        | error e => exact .thrown e
        | ok k =>
          rw [hk] at hne hne'
          exact armFields_same hc hc' hfields (.other (fun h => hne (h ▸ rfl)) fun h => hne' (h ▸ rfl))
            (hv.keccak256_shape b k hk) (Or.inr ⟨rfl, habsent⟩)

end Reading

/-! ## 3. Memories -/

/-- Two objects: the intent of the commitments, whose bytes may differ, or one intent. -/
structure SameIntent (c c' : Hex) (i i' : Intent) : Prop where
  commitment : SameKey c c' i.commitment i'.commitment
  userOpData : i.commitment = c ∨ (i'.userOpData = i.userOpData ∧ ¬c <:+: i.userOpData)
  trigger : i'.trigger = i.trigger
  deadline : i'.deadline = i.deadline
  state : i'.state = i.state
  armedAt : i'.armedAt = i.armedAt
  firedAt : i'.firedAt = i.firedAt

/-- The same objects in the same places. -/
structure SameMemory (c c' : Hex) (m m' : Memory) : Prop where
  intents : JsMap.Alike (SameKey c c') (fun r r' => r' = r) m.intents m'.intents
  heap : List.Forall₂ (SameIntent c c') m.heap m'.heap
  armedTotal : m'.armedTotal = m.armedTotal
  firedTotal : m'.firedTotal = m.firedTotal
  now : m'.now = m.now

/-- No intent of the commitment has fired. -/
def Unfired (c : Hex) (m : Memory) : Prop :=
  ∀ intent ∈ m.heap, intent.commitment = c → intent.state ≠ .fired ∧ intent.state ≠ .collected

instance (c : Hex) (m : Memory) : Decidable (Unfired c m) :=
  inferInstanceAs (Decidable (∀ intent ∈ m.heap, _))

section Memories

variable {c c' : Hex} {m m' : Memory}

/-- What two lookups find: the same reference, to two objects that correspond. -/
def SameFound (c c' : Hex) (p p' : Ref × Intent) : Prop := p'.1 = p.1 ∧ SameIntent c c' p.2 p'.2

theorem SameMemory.lookup (h : SameMemory c c' m m') {k k' : Str} (hk : SameKey c c' k k') :
    Option.Rel (SameFound c c') (m.lookup k) (m'.lookup k') := by
  unfold Memory.lookup
  have hget := h.intents.get? (sameKey_biUnique c c') hk
  generalize m.intents.get? k = y at hget
  generalize m'.intents.get? k' = y' at hget
  cases hget with
  | none => exact .none
  | @some r r' hr =>
    obtain rfl : r' = r := hr
    have hheap := List.forall₂_getElem? h.heap r'
    simp only [Option.bind_some]
    generalize m.heap[r']? = x at hheap
    generalize m'.heap[r']? = x' at hheap
    cases hheap with
    | none => exact .none
    | some hi => exact .some ⟨rfl, hi⟩

theorem SameMemory.isArmed (h : SameMemory c c' m m') {k k' : Str} (hk : SameKey c c' k k') :
    m'.isArmed k' = m.isArmed k := by
  have hlookup := h.lookup hk
  unfold Memory.isArmed
  generalize m.lookup k = x at hlookup
  generalize m'.lookup k' = x' at hlookup
  cases hlookup with
  | none => rfl
  | some hfound => simp only [Option.any_some, hfound.2.state]

theorem SameMemory.update (h : SameMemory c c' m m') {f : Intent → Intent}
    (hf : ∀ i i', SameIntent c c' i i' → SameIntent c c' (f i) (f i')) (r : Ref) :
    SameMemory c c' (m.update r f) (m'.update r f) :=
  ⟨h.intents, List.forall₂_modify hf h.heap r, h.armedTotal, h.firedTotal, h.now⟩

theorem SameMemory.create (h : SameMemory c c' m m') {u u' : Str} {k k' : Hex}
    (hk : SameKey c c' k k') (hu : k = c ∨ (u' = u ∧ ¬c <:+: u)) (trigger : Trigger)
    (deadline : ℚ) :
    SameMemory c c' (m.create ⟨u, k, trigger, deadline⟩) (m'.create ⟨u', k', trigger, deadline⟩) := by
  constructor
  · exact h.intents.set (sameKey_biUnique c c') hk h.heap.length_eq.symm
  · exact List.rel_append h.heap (.cons ⟨hk, hu, rfl, rfl, rfl, h.now, rfl⟩ .nil)
  · exact congrArg (· + 1) h.armedTotal
  · exact h.firedTotal
  · exact h.now

theorem SameIntent.drop (hc : IsLowerHex 32 c) (state : IntentState) (i i' : Intent)
    (h : SameIntent c c' i i') : SameIntent c c' (i.drop state) (i'.drop state) :=
  ⟨h.commitment, Or.inr ⟨rfl, absent_of_short hc (show hexPrefix.length < 66 by decide)⟩, h.trigger, h.deadline, rfl,
    h.armedAt, h.firedAt⟩

theorem SameIntent.fire (now : ℚ) (i i' : Intent) (h : SameIntent c c' i i') :
    SameIntent c c' (i.fire now) (i'.fire now) :=
  ⟨h.commitment, h.userOpData, h.trigger, h.deadline, rfl, h.armedAt, rfl⟩

theorem SameIntent.collect (i i' : Intent) (h : SameIntent c c' i i') :
    SameIntent c c' i.collect i'.collect :=
  ⟨h.commitment, h.userOpData, h.trigger, h.deadline, rfl, h.armedAt, h.firedAt⟩

/-- **`GET /state` answers alike to the letter**, since it counts intents by their states and
shows neither bytes nor commitments. -/
theorem reportState_same (h : SameMemory c c' m m') : reportState m' = reportState m := by
  have hvalues : List.Forall₂ (SameIntent c c') m.values m'.values := by
    refine List.rel_filterMap (fun p p' hp => ?_) h.intents.pairs
    rw [hp.2]
    exact List.forall₂_getElem? h.heap p.2
  have hcount : ∀ state : IntentState, m'.values.countP (fun intent => intent.state = state) =
      m.values.countP fun intent => intent.state = state := fun state =>
    List.forall₂_countP (fun i i' hi => by rw [hi.state]) hvalues
  unfold reportState
  rw [hcount, hcount, h.armedTotal, h.firedTotal]

end Memories

/-! ## 4. Replies -/

def renamedPayload (c c' : Hex) : Payload → Payload
  | .armed commitment alreadyArmed => .armed (renamed c c' commitment) alreadyArmed
  | .unknown => .unknown
  | .status state armedAt deadline firedAt => .status state armedAt deadline firedAt
  | .cancelled commitment => .cancelled (renamed c c' commitment)
  | .released userOpData firedAt => .released (renamed c c' userOpData) firedAt

/-- A reply as the second run has it.  What a handler throws is the same in both. -/
def renamedResult (c c' : Hex) : Except JsError HandlerResult → Except JsError HandlerResult
  | .ok (.ok payload) => ok (renamedPayload c c' payload)
  | .ok (.error message) => fail (renamed c c' message)
  | .error e => .error e

/-- Numbers are printed in digits, or as a word without an `x`. -/
def Plain (numbers : Numbers) : Prop := ∀ q, 'x' ∉ numbers.text q

/-- What comes of reading the commitment that two messages name. -/
inductive SameNamed (c c' : Hex) : Except Refusal Str → Except Refusal Str → Prop
  | refused (t : Str) : SameNamed c c' (.error (.reject t)) (.error (.reject (renamed c c' t)))
  | named {k k' : Str} (hk : SameKey c c' k k')
      (hlower : SameKey c c' (toLowerCase k) (toLowerCase k')) (hk' : k' = renamed c c' k) :
      SameNamed c c' (.ok k) (.ok k')

/-- What comes of two requests. -/
def SameOutcome (c c' : Hex) (x x' : Memory × Except JsError HandlerResult) : Prop :=
  SameMemory c c' x.1 x'.1 ∧ x'.2 = renamedResult c c' x.2

section Commands

variable {c c' : Hex} {m m' : Memory} {msg msg' : Str}

theorem namedCommitment_same (hc : IsLowerHex 32 c) (hc' : IsLowerHex 32 c')
    (h : SameMessage o c c' msg msg') :
    SameNamed c c' (namedCommitment o.engine msg) (namedCommitment o.engine msg') := by
  cases h with
  | @unread t h habsent =>
    have hread : namedCommitment o.engine msg = .error (.reject t) := by
      rw [namedCommitment, h]
      rfl
    have hsame : SameNamed c c' _ _ := .refused t
    rwa [renamed_absent habsent, ← hread] at hsame
  | @read _ j j' h h' hfields =>
    unfold namedCommitment
    rw [h, h']
    change SameNamed c c'
      (stringField (fun _ => true) "commitment must be a 0x hex string" (fieldOf j "commitment"))
      (stringField (fun _ => true) "commitment must be a 0x hex string" (fieldOf j' "commitment"))
    have hname := hfields.commitment
    generalize fieldOf j "commitment" = v at hname
    generalize fieldOf j' "commitment" = v' at hname
    cases hname with
    | named =>
      refine .named .named ?_ (renamed_self hc).symm
      rw [hc.toLowerCase_eq, hc'.toLowerCase_eq]
      exact .named
    | other hforeign =>
      unfold stringField
      split
      case h_1 k =>
        rw [if_pos rfl]
        have hk := hforeign k rfl
        refine .named (.other ?_ ?_) (.other ?_ ?_) (renamed_absent (hk.absent hc)).symm
        · rintro rfl
          exact hk.absent hc (List.infix_refl k)
        · rintro rfl
          rw [Foreign, hc'.toLowerCase_eq] at hk
          exact hk.2 (List.infix_refl k)
        · intro heq
          exact hk.1 (heq ▸ List.infix_refl c)
        · intro heq
          exact hk.2 (heq ▸ List.infix_refl c')
      case h_2 =>
        have hsame : SameNamed c c' _ _ := .refused "commitment must be a 0x hex string".toList
        rwa [renamed_short hc (by decide)] at hsame

theorem fail_same (hc : IsLowerHex 32 c) (h : SameMemory c c' m m') {t : Str} (ht : t.length < 66) :
    SameOutcome c c' (m, fail t) (m', fail t) :=
  ⟨h, congrArg fail (renamed_short hc ht).symm⟩

/-- The answer to a deadline that is too far away. -/
theorem renamed_maximum (hc : IsLowerHex 32 c) {numbers : Numbers} (hplain : Plain numbers)
    {q : ℚ} : renamed c c' ("deadline exceeds the maximum of ".toList ++ numbers.text q ++
      " ms".toList) = "deadline exceeds the maximum of ".toList ++ numbers.text q ++ " ms".toList := by
  have hfirst : '0' ∉ "deadline exceeds the maximum of ".toList := by decide +kernel
  have habsent : ¬c <:+: numbers.text q ++ " ms".toList := by
    intro hin
    have hx : 'x' ∈ numbers.text q ++ " ms".toList := by
      obtain ⟨bs, -, rfl⟩ := hc
      exact hin.subset (by simp [hexPrefix])
    rcases List.mem_append.mp hx with hx | hx
    · exact hplain q hx
    · simp at hx
  rw [List.append_assoc, renamed_append hc hfirst, renamed_absent habsent]

theorem handleArm_same (hv : o.viem.Lawful) (hplain : Plain o.engine.numbers)
    (hc : IsLowerHex 32 c) (hc' : IsLowerHex 32 c') (h : SameMemory c c' m m')
    (hmsg : SameMessage o c c' msg msg') :
    SameOutcome c c' (handleArm o msg m) (handleArm o msg' m') := by
  have hread := parseArm_same hv hc hc' hmsg
  unfold handleArm
  generalize parseArm o msg = x at hread
  generalize parseArm o msg' = x' at hread
  cases hread with
  | refused t => exact ⟨h, rfl⟩
  | thrown e => exact ⟨h, rfl⟩
  | @read u u' k k' hk hlower hu trigger deadline =>
    have hname : renamed c c' k = k' := by
      cases hk with
      | named => exact renamed_self hc
      | other hne _ => exact renamed_absent (absent_of_hash hc hlower hne)
    dsimp only
    unfold arm
    rw [h.now, h.isArmed hk]
    dsimp only
    split_ifs with hpast hfar harmed
    · exact fail_same hc h (by decide)
    · exact ⟨h, congrArg fail (renamed_maximum hc hplain).symm⟩
    · exact ⟨h, by rw [← hname]; rfl⟩
    · refine ⟨h.create hk hu trigger deadline, ?_⟩
      dsimp only
      cases describeTrigger trigger with
      | ok u => rw [← hname]; rfl
      | error e => rfl

theorem handleStatus_same (hc : IsLowerHex 32 c) (hc' : IsLowerHex 32 c')
    (h : SameMemory c c' m m') (hmsg : SameMessage o c c' msg msg') :
    SameOutcome c c' (handleStatus o msg m) (handleStatus o msg' m') := by
  have hread := namedCommitment_same hc hc' hmsg
  unfold handleStatus
  generalize namedCommitment o.engine msg = x at hread
  generalize namedCommitment o.engine msg' = x' at hread
  cases hread with
  | refused t => exact ⟨h, rfl⟩
  | @named k k' hk hlower hname =>
    dsimp only
    have hfound : Option.Rel (SameFound c c') ((m.lookup (toLowerCase k)).or (m.lookup k))
        ((m'.lookup (toLowerCase k')).or (m'.lookup k')) := by
      have hfirst := h.lookup hlower
      generalize m.lookup (toLowerCase k) = y at hfirst
      generalize m'.lookup (toLowerCase k') = y' at hfirst
      cases hfirst with
      | none => exact h.lookup hk
      | some hp => exact .some hp
    generalize (m.lookup (toLowerCase k)).or (m.lookup k) = y at hfound
    generalize (m'.lookup (toLowerCase k')).or (m'.lookup k') = y' at hfound
    cases hfound with
    | none => exact ⟨h, rfl⟩
    | some hp =>
      refine ⟨h, ?_⟩
      dsimp only
      rw [hp.2.state, hp.2.armedAt, hp.2.deadline, hp.2.firedAt]
      rfl

theorem handleCancel_same (hc : IsLowerHex 32 c) (hc' : IsLowerHex 32 c')
    (h : SameMemory c c' m m') (hmsg : SameMessage o c c' msg msg') :
    SameOutcome c c' (handleCancel o msg m) (handleCancel o msg' m') := by
  have hread := namedCommitment_same hc hc' hmsg
  unfold handleCancel
  generalize namedCommitment o.engine msg = x at hread
  generalize namedCommitment o.engine msg' = x' at hread
  cases hread with
  | refused t => exact ⟨h, rfl⟩
  | @named k k' hk hlower hname =>
    have hfound := h.lookup hk
    dsimp only
    generalize m.lookup k = y at hfound
    generalize m'.lookup k' = y' at hfound
    cases hfound with
    | none => exact fail_same hc h (by decide)
    | @some p p' hp =>
      obtain ⟨r, intent⟩ := p
      obtain ⟨r', intent'⟩ := p'
      obtain ⟨rfl, hi⟩ := hp
      dsimp only at hi ⊢
      rw [hi.state]
      split_ifs with hstate
      · have htext : ("intent is ".toList ++ intent.state.text ++ ", not armed".toList).length < 66 := by
          cases intent.state <;> decide
        exact fail_same hc h htext
      · exact ⟨h.update (SameIntent.drop hc .cancelled) r', by rw [hname]; rfl⟩

/-- COLLECT is where the bytes come out, and not before the intent has fired. -/
theorem handleCollect_same (hc : IsLowerHex 32 c) (hc' : IsLowerHex 32 c')
    (h : SameMemory c c' m m') (hunfired : Unfired c m) (hmsg : SameMessage o c c' msg msg') :
    SameOutcome c c' (handleCollect o msg m) (handleCollect o msg' m') := by
  have hread := namedCommitment_same hc hc' hmsg
  unfold handleCollect
  generalize namedCommitment o.engine msg = x at hread
  generalize namedCommitment o.engine msg' = x' at hread
  cases hread with
  | refused t => exact ⟨h, rfl⟩
  | @named k k' hk hlower hname =>
    have hfound := h.lookup hk
    dsimp only
    cases hlookup : m.lookup k with
    | none =>
      rw [hlookup] at hfound
      generalize m'.lookup k' = y' at hfound
      cases hfound
      exact fail_same hc h (by decide)
    | some p =>
      rw [hlookup] at hfound
      generalize m'.lookup k' = y' at hfound
      obtain ⟨r, intent⟩ := p
      cases hfound with
      | @some _ p' hp =>
        obtain ⟨r', intent'⟩ := p'
        obtain ⟨rfl, hi⟩ := hp
        have hmem : intent ∈ m.heap := List.mem_of_getElem? (Memory.lookup_eq_some.mp hlookup).2
        have hreleased : intent.state = .fired ∨ intent.state = .collected →
            SameOutcome c c' (m.update r' Intent.collect, ok (.released intent.userOpData intent.firedAt))
              (m'.update r' Intent.collect, ok (.released intent'.userOpData intent'.firedAt)) := by
          intro hstate
          rcases hi.userOpData with heq | ⟨hsame, habsent⟩
          · obtain ⟨hfired, hcollected⟩ := hunfired intent hmem heq
            exact absurd hstate (not_or.mpr ⟨hfired, hcollected⟩)
          · refine ⟨h.update SameIntent.collect r', ?_⟩
            dsimp only at hi ⊢
            rw [hsame, hi.firedAt]
            exact congrArg (fun b => ok (.released b intent.firedAt)) (renamed_absent habsent).symm
        dsimp only at hi ⊢
        rw [hi.state]
        cases hstate : intent.state with
        | armed => exact fail_same hc h (by decide)
        | cancelled => exact fail_same hc h (by decide)
        | expired => exact fail_same hc h (by decide)
        | fired => exact hreleased (Or.inl hstate)
        | collected => exact hreleased (Or.inr hstate)

/-- **A command answers alike, and leaves alike memories**, as long as the intent has not fired:
before that no reply has its bytes in it. -/
theorem handle_same (hv : o.viem.Lawful) (hplain : Plain o.engine.numbers)
    (hc : IsLowerHex 32 c) (hc' : IsLowerHex 32 c') (h : SameMemory c c' m m')
    (hunfired : Unfired c m) (hmsg : SameMessage o c c' msg msg') (command : Command) :
    SameOutcome c c' (handle o command msg m) (handle o command msg' m') := by
  cases command with
  | arm => exact handleArm_same hv hplain hc hc' h hmsg
  | status => exact handleStatus_same hc hc' h hmsg
  | cancel => exact handleCancel_same hc hc' h hmsg
  | collect => exact handleCollect_same hc hc' h hunfired hmsg

end Commands

/-! ## 5. Steps -/

/-- What is seen in the two runs. -/
inductive SameSeen (c c' : Hex) : Seen → Seen → Prop
  | reply (command : Command) (msg msg' : Str) (result : Except JsError HandlerResult) :
      SameSeen c c' (.reply command msg result) (.reply command msg' (renamedResult c c' result))
  | report (report : Report) : SameSeen c c' (.report report) (.report report)
  | reading (trigger : Trigger) (now : ℚ) (fired : Bool) :
      SameSeen c c' (.reading trigger now fired) (.reading trigger now fired)

/-- What happens in the two runs: two requests, or the same. -/
inductive SameEvent (c c' : Hex) : Event o → Event o → Prop
  | request (command : Command) {msg msg' : Str} (h : SameMessage o c c' msg msg') :
      SameEvent c c' (.request command msg) (.request command msg')
  | other {e : Event o} (h : ∀ command msg, e ≠ .request command msg) : SameEvent c c' e e

structure SameSys (c c' : Hex) (s s' : Sys o) : Prop where
  mem : SameMemory c c' s.mem s'.mem
  seen : List.Forall₂ (SameSeen c c') s.seen s'.seen
  tasks : s'.tasks = s.tasks
  stands : ∀ t ∈ s.tasks, Stands t

section Steps

variable {c c' : Hex} {m m' : Memory}

/-- **A tick goes on alike** from one wait to the next: it looks at states, deadlines and
triggers, which are the same in both runs. -/
theorem advance_same (hc : IsLowerHex 32 c) (h : SameMemory c c' m m') {t : Task (machine o)}
    (ht : Stands t) : SameMemory c c' (t.prog.advance m).1 (t.prog.advance m').1 ∧
      Task.next t.label (t.prog.advance m').2 = Task.next t.label (t.prog.advance m).2 ∧
      Stands (Task.next t.label (t.prog.advance m).2) := by
  cases ht with
  | finished ht =>
    obtain ⟨hadv, hnext⟩ := Task.advance_of_done ht m
    obtain ⟨hadv', -⟩ := Task.advance_of_done ht m'
    rw [hadv, hadv', hnext]
    exact ⟨h, rfl, .finished ht⟩
  | start l =>
    cases l with
    | tick now => exact ⟨h, rfl, .start _⟩
    | next place now =>
      change SameMemory c c' ((code (.next place now)).advance m).1
          ((code (.next place now)).advance m').1 ∧
        Task.next (M := machine o) (Label.next place now) ((code (.next place now)).advance m').2 =
          Task.next (M := machine o) (Label.next place now) ((code (.next place now)).advance m).2 ∧
        Stands (Task.next (M := machine o) (Label.next place now)
          ((code (.next place now)).advance m).2)
      rw [advance_next, advance_next]
      have hplace := List.forall₂_getElem? h.intents place
      generalize m.intents.entries[place]? = x at hplace
      generalize m'.intents.entries[place]? = x' at hplace
      cases hplace with
      | none => exact ⟨h, rfl, .finished rfl⟩
      | some hentry =>
        cases hentry with
        | none => exact ⟨h, rfl, .start _⟩
        | @some p p' hp =>
          obtain ⟨k, r⟩ := p
          obtain ⟨k', r'⟩ := p'
          obtain ⟨-, rfl⟩ := hp
          exact ⟨h, rfl, .start _⟩
    | visit r place now =>
      change SameMemory c c' ((code (.visit r place now)).advance m).1
          ((code (.visit r place now)).advance m').1 ∧
        Task.next (M := machine o) (Label.visit r place now)
            ((code (.visit r place now)).advance m').2 =
          Task.next (M := machine o) (Label.visit r place now)
            ((code (.visit r place now)).advance m).2 ∧
        Stands (Task.next (M := machine o) (Label.visit r place now)
          ((code (.visit r place now)).advance m).2)
      rw [advance_visit, advance_visit]
      have hheap := List.forall₂_getElem? h.heap r
      generalize m.heap[r]? = x at hheap
      generalize m'.heap[r]? = x' at hheap
      cases hheap with
      | none => exact ⟨h, rfl, .start _⟩
      | @some i i' hi =>
        dsimp only
        unfold evaluate
        rw [hi.state, hi.deadline, hi.trigger]
        split_ifs with hstate hpast
        · exact ⟨h, rfl, .start _⟩
        · exact ⟨h.update (SameIntent.drop hc .expired) r, rfl, .start _⟩
        · rw [check_bind]
          exact ⟨h, rfl, .checking r place now i.trigger⟩
  | checking r place now trigger => exact ⟨h, rfl, .checking r place now trigger⟩
  | answered r place now trigger fired =>
    cases fired with
    | false => exact ⟨h, rfl, .start _⟩
    | true =>
      have hfired := h.update (SameIntent.fire now) r
      have hmem : SameMemory c c'
          { m.update r (Intent.fire now) with firedTotal := m.firedTotal + 1 }
          { m'.update r (Intent.fire now) with firedTotal := m'.firedTotal + 1 } :=
        ⟨hfired.intents, hfired.heap, hfired.armedTotal, congrArg (· + 1) h.firedTotal, hfired.now⟩
      have hadv : ∀ m₀ : Memory, (answered o r place now trigger true).prog.advance m₀ =
          (Prog.lift (S := sig) (describeTrigger trigger) >>= fun _ =>
            Prog.ret (some (Label.next (place + 1) now))).advance
              { m₀.update r (Intent.fire now) with firedTotal := m₀.firedTotal + 1 } := fun _ => rfl
      rw [hadv m, hadv m']
      cases describeTrigger trigger with
      | ok u => exact ⟨hmem, rfl, .start _⟩
      | error e => exact ⟨hmem, rfl, .finished rfl⟩

/-- **A step of the first run is one of the second**, and they stay alike, when the intent has not
fired before it. -/
theorem SameSys.step (hv : o.viem.Lawful) (hplain : Plain o.engine.numbers)
    (hc : IsLowerHex 32 c) (hc' : IsLowerHex 32 c') {s s' s₁ : Sys o} (h : SameSys c c' s s')
    (hunfired : Unfired c s.mem) {e e' : Event o} (he : SameEvent c c' e e')
    (hstep : s.step e = some s₁) : ∃ s₁', s'.step e' = some s₁' ∧ SameSys c c' s₁ s₁' := by
  cases he with
  | @request command msg msg' hmsg =>
    cases hstep
    obtain ⟨hmem, hreply⟩ := handle_same hv hplain hc hc' h.mem hunfired hmsg command
    refine ⟨_, rfl, hmem, .cons ?_ h.seen, h.tasks, h.stands⟩
    rw [hreply]
    exact .reply command msg msg' _
  | other hother =>
    cases e with
    | spawn l =>
      cases hstep
      refine ⟨_, rfl, h.mem, h.seen, congrArg (· ++ _) h.tasks, fun t ht => ?_⟩
      rw [List.mem_append, List.mem_singleton] at ht
      rcases ht with ht | rfl
      · exact h.stands t ht
      · exact .start l
    | perform i choice =>
      simp only [Async.Sys.step] at hstep
      split at hstep
      case h_2 => cases hstep
      case h_1 l op k ht =>
        obtain ⟨⟨res, w⟩, hper, rfl⟩ := Option.map_eq_some_iff.mp hstep
        have hstands : Stands (o := o) ⟨l, k res⟩ := by
          obtain ⟨r, place, now, trigger, heq⟩ := (h.stands _ (List.mem_of_getElem? ht)).await
          cases heq
          exact .settled r place now trigger res
        obtain ⟨trigger, now⟩ := op
        cases choice with
        | ok fired =>
          cases hper
          refine ⟨⟨s'.mem, .reading trigger now fired :: s'.seen, s'.tasks.set i ⟨l, k (.ok fired)⟩⟩,
            ?_, h.mem, .cons (.reading trigger now fired) h.seen, by rw [h.tasks],
            stands_set h.stands hstands i⟩
          simp only [Async.Sys.step, h.tasks, ht]
          rfl
        | error e =>
          cases hper
          refine ⟨⟨s'.mem, s'.seen, s'.tasks.set i ⟨l, k (.error e)⟩⟩, ?_, h.mem, h.seen,
            by rw [h.tasks], stands_set h.stands hstands i⟩
          simp only [Async.Sys.step, h.tasks, ht]
          rfl
    | disturb i =>
      simp only [Async.Sys.step] at hstep
      split at hstep
      · cases hstep
      · cases hstep
    | resume i =>
      simp only [Async.Sys.step] at hstep
      split at hstep
      case h_2 => cases hstep
      case h_1 l p ht =>
        cases hstep
        obtain ⟨hmem, htask, hstands⟩ :=
          advance_same hc h.mem (h.stands _ (List.mem_of_getElem? ht))
        refine ⟨⟨(p.advance s'.mem).1, s'.seen, s'.tasks.set i (Task.next l (p.advance s'.mem).2)⟩,
          ?_, hmem, h.seen, ?_, stands_set h.stands hstands i⟩
        · simp only [Async.Sys.step, h.tasks, ht]
          rfl
        · exact congrArg₂ (fun tasks t => tasks.set i t) h.tasks htask
    | outside x =>
      cases x with
      | request command msg => exact absurd rfl (hother command msg)
      | state =>
        cases hstep
        refine ⟨_, rfl, h.mem, .cons ?_ h.seen, h.tasks, h.stands⟩
        rw [reportState_same h.mem]
        exact .report _
      | clock now =>
        cases hstep
        exact ⟨_, rfl, ⟨h.mem.intents, h.mem.heap, h.mem.armedTotal, h.mem.firedTotal, rfl⟩, h.seen,
          h.tasks, h.stands⟩
    | crash =>
      cases hstep
      exact ⟨_, rfl, ⟨.nil, .nil, rfl, rfl, h.mem.now⟩, h.seen, rfl, by simp⟩

/-- **A whole run**: events that correspond, one by one, lead to systems that do, as long as the
intent is unfired in every state before the last. -/
theorem SameSys.run (hv : o.viem.Lawful) (hplain : Plain o.engine.numbers)
    (hc : IsLowerHex 32 c) (hc' : IsLowerHex 32 c') {es es' : List (Event o)}
    (hes : List.Forall₂ (SameEvent c c') es es') {s s' s₁ : Sys o} (h : SameSys c c' s s')
    (hrun : Async.Sys.runIf (fun _ s => Unfired c s.mem) es s = some s₁) :
    ∃ s₁', Async.Sys.run es' s' = some s₁' ∧ SameSys c c' s₁ s₁' := by
  induction hes generalizing s s' with
  | nil =>
    cases hrun
    exact ⟨s', rfl, h⟩
  | @cons e e' es es' he _ ih =>
    simp only [Async.Sys.runIf] at hrun
    split at hrun
    case isFalse => cases hrun
    case isTrue hunfired =>
      obtain ⟨s₂, hstep, hrest⟩ := Option.bind_eq_some_iff.mp hrun
      obtain ⟨s₂', hstep', h₂⟩ := h.step hv hplain hc hc' hunfired he hstep
      obtain ⟨s₁', hrun', h₁⟩ := ih h₂ hrest
      refine ⟨s₁', ?_, h₁⟩
      simp only [Async.Sys.run, hstep', Option.bind_some]
      exact hrun'

end Steps

end Secrecy

open Secrecy

/-- **Nothing about an operation beyond its hash is seen before its intent fires.**  Of two runs
that differ in the bytes of one intent, the second replies as the first, with the one commitment
written for the other; `GET /state` answers alike to the letter. -/
theorem bytes_unobservable (hv : o.viem.Lawful) (hplain : Plain o.engine.numbers) {b b' : Str}
    {c c' : Hex} (hb : o.viem.keccak256 b = .ok c) (hb' : o.viem.keccak256 b' = .ok c') {now : ℚ}
    {es es' : List (Event o)} (hes : List.Forall₂ (SameEvent c c') es es') {s : Sys o}
    (hrun : Async.Sys.runIf (fun _ s => Unfired c s.mem) es (Sys.fresh o now) = some s) :
    ∃ s', Async.Sys.run es' (Sys.fresh o now) = some s' ∧
      List.Forall₂ (SameSeen c c') (Sys.seen s) (Sys.seen s') := by
  have hfresh : SameSys c c' (Sys.fresh o now) (Sys.fresh o now) :=
    ⟨⟨.nil, .nil, rfl, rfl, rfl⟩, .nil, rfl, by simp [Sys.fresh]⟩
  obtain ⟨s', hrun', h⟩ := hfresh.run hv hplain (hv.keccak256_shape b c hb)
    (hv.keccak256_shape b' c' hb') hes hrun
  exact ⟨s', hrun', h.seen⟩

namespace Sample

/-- The hash of `0xbeef`. -/
def otherCommitment : Hex :=
  "0x50cc9609ed13c878caf0b7ac27b34f56c318680963224914c6ea863d460f8a7f".toList

def twoOperations : Options :=
  { options with viem := ViemTables.viem { hashes :=
      [("0xdead".toList, commitment), ("0xbeef".toList, otherCommitment)] } }

theorem twoOperations_lawful : twoOperations.viem.Lawful :=
  ViemTables.Consistent.lawful ⟨by
    intro p hp
    simp only [List.mem_cons, List.not_mem_nil, or_false] at hp
    rcases hp with rfl | rfl
    · exact ⟨Bytes.hexDecodePrefix (commitment.drop 2), by decide +kernel, by decide +kernel⟩
    · exact ⟨Bytes.hexDecodePrefix (otherCommitment.drop 2), by decide +kernel, by decide +kernel⟩⟩

def armOf (b : String) : Str :=
  message "\x7b\"userOpData\":\"" b.toList
    "\",\"trigger\":\x7b\"kind\":\"TIME\",\"notBefore\":5000\x7d,\"deadline\":9000\x7d"

def nameOf (k : Hex) : Str := message "\x7b\"commitment\":\"" k "\"\x7d"

/-- Bytes are armed, asked for, and asked for too early. -/
def waiting (b : String) (k : Hex) : List (Event twoOperations) :=
  [.clock 1000, .request .arm (armOf b), .request .status (nameOf k), .outside Ext.state,
    .request .collect (nameOf k)]

/-- What a message says of each field; of a string, which. -/
structure Fields where
  userOpData : Option (Option Str)
  commitment : Option (Option Str)
  trigger : Except Refusal Trigger
  deadline : Except Refusal ℚ
  deriving DecidableEq

def stringOf : Json → Option Str
  | .str s => some s
  | _ => none

def fieldsOf (j : Json) : Fields :=
  ⟨(fieldOf j "userOpData").map stringOf, (fieldOf j "commitment").map stringOf,
    parseTrigger (fieldOf j "trigger"), readDeadline j⟩

theorem field_eq {v : Option Json} {s : Str} (h : v.map stringOf = some (some s)) :
    v = some (.str s) := by
  obtain ⟨j, rfl, hj⟩ := Option.map_eq_some_iff.mp h
  unfold stringOf at hj
  split at hj
  · cases hj
    rfl
  · cases hj

theorem read_of {msg : Str} {fields : Fields}
    (h : (decodeJson twoOperations.engine msg).toOption.map fieldsOf = some fields) :
    ∃ j, decodeJson twoOperations.engine msg = .ok j ∧ fieldsOf j = fields := by
  obtain ⟨j, hj, hfields⟩ := Option.map_eq_some_iff.mp h
  cases hread : decodeJson twoOperations.engine msg with
  | error refusal =>
    rw [hread] at hj
    cases hj
  | ok j' =>
    rw [hread] at hj
    cases hj
    exact ⟨j, rfl, hfields⟩

/-- The two ARM messages. -/
theorem arm_same : SameMessage twoOperations commitment otherCommitment (armOf "0xdead")
    (armOf "0xbeef") := by
  obtain ⟨j, hj, hfields⟩ := @read_of (armOf "0xdead")
    ⟨some (some "0xdead".toList), none, .ok (.time 5000), .ok 9000⟩ (by decide +kernel)
  obtain ⟨j', hj', hfields'⟩ := @read_of (armOf "0xbeef")
    ⟨some (some "0xbeef".toList), none, .ok (.time 5000), .ok 9000⟩ (by decide +kernel)
  simp only [fieldsOf, Fields.mk.injEq, Option.map_eq_none_iff] at hfields hfields'
  obtain ⟨hdata, hnone, htrigger, hdeadline⟩ := hfields
  obtain ⟨hdata', hnone', htrigger', hdeadline'⟩ := hfields'
  refine .read hj hj' ⟨?_, ?_, by rw [htrigger, htrigger'], by rw [hdeadline, hdeadline'], ?_⟩
  · rw [field_eq hdata, field_eq hdata']
    exact .bytes (by decide +kernel) (by decide +kernel) (by decide +kernel) (by decide +kernel)
  · rw [hnone, hnone']
    exact .other fun _ => nofun
  · rw [htrigger]
    exact fun _ => nofun

/-- The two messages that name the intent. -/
theorem name_same : SameMessage twoOperations commitment otherCommitment (nameOf commitment)
    (nameOf otherCommitment) := by
  have hshape := twoOperations_lawful.keccak256_shape "0xdead".toList commitment (by decide +kernel)
  obtain ⟨j, hj, hfields⟩ := @read_of (nameOf commitment)
    ⟨none, some (some commitment), reject "trigger must be an object".toList,
      reject "deadline must be unix milliseconds".toList⟩ (by decide +kernel)
  obtain ⟨j', hj', hfields'⟩ := @read_of (nameOf otherCommitment)
    ⟨none, some (some otherCommitment), reject "trigger must be an object".toList,
      reject "deadline must be unix milliseconds".toList⟩ (by decide +kernel)
  simp only [fieldsOf, Fields.mk.injEq, Option.map_eq_none_iff] at hfields hfields'
  obtain ⟨hnone, hname, htrigger, hdeadline⟩ := hfields
  obtain ⟨hnone', hname', htrigger', hdeadline'⟩ := hfields'
  refine .read hj hj' ⟨?_, ?_, by rw [htrigger, htrigger'], by rw [hdeadline, hdeadline'], ?_⟩
  · rw [hnone, hnone']
    exact .other fun _ => nofun
  · rw [field_eq hname, field_eq hname']
    exact .named
  · rw [htrigger]
    rintro t ht
    cases ht
    exact absent_of_short hshape (by decide)

end Sample

/-- `0xdead` and `0xbeef` are armed, asked for, and refused, without a difference. -/
theorem bytes_unobservable_sample :
    ∃ s s', Async.Sys.runIf (fun _ s => Unfired Sample.commitment s.mem)
        (Sample.waiting "0xdead" Sample.commitment) (Sys.fresh Sample.twoOperations 0) = some s ∧
      Async.Sys.run (Sample.waiting "0xbeef" Sample.otherCommitment)
        (Sys.fresh Sample.twoOperations 0) = some s' ∧
      List.Forall₂ (SameSeen Sample.commitment Sample.otherCommitment) (Sys.seen s) (Sys.seen s') := by
  have hes : List.Forall₂ (SameEvent Sample.commitment Sample.otherCommitment)
      (Sample.waiting "0xdead" Sample.commitment) (Sample.waiting "0xbeef" Sample.otherCommitment) :=
    .cons (.other fun _ _ => nofun) (.cons (.request .arm Sample.arm_same)
      (.cons (.request .status Sample.name_same) (.cons (.other fun _ _ => nofun)
        (.cons (.request .collect Sample.name_same) .nil))))
  have hrun : (Async.Sys.runIf (fun _ s => Unfired Sample.commitment s.mem)
      (Sample.waiting "0xdead" Sample.commitment) (Sys.fresh Sample.twoOperations 0)).isSome = true := by
    decide +kernel
  obtain ⟨s, hs⟩ := Option.isSome_iff_exists.mp hrun
  have hb : Sample.twoOperations.viem.keccak256 "0xdead".toList = .ok Sample.commitment := by
    decide +kernel
  have hb' : Sample.twoOperations.viem.keccak256 "0xbeef".toList = .ok Sample.otherCommitment := by
    decide +kernel
  obtain ⟨s', hs', hseen⟩ := bytes_unobservable Sample.twoOperations_lawful
    (fun _ => List.not_mem_nil) hb hb' hes hs
  exact ⟨s, s', hs, hs', hseen⟩

end OneSig.Latch
