/-
# Losing the race to another relayer

Anyone can have a payment confirmed.  A mint that another relayer has had confirmed comes back to
us in two ways: our transaction is rejected with the selector of `PaymentAlreadyConfirmed`, or it
is mined and reverted.  The `catch` block of `step` is to settle the job in both cases.  But it
asks the chain whether the payment has been used only when the text of the error has the selector,
and a reverted receipt raises an error of its own, which names the hash of the transaction
(`reverted_loss_fails`).  Only by chance does that hash contain the eight digits of the selector,
which the exact condition has to allow for (`Loss.Named`).

A step is taken here among all the others of its process: whenever it waits, they may leave the
memory as they like, as long as the job object stays what it is (`Keeps`).  One of them may have
moved the job on by the time the loss is told, and then the `catch` block sees another state; that
is the second half of the condition (`AtMint`).

`Tells` says which answer of which call tells of a loss, and `EndsExecuted` what it is to settle
one: the job is executed, and its counter of attempts is left alone.

* `infix_append_iff`, `infix_append_iff'`: where the selector can stand in the text of an error.
* `among_*`: what each part of a step does among other tasks, with the calls it makes.
* `Caught.ready_quiet`, `Caught.ready_lost`: what the `catch` block leaves to be done without a
  loss and after one.
* `lost_race_settles_iff`: the equivalence for a whole step.
-/
import Mathlib.Data.List.Infix
import OneSig.Executor.Solo

namespace OneSig.Executor

open OneSig Async ExecutorPipeline

namespace LostRace

/-! ## 1. A step among other tasks -/

/-- A call and its answer; the drift is the memory as the other tasks have left it by then. -/
abbrev Exchange := Async.Exchange sig world Memory

/-- The memory a task goes on in. -/
def woken (m : Memory) (_ : Memory) : Memory := m

/-- The other tasks neither drop the job object nor give it another payment. -/
def Keeps (r : Ref) (x : Exchange) : Prop :=
  ∀ job, x.before.mem.heap[r]? = some job →
    ∃ job', x.drift.heap[r]? = some job' ∧ job'.xrplTxId = job.xrplTxId

/-- How our transaction is lost. -/
inductive Loss
  /-- It is rejected, at its simulation or when it is broadcast. -/
  | rejected
  /-- It is mined and reverted. -/
  | reverted (hash : Hex)

/-- The answer that tells of a loss.  A step at the mint waits for no receipt but its own. -/
def Tells (x : Exchange) : Loss → Prop
  | .rejected => (∃ xrplTxId assetManager proof userOpData value,
      x.op = .executeDirectMintingWithData xrplTxId assetManager proof userOpData value) ∧
      ∃ e part, x.choice = .fail e part ∧ isAlreadyConfirmed e = true
  | .reverted hash => x.op = .waitForTransactionReceipt hash ∧
      ∃ receipt, x.choice = .receipt receipt ∧ receipt.reverted = true

/-- The text of the error that is raised on a loss has the selector. -/
def Loss.Named : Loss → Prop
  | .rejected => True
  | .reverted hash => includes (toLowerCase hash) PAYMENT_ALREADY_CONFIRMED_SELECTOR = true

/-- The job object is still at the mint. -/
def AtMint (r : Ref) (m : Memory) : Prop :=
  ∃ job, m.heap[r]? = some job ∧ job.state = .proof_fetched

/-- Whether a payment has been used is asked, and it has. -/
def Used (xrplTxId : Hex) (x : Exchange) : Prop :=
  x.op = .isTransactionIdUsed xrplTxId → x.choice = .bool true

/-- A `save` begins with this call. -/
def beginsSave : Op → Bool
  | .mkdirState => true
  | _ => false

/-- The job as a step finds it when it last goes on before its save, and as it hands it to the
save. -/
def lastTurn (r : Ref) : List Exchange → Option (Job × Job)
  | x :: y :: rest =>
    if beginsSave y.op = true then
      match x.drift.heap[r]?, y.before.mem.heap[r]? with
      | some job, some job' => some (job, job')
      | _, _ => none
    else lastTurn r (y :: rest)
  | _ => none

/-- The step makes the job executed and leaves the counter of attempts alone. -/
def EndsExecuted (r : Ref) (calls : List Exchange) : Prop :=
  ∃ turn ∈ lastTurn r calls, turn.2.state = .executed ∧ turn.2.attempts = turn.1.attempts

/-! ## 2. The text of the error -/

theorem includes_iff {text part : Str} : includes text part = true ↔ part <:+: text := by
  rw [includes, List.any_eq_true]
  constructor
  · rintro ⟨tail, htail, hpre⟩
    obtain ⟨rest, rfl⟩ := List.isPrefixOf_iff_prefix.mp hpre
    obtain ⟨before, rfl⟩ := (List.mem_tails _ _).mp htail
    exact ⟨before, rest, by rw [List.append_assoc]⟩
  · rintro ⟨before, rest, rfl⟩
    refine ⟨part ++ rest, (List.mem_tails _ _).mpr ⟨before, by rw [List.append_assoc]⟩, ?_⟩
    exact List.isPrefixOf_iff_prefix.mpr ⟨rest, rfl⟩

/-- A part does not begin in a text that lacks its first character. -/
theorem infix_append_iff {c : Char} {part a b : Str} (hc : c ∉ a) :
    c :: part <:+: a ++ b ↔ c :: part <:+: b := by
  induction a with
  | nil => rfl
  | cons d a ih =>
    rw [List.mem_cons, not_or] at hc
    rw [List.cons_append, List.infix_cons_iff, ih hc.2, or_iff_right]
    intro hpre
    exact hc.1 (List.cons_prefix_cons.mp hpre).1

/-- Nor does it end in one that lacks its last. -/
theorem infix_append_iff' {c : Char} {part a b : Str} (hc : c ∉ b) :
    part ++ [c] <:+: a ++ b ↔ part ++ [c] <:+: a := by
  rw [← List.reverse_infix, ← @List.reverse_infix _ _ a, List.reverse_append,
    List.reverse_append, List.reverse_singleton, List.singleton_append,
    infix_append_iff (by rwa [List.mem_reverse])]

theorem selector_infix_iff {before text after : Str} (hbefore : '0' ∉ before)
    (hafter : 'f' ∉ after) :
    PAYMENT_ALREADY_CONFIRMED_SELECTOR <:+: before ++ text ++ after ↔
      PAYMENT_ALREADY_CONFIRMED_SELECTOR <:+: text := by
  have hfirst : PAYMENT_ALREADY_CONFIRMED_SELECTOR = '0' :: "x18dce79f".toList := rfl
  have hlast : PAYMENT_ALREADY_CONFIRMED_SELECTOR = "0x18dce79".toList ++ ['f'] := rfl
  calc PAYMENT_ALREADY_CONFIRMED_SELECTOR <:+: before ++ text ++ after
      ↔ PAYMENT_ALREADY_CONFIRMED_SELECTOR <:+: before ++ text := by
        rw [hlast]
        exact infix_append_iff' hafter
    _ ↔ PAYMENT_ALREADY_CONFIRMED_SELECTOR <:+: text := by
        rw [hfirst]
        exact infix_append_iff hbefore

/-- The error of a reverted receipt. -/
def revertedError (hash : Hex) : JsError :=
  .error ("executeDirectMintingWithData reverted (tx ".toList ++ hash ++ ")".toList)

theorem isAlreadyConfirmed_reverted (hash : Hex) :
    isAlreadyConfirmed (revertedError hash) = true ↔ (Loss.reverted hash).Named := by
  have hbefore : '0' ∉ toLowerCase "executeDirectMintingWithData reverted (tx ".toList := by
    decide +kernel
  have hafter : 'f' ∉ toLowerCase ")".toList := by decide +kernel
  have htext : ∀ message : Str, (JsError.error message).message = message := fun _ => rfl
  rw [isAlreadyConfirmed, Loss.Named, includes_iff, includes_iff, revertedError, htext,
    toLowerCase_append, toLowerCase_append]
  exact selector_infix_iff hbefore hafter

/-! ## 3. The calls of a step -/

/-- No answer to this operation tells of a loss. -/
def silent : Op → Bool
  | .executeDirectMintingWithData _ _ _ _ _ | .waitForTransactionReceipt _ => false
  | _ => true

theorem not_tells {x : Exchange} (h : silent x.op = true) (loss : Loss) : ¬Tells x loss := by
  cases loss with
  | rejected =>
    rintro ⟨⟨_, _, _, _, _, hop⟩, -⟩
    rw [hop] at h
    cases h
  | reverted hash =>
    rintro ⟨hop, -⟩
    rw [hop] at h
    cases h

/-- A mint that resolves, or that throws with another text. -/
theorem not_tells_mint {x : Exchange} {xrplTxId assetManager : Hex} {proof : XrpPaymentProof}
    {userOpData : Hex} {value : Int}
    (hop : x.op = .executeDirectMintingWithData xrplTxId assetManager proof userOpData value)
    (h : ∀ e part, x.choice = .fail e part → isAlreadyConfirmed e ≠ true) (loss : Loss) :
    ¬Tells x loss := by
  cases loss with
  | rejected =>
    rintro ⟨-, e, part, he, hconf⟩
    exact h e part he hconf
  | reverted hash =>
    rintro ⟨hop', -⟩
    cases hop.symm.trans hop'

/-- A receipt that is not of a revert, or none at all. -/
theorem not_tells_receipt {x : Exchange} {hash : Hex} (hop : x.op = .waitForTransactionReceipt hash)
    (h : ∀ receipt, x.choice = .receipt receipt → receipt.reverted ≠ true) (loss : Loss) :
    ¬Tells x loss := by
  cases loss with
  | rejected =>
    rintro ⟨⟨_, _, _, _, _, hop'⟩, -⟩
    cases hop.symm.trans hop'
  | reverted hash' =>
    rintro ⟨-, receipt, hr, hrev⟩
    exact h receipt hr hrev

/-- An answer tells of one loss. -/
theorem Tells.unique {x : Exchange} {loss loss' : Loss} (h : Tells x loss) (h' : Tells x loss') :
    loss = loss' := by
  cases loss with
  | rejected =>
    obtain ⟨⟨_, _, _, _, _, hop⟩, -⟩ := h
    cases loss' with
    | rejected => rfl
    | reverted hash => cases hop.symm.trans h'.1
  | reverted hash =>
    cases loss' with
    | rejected =>
      obtain ⟨⟨_, _, _, _, _, hop⟩, -⟩ := h'
      cases hop.symm.trans h.1
    | reverted hash' =>
      have hop := h.1.symm.trans h'.1
      cases hop
      rfl

/-- What `lastTurn` finds: the call before the save, and the one the save begins with. -/
theorem lastTurn_eq {r : Ref} {before after : List Exchange} {x y : Exchange}
    (hbefore : ∀ z ∈ before, beginsSave z.op = false) (hx : beginsSave x.op = false)
    (hy : beginsSave y.op = true) {job job' : Job} (hjob : x.drift.heap[r]? = some job)
    (hjob' : y.before.mem.heap[r]? = some job') :
    lastTurn r (before ++ x :: y :: after) = some (job, job') := by
  induction before with
  | nil => simp [lastTurn, hy, hjob, hjob']
  | cons z before ih =>
    have ih := ih fun w hw => hbefore w (List.mem_cons_of_mem _ hw)
    cases before with
    | nil => simpa [lastTurn, hx] using ih
    | cons w before =>
      have hw : beginsSave w.op = false := hbefore w (by simp)
      simpa [lastTurn, hw] using ih

/-- The calls of a save of a job. -/
def Saves (r : Ref) (job : Job) (calls : List Exchange) : Prop :=
  ∃ s c d rest, calls = ⟨.mkdirState, s, c, d⟩ :: rest ∧ s.mem.heap[r]? = some job ∧
    ∀ x ∈ rest, silent x.op = true

theorem Saves.silent {r : Ref} {job : Job} {calls : List Exchange} (h : Saves r job calls) :
    ∀ x ∈ calls, LostRace.silent x.op = true := by
  obtain ⟨s, c, d, rest, rfl, -, hrest⟩ := h
  intro x hx
  rw [List.mem_cons] at hx
  rcases hx with rfl | hx
  · rfl
  · exact hrest x hx

/-! ## 4. The parts of a step -/

/-- The triples of a step among other tasks. -/
abbrev Among (r : Ref) {α : Type} (p : Prog α)
    (Q : List Exchange → Except JsError α → St → Prop) (s : St) : Prop :=
  Alone (W := world) woken (Keeps r) p Q s

/-- The job object of a payment. -/
def Has (r : Ref) (xrplTxId : Hex) (m : Memory) : Prop :=
  ∃ job, m.heap[r]? = some job ∧ job.xrplTxId = xrplTxId

theorem Keeps.has {r : Ref} {x : Exchange} (h : Keeps r x) {id : Hex}
    (hm : Has r id x.before.mem) : Has r id x.drift := by
  obtain ⟨job, hj, rfl⟩ := hm
  exact h job hj

/-- What the `catch` leads to, and the calls it makes. -/
inductive Caught (r : Ref) (job : Job) (e : JsError) :
    List Exchange → Except JsError Flow → St → Prop
  | counted {s' : St} : ¬(job.state = .proof_fetched ∧ isAlreadyConfirmed e = true) →
      s'.mem.heap[r]? = some (countAttempt e job) → Caught r job e [] (.ok .save) s'
  | unused {s s' : St} {c : Choice} {d : Memory} : c ≠ .bool true → Has r job.xrplTxId s'.mem →
      Caught r job e [⟨.isTransactionIdUsed job.xrplTxId, s, c, d⟩] (.ok .save) s'
  | settled {s s' : St} {c : Choice} {d : Memory} {job' : Job} {time : Int}
      {calls : List Exchange} {res : Except JsError Flow} : res ≠ .ok .save →
      job.state = .proof_fetched → isAlreadyConfirmed e = true → d.heap[r]? = some job' →
      Saves r { job' with state := .executed, lastError := none, updatedAt := time } calls →
      Caught r job e (⟨.isTransactionIdUsed job.xrplTxId, s, c, d⟩ :: calls) res s'

/-- What the `try` block leads to: no loss, or a loss and its error. -/
inductive Tried (r : Ref) (id : Hex) : List Exchange → Except JsError Flow → St → Prop
  | quiet {calls : List Exchange} {res : Except JsError Flow} {s' : St} :
      (∀ x ∈ calls, ∀ loss, ¬Tells x loss) → Has r id s'.mem → Tried r id calls res s'
  | lost {before : List Exchange} {x : Exchange} {e : JsError} {loss : Loss} {s' : St} :
      (∀ z ∈ before, beginsSave z.op = false) → (∀ z ∈ before, ∀ loss, ¬Tells z loss) →
      beginsSave x.op = false → Tells x loss → (isAlreadyConfirmed e = true ↔ loss.Named) →
      Has r id x.drift → s'.mem = x.drift → Tried r id (before ++ [x]) (.error e) s'

section Parts

variable {r : Ref} {s : St} {job : Job}

theorem among_deref {Q : List Exchange → Except JsError Job → St → Prop}
    (hj : s.mem.heap[r]? = some job) (hQ : Q [] (.ok job) s) : Among r (deref r) Q s := by
  unfold deref
  refine alone_then (alone_gets ⟨rfl, _, rfl, ?_⟩)
  simp only [hj]
  exact alone_pure hQ

/-- A call: one exchange, which keeps the job object. -/
theorem among_call {op : Op} : Among r (Prog.call (S := sig) op) (fun calls res s' =>
    ∃ c d, calls = [⟨op, s, c, d⟩] ∧ s'.mem = d ∧ Keeps r ⟨op, s, c, d⟩ ∧
      ∃ w, perform op c s.world = some (res, w)) s :=
  alone_call fun c d _ w hkeeps hper => ⟨c, d, rfl, rfl, hkeeps, w, hper⟩

/-- A write to the job object. -/
theorem among_update {f : Job → Job} {Q : List Exchange → Except JsError Unit → St → Prop}
    (hj : s.mem.heap[r]? = some job)
    (hQ : ∀ s' : St, s'.mem.heap[r]? = some (f job) → Q [] (.ok ()) s') :
    Among r (Prog.modify (Memory.updateJob r f)) Q s := by
  refine alone_modify (hQ _ ?_)
  simp [Memory.updateJob, hj]

theorem among_save (hj : s.mem.heap[r]? = some job) :
    Among r (save r) (fun calls _ _ => ∃ time, Saves r { job with updatedAt := time } calls) s := by
  unfold save
  refine alone_then (alone_gets ⟨rfl, _, rfl, ?_⟩)
  refine alone_then (among_update hj fun s₁ hj₁ => ⟨rfl, _, rfl, ?_⟩)
  refine alone_then (among_deref hj₁ ⟨rfl, _, rfl, ?_⟩)
  refine alone_seq among_call ?_ ?_
  · rintro calls _ s₂ ⟨c, d, rfl, hs₂, hkeeps, -⟩
    obtain ⟨job₂, hj₂, -⟩ := hkeeps _ hj₁
    refine alone_then (among_deref (hs₂ ▸ hj₂) ⟨rfl, _, rfl, ?_⟩)
    refine alone_mono among_call ?_
    rintro calls res s₃ ⟨c', d', rfl, -⟩
    refine ⟨s.mem.now, s₁, c, d, _, rfl, hj₁, ?_⟩
    simp [LostRace.silent]
  · rintro calls e s₂ ⟨c, d, rfl, -⟩
    exact ⟨s.mem.now, s₁, c, d, [], rfl, hj₁, by simp⟩

/-- A job object at the mint, and an error with the selector: the chain is asked. -/
theorem among_lostRace (hj : s.mem.heap[r]? = some job) {e : JsError}
    (h : job.state = .proof_fetched ∧ isAlreadyConfirmed e = true) :
    Among r (lostRace r e) (fun calls res s' => ∃ c d b,
      calls = [⟨.isTransactionIdUsed job.xrplTxId, s, c, d⟩] ∧ res = .ok b ∧
        (b = false → c ≠ .bool true) ∧ s'.mem = d ∧ Has r job.xrplTxId d) s := by
  unfold lostRace
  refine alone_then (among_deref hj ⟨rfl, _, rfl, ?_⟩)
  rw [if_pos h, isTransactionUsed]
  have hhas : Has r job.xrplTxId s.mem := ⟨job, hj, rfl⟩
  refine alone_tryCatch among_call ?_ ?_
  · rintro calls b s' ⟨c, d, rfl, hs', hkeeps, w, hper⟩
    refine ⟨c, d, b, rfl, rfl, ?_, hs', hkeeps.has hhas⟩
    rintro rfl rfl
    cases (perform_ok hper).1
  · rintro calls error s' ⟨c, d, rfl, hs', hkeeps, w, hper⟩
    obtain ⟨part, rfl⟩ := perform_error rfl hper
    exact alone_pure ⟨_, d, false, rfl, rfl, by simp, hs', hkeeps.has hhas⟩

/-- A miss that is no lost race is counted, and nothing is asked. -/
theorem among_catchBlock_counted (hj : s.mem.heap[r]? = some job) {e : JsError}
    (h : ¬(job.state = .proof_fetched ∧ isAlreadyConfirmed e = true))
    {Q : List Exchange → Except JsError Flow → St → Prop}
    (hQ : ∀ {s' : St}, s'.mem.heap[r]? = some (countAttempt e job) → Q [] (.ok .save) s') :
    Among r (catchBlock r e) Q s := by
  have hrace : lostRace r e = deref r >>= fun job =>
      if job.state = .proof_fetched ∧ isAlreadyConfirmed e = true then
        isTransactionUsed job.xrplTxId else return false := rfl
  unfold catchBlock
  rw [hrace, Prog.bind_assoc]
  refine alone_then (among_deref hj ⟨rfl, _, rfl, ?_⟩)
  rw [if_neg h]
  refine alone_then (alone_pure ⟨rfl, _, rfl, ?_⟩)
  rw [if_neg (by decide)]
  refine alone_then (among_update hj fun s₁ hj₁ => ⟨rfl, _, rfl, ?_⟩)
  exact alone_pure (hQ hj₁)

theorem among_catchBlock (hj : s.mem.heap[r]? = some job) (e : JsError) :
    Among r (catchBlock r e) (Caught r job e) s := by
  by_cases hlost : job.state = .proof_fetched ∧ isAlreadyConfirmed e = true
  · unfold catchBlock
    refine alone_seq (among_lostRace hj hlost) ?_ ?_
    · rintro calls b s₁ ⟨c, d, b', rfl, hb, hunused, hs₁, job₁, hj₁, hid⟩
      obtain rfl := Except.ok.inj hb
      have hj₁' : s₁.mem.heap[r]? = some job₁ := hs₁ ▸ hj₁
      cases b with
      | false =>
        rw [if_neg (by decide)]
        refine alone_then (among_update hj₁' fun s₂ hj₂ => ⟨rfl, _, rfl, ?_⟩)
        exact alone_pure (.unused (hunused rfl) ⟨_, hj₂, hid⟩)
      | true =>
        rw [if_pos rfl]
        refine alone_then (among_update hj₁' fun s₂ hj₂ => ⟨rfl, _, rfl, ?_⟩)
        refine alone_seq (among_save hj₂) ?_ ?_
        · rintro calls u s₃ ⟨time, hsaves⟩
          refine alone_pure ?_
          rw [List.append_nil]
          exact .settled (by simp) hlost.1 hlost.2 hj₁ hsaves
        · rintro calls error s₃ ⟨time, hsaves⟩
          exact .settled (by simp) hlost.1 hlost.2 hj₁ hsaves
    · rintro calls error s₁ ⟨c, d, b, -, hb, -⟩
      cases hb
  · exact among_catchBlock_counted hj hlost (.counted hlost)

/-- What a program does without a loss. -/
abbrev Quiet (r : Ref) (id : Hex) {α : Type} (calls : List Exchange) (_ : Except JsError α)
    (s' : St) : Prop :=
  (∀ x ∈ calls, silent x.op = true ∧ beginsSave x.op = false) ∧ Has r id s'.mem

theorem among_fetchProof (o : Options) (request : Option Hex) (roundId : Option Int) {id : Hex}
    (hhas : Has r id s.mem) :
    Among r (FdcClient.fetchProof o request roundId) (Quiet r id) s := by
  unfold FdcClient.fetchProof
  have hquiet : ∀ c d (s' : St), s'.mem = d →
      Keeps r ⟨.proofByRequestRound roundId request, s, c, d⟩ → ∀ res : Except JsError XrpPaymentProof,
        Quiet r id [⟨.proofByRequestRound roundId request, s, c, d⟩] res s' := by
    rintro c d s' rfl hkeeps res
    refine ⟨fun x hx => ?_, hkeeps.has hhas⟩
    rw [List.mem_singleton.mp hx]
    exact ⟨rfl, rfl⟩
  refine alone_seq among_call ?_ ?_
  · rintro calls reply s' ⟨c, d, rfl, hs', hkeeps, -⟩
    refine alone_lift ?_
    rw [List.append_nil]
    exact hquiet c d s' hs' hkeeps _
  · rintro calls e s' ⟨c, d, rfl, hs', hkeeps, -⟩
    exact hquiet c d s' hs' hkeeps _

/-- What follows the receipt of a mint that went through. -/
theorem among_receipt (o : Options) (receipt : Receipt) {id : Hex} (hhas : Has r id s.mem)
    {calls : List Exchange} (hcalls : ∀ x ∈ calls, ∀ loss, ¬Tells x loss) :
    Among r (match findDelayedEvent o.viem receipt.logs with
      | some delay => do
        Prog.modify (Memory.updateJob r fun job =>
          { job with executionAllowedAt := some (delay * 1000), state := .delayed })
        Prog.lift (S := sig) (toISOString (delay * 1000))
        return Flow.save
      | none => do
        Prog.modify (Memory.updateJob r fun job => { job with state := .executed })
        return Flow.save) (fun calls' => Tried r id (calls ++ calls')) s := by
  have hnil : ∀ x ∈ calls ++ [], ∀ loss, ¬Tells x loss := by rwa [List.append_nil]
  obtain ⟨job, hj, hid⟩ := hhas
  cases findDelayedEvent o.viem receipt.logs with
  | some delay =>
    refine alone_then (among_update hj fun s₁ hj₁ => ⟨rfl, _, rfl, ?_⟩)
    refine alone_lift_seq (fun _ _ => ?_) fun e _ => ?_
    · exact alone_pure (.quiet hnil ⟨_, hj₁, hid⟩)
    · exact .quiet hnil ⟨_, hj₁, hid⟩
  | none =>
    refine alone_then (among_update hj fun s₁ hj₁ => ⟨rfl, _, rfl, ?_⟩)
    exact alone_pure (.quiet hnil ⟨_, hj₁, hid⟩)

/-- The mint of a job and what follows it. -/
theorem among_minted (o : Options) (hash : Hex) {id : Hex} (hhas : Has r id s.mem)
    {calls : List Exchange} (hbefore : ∀ x ∈ calls, beginsSave x.op = false)
    (hcalls : ∀ x ∈ calls, ∀ loss, ¬Tells x loss) :
    Among r (do
      let receipt ← Prog.call (S := sig) (.waitForTransactionReceipt hash)
      if receipt.reverted = true then
        Prog.lift (S := sig) (raise ("executeDirectMintingWithData reverted (tx ".toList ++ hash ++
          ")".toList))
      else match findDelayedEvent o.viem receipt.logs with
        | some delay => do
          Prog.modify (Memory.updateJob r fun job =>
            { job with executionAllowedAt := some (delay * 1000), state := .delayed })
          Prog.lift (S := sig) (toISOString (delay * 1000))
          return Flow.save
        | none => do
          Prog.modify (Memory.updateJob r fun job => { job with state := .executed })
          return Flow.save) (fun calls' => Tried r id (calls ++ calls')) s := by
  refine alone_seq among_call ?_ ?_
  · rintro receipts receipt s₁ ⟨c, d, rfl, hs₁, hkeeps, w, hper⟩
    have h₁ := hkeeps.has hhas
    obtain rfl := Solo.perform_receipt hper
    by_cases hrev : receipt.reverted = true
    · rw [if_pos hrev]
      refine alone_lift ?_
      rw [List.append_nil]
      have htells : Tells ⟨.waitForTransactionReceipt hash, s, .receipt receipt, d⟩
          (.reverted hash) := ⟨rfl, receipt, rfl, hrev⟩
      exact .lost hbefore hcalls rfl htells (isAlreadyConfirmed_reverted hash) h₁ hs₁
    · rw [if_neg hrev]
      simp only [← List.append_assoc]
      refine among_receipt o receipt (hs₁ ▸ h₁) (List.forall_mem_append.mpr ⟨hcalls, ?_⟩)
      refine List.forall_mem_singleton.mpr (not_tells_receipt rfl ?_)
      rintro receipt' heq
      cases heq
      exact hrev
  · rintro receipts e s₁ ⟨c, d, rfl, hs₁, hkeeps, w, hper⟩
    obtain ⟨part, rfl⟩ := perform_error rfl hper
    refine .quiet (List.forall_mem_append.mpr ⟨hcalls, ?_⟩) (hs₁ ▸ hkeeps.has hhas)
    exact List.forall_mem_singleton.mpr (not_tells_receipt rfl (by rintro receipt ⟨⟩))

theorem among_caseProofFetched (o : Options) (job : Job) {id : Hex} (hhas : Has r id s.mem) :
    Among r (caseProofFetched o r job) (Tried r id) s := by
  unfold caseProofFetched
  refine alone_seq (among_fetchProof o _ _ hhas) ?_ ?_
  case refine_2 =>
    rintro calls e s₁ ⟨hcalls, h₁⟩
    exact .quiet (fun x hx => not_tells (hcalls x hx).1) h₁
  rintro fetch proof s₁ ⟨hfetch, h₁⟩
  have hbefore : ∀ x ∈ fetch, beginsSave x.op = false := fun x hx => (hfetch x hx).2
  have hsilent : ∀ x ∈ fetch, ∀ loss, ¬Tells x loss := fun x hx => not_tells (hfetch x hx).1
  obtain ⟨job₁, hj₁, hid⟩ := h₁
  have h₁ : Has r id s₁.mem := ⟨job₁, hj₁, hid⟩
  refine alone_then (among_deref hj₁ ⟨rfl, _, rfl, ?_⟩)
  refine alone_seq among_call ?_ ?_
  · rintro mint hash s₂ ⟨c, d, rfl, hs₂, hkeeps, w, hper⟩
    obtain ⟨job₂, hj₂, hid₂⟩ := hkeeps.has h₁
    refine alone_then (among_update (hs₂ ▸ hj₂) fun s₃ hj₃ => ⟨rfl, _, rfl, ?_⟩)
    simp only [← List.append_assoc]
    refine among_minted o hash ⟨_, hj₃, hid₂⟩ (List.forall_mem_append.mpr ⟨hbefore, ?_⟩)
      (List.forall_mem_append.mpr ⟨hsilent, ?_⟩)
    · exact List.forall_mem_singleton.mpr rfl
    · refine List.forall_mem_singleton.mpr (not_tells_mint rfl ?_)
      rintro e part rfl
      cases (perform_ok hper).1
  · rintro mint e s₂ ⟨c, d, rfl, hs₂, hkeeps, w, hper⟩
    obtain ⟨part, rfl⟩ := perform_error rfl hper
    have h₂ := hkeeps.has h₁
    by_cases hconf : isAlreadyConfirmed e = true
    · refine .lost hbefore hsilent rfl (?_ : Tells _ .rejected) (iff_of_true hconf trivial) h₂ hs₂
      exact ⟨⟨_, _, _, _, _, rfl⟩, e, part, rfl, hconf⟩
    · refine .quiet (List.forall_mem_append.mpr ⟨hsilent, ?_⟩) (hs₂ ▸ h₂)
      refine List.forall_mem_singleton.mpr (not_tells_mint rfl ?_)
      rintro e' part' heq
      cases heq
      exact hconf

/-- The `try` block of a job at the mint. -/
theorem among_tryBlock (o : Options) (hj : s.mem.heap[r]? = some job)
    (hst : job.state = .proof_fetched) :
    Among r (tryBlock o r) (Tried r job.xrplTxId) s := by
  unfold tryBlock
  refine alone_then (among_deref hj ⟨rfl, _, rfl, ?_⟩)
  have hswitch : switch o r job = caseProofFetched o r job := by rw [switch, hst]
  rw [hswitch]
  refine alone_seq (among_caseProofFetched o job ⟨job, hj, rfl⟩) ?_ fun _ _ _ h => ?_
  · rintro calls flow s₁ htried
    generalize hres : (Except.ok flow : Except JsError Flow) = res at htried
    cases htried with
    | lost => cases hres
    | quiet hcalls h₁ =>
      have hnil : ∀ x ∈ calls ++ [], ∀ loss, ¬Tells x loss := by rwa [List.append_nil]
      cases flow with
      | returned => exact alone_pure (.quiet hnil h₁)
      | save =>
        obtain ⟨job₁, hj₁, hid⟩ := h₁
        refine alone_then (among_update hj₁ fun s₂ hj₂ => ⟨rfl, _, rfl, ?_⟩)
        exact alone_pure (.quiet hnil ⟨_, hj₂, hid⟩)
  · generalize hres : (Except.error _ : Except JsError Flow) = res at h
    cases h with
    | quiet hcalls h₁ => exact .quiet hcalls h₁
    | lost hbefore hsilent hx htells hnamed hhas hs =>
      cases hres
      exact .lost hbefore hsilent hx htells hnamed hhas hs

end Parts

/-! ## 5. The step -/

/-- A loss the step hears of settles the job exactly when it can be told. -/
def Settles (r : Ref) (id : Hex) (calls : List Exchange) : Prop :=
  ∀ x ∈ calls, ∀ loss, Tells x loss → (∀ y ∈ calls, Used id y) →
    (EndsExecuted r calls ↔ loss.Named ∧ AtMint r x.drift)

theorem settles_quiet {r : Ref} {id : Hex} {calls : List Exchange}
    (h : ∀ x ∈ calls, ∀ loss, ¬Tells x loss) : Settles r id calls :=
  fun x hx loss htells => absurd htells (h x hx loss)

/-- The loss is the only one of a step. -/
theorem settles_lost {r : Ref} {id : Hex} {before after : List Exchange} {x : Exchange}
    {loss : Loss} (hbefore : ∀ z ∈ before, ∀ loss, ¬Tells z loss) (htells : Tells x loss)
    (hafter : ∀ z ∈ after, silent z.op = true)
    (h : (∀ y ∈ after, Used id y) →
      (EndsExecuted r (before ++ [x] ++ after) ↔ loss.Named ∧ AtMint r x.drift)) :
    Settles r id (before ++ [x] ++ after) := by
  intro z hz loss' htells' hused
  rw [List.mem_append, List.mem_append, List.mem_singleton] at hz
  rcases hz with (hz | rfl) | hz
  · exact absurd htells' (hbefore z hz loss')
  · obtain rfl := htells.unique htells'
    exact h fun y hy => hused y (List.mem_append_right _ hy)
  · exact absurd htells' (not_tells (hafter z hz) loss')

/-- A save of a job right after a call. -/
theorem endsExecuted_iff {r : Ref} {before calls : List Exchange} {x : Exchange} {job job' : Job}
    (hbefore : ∀ z ∈ before, beginsSave z.op = false) (hx : beginsSave x.op = false)
    (hjob : x.drift.heap[r]? = some job) (hsaves : Saves r job' calls) :
    EndsExecuted r (before ++ [x] ++ calls) ↔
      job'.state = .executed ∧ job'.attempts = job.attempts := by
  obtain ⟨s, c, d, rest, rfl, hs, -⟩ := hsaves
  rw [List.append_assoc, List.singleton_append, EndsExecuted,
    lastTurn_eq hbefore hx rfl hjob hs]
  simp

/-- What is left to do is at most a save, and the save settles the step. -/
def Ready (r : Ref) (id : Hex) (calls : List Exchange) (res : Except JsError Flow) (s' : St) :
    Prop :=
  match res with
  | .ok .save => ∃ job, s'.mem.heap[r]? = some job ∧ ∀ time calls',
      Saves r { job with updatedAt := time } calls' → Settles r id (calls ++ calls')
  | _ => Settles r id calls

theorem ready_quiet {r : Ref} {id : Hex} {calls : List Exchange} {res : Except JsError Flow}
    {s' : St} (h : ∀ x ∈ calls, ∀ loss, ¬Tells x loss) (hhas : Has r id s'.mem) :
    Ready r id calls res s' := by
  unfold Ready
  split
  · obtain ⟨job, hj, -⟩ := hhas
    refine ⟨job, hj, fun time calls' hsaves => settles_quiet ?_⟩
    exact List.forall_mem_append.mpr ⟨h, fun x hx => not_tells (hsaves.silent x hx)⟩
  · exact settles_quiet h

/-- After an error that tells of no loss. -/
theorem Caught.ready_quiet {r : Ref} {job : Job} {e : JsError} {before calls : List Exchange}
    {res : Except JsError Flow} {s' : St} (h : Caught r job e calls res s')
    (hbefore : ∀ x ∈ before, ∀ loss, ¬Tells x loss) :
    Ready r job.xrplTxId (before ++ calls) res s' := by
  cases h with
  | counted _ hj =>
    rw [List.append_nil]
    exact LostRace.ready_quiet hbefore ⟨_, hj, rfl⟩
  | unused _ hhas =>
    refine LostRace.ready_quiet (List.forall_mem_append.mpr ⟨hbefore, ?_⟩) hhas
    exact List.forall_mem_singleton.mpr (not_tells rfl)
  | @settled s _ c d job' time calls _ hres _ _ _ hsaves =>
    have hsettles : Settles r job.xrplTxId
        (before ++ ⟨.isTransactionIdUsed job.xrplTxId, s, c, d⟩ :: calls) := by
      refine settles_quiet (List.forall_mem_append.mpr ⟨hbefore, ?_⟩)
      exact List.forall_mem_cons.mpr ⟨not_tells rfl, fun x hx => not_tells (hsaves.silent x hx)⟩
    unfold Ready
    split
    · exact absurd rfl hres
    · exact hsettles

/-- After the error of a loss. -/
theorem Caught.ready_lost {r : Ref} {job : Job} {e : JsError} {before calls : List Exchange}
    {x : Exchange} {loss : Loss} {res : Except JsError Flow} {s' : St}
    (h : Caught r job e calls res s') (hbefore : ∀ z ∈ before, beginsSave z.op = false)
    (hquiet : ∀ z ∈ before, ∀ loss, ¬Tells z loss) (hx : beginsSave x.op = false)
    (htells : Tells x loss) (hnamed : isAlreadyConfirmed e = true ↔ loss.Named)
    (hjob : x.drift.heap[r]? = some job) :
    Ready r job.xrplTxId (before ++ [x] ++ calls) res s' := by
  have hat : AtMint r x.drift ↔ job.state = .proof_fetched := by
    simp [AtMint, hjob]
  cases h with
  | counted hrace hj =>
    refine ⟨_, hj, fun time calls' hsaves => ?_⟩
    rw [List.append_nil]
    refine settles_lost hquiet htells hsaves.silent fun _ => ?_
    rw [endsExecuted_iff hbefore hx hjob hsaves, hat, ← hnamed]
    refine iff_of_false ?_ fun h => hrace ⟨h.2, h.1⟩
    rintro ⟨-, hattempts⟩
    exact Nat.succ_ne_self _ hattempts
  | @unused s _ c d hc hhas =>
    obtain ⟨job', hj, -⟩ := hhas
    refine ⟨job', hj, fun time calls' hsaves => ?_⟩
    rw [List.append_assoc _ [_]]
    refine settles_lost hquiet htells (List.forall_mem_append.mpr ⟨?_, hsaves.silent⟩)
      fun hused => ?_
    · exact List.forall_mem_singleton.mpr rfl
    · exact absurd (hused _ (List.mem_append_left _ (List.mem_singleton.mpr rfl)) rfl) hc
  | @settled s _ c d job' time calls _ hres hst hconf hj hsaves =>
    have hsettles : Settles r job.xrplTxId
        (before ++ [x] ++ ⟨.isTransactionIdUsed job.xrplTxId, s, c, d⟩ :: calls) := by
      refine settles_lost hquiet htells (List.forall_mem_cons.mpr ⟨rfl, hsaves.silent⟩)
        fun _ => ?_
      · have hlead : ∀ z ∈ before ++ [x], beginsSave z.op = false :=
          List.forall_mem_append.mpr ⟨hbefore, List.forall_mem_singleton.mpr hx⟩
        rw [← List.singleton_append (l := calls), ← List.append_assoc,
          endsExecuted_iff hlead rfl hj hsaves, hat, ← hnamed]
        exact iff_of_true ⟨rfl, rfl⟩ ⟨hconf, hst⟩
    unfold Ready
    split
    · exact absurd rfl hres
    · exact hsettles

theorem among_step (o : Options) {r : Ref} {s : St} {job : Job} (hj : s.mem.heap[r]? = some job)
    (hst : job.state = .proof_fetched) :
    Among r (step o r) (fun calls _ _ => Settles r job.xrplTxId calls) s := by
  unfold step
  refine alone_seq (R := Ready r job.xrplTxId) ?_ ?_ ?_
  · refine alone_tryCatch (among_tryBlock o hj hst) ?_ ?_
    · intro calls flow s₁ htried
      generalize hres : (Except.ok flow : Except JsError Flow) = res at htried
      cases htried with
      | quiet hcalls hhas => exact ready_quiet hcalls hhas
      | lost => cases hres
    · intro calls e s₁ htried
      generalize hres : (Except.error e : Except JsError Flow) = res at htried
      cases htried with
      | quiet hcalls hhas =>
        obtain ⟨job₁, hj₁, hid⟩ := hhas
        refine alone_mono (among_catchBlock hj₁ e) fun calls' res' s₂ hcaught => ?_
        rw [← hid]
        exact hcaught.ready_quiet hcalls
      | lost hbefore hquiet hx htells hnamed hhas hs₁ =>
        cases hres
        obtain ⟨job₁, hj₁, hid⟩ := hhas
        refine alone_mono (among_catchBlock (hs₁ ▸ hj₁) e) fun calls' res' s₂ hcaught => ?_
        rw [← hid]
        exact hcaught.ready_lost hbefore hquiet hx htells hnamed hj₁
  · intro calls flow s₁ hready
    cases flow with
    | returned =>
      refine alone_pure ?_
      rw [List.append_nil]
      exact hready
    | save =>
      obtain ⟨job₁, hj₁, hsettles⟩ := hready
      refine alone_mono (among_save hj₁) ?_
      rintro calls' res s₂ ⟨time, hsaves⟩
      exact hsettles time calls' hsaves
  · intro calls e s₁ hready
    exact hready

/-! ## 6. A job that has failed four times -/

end LostRace

open LostRace

namespace SampleRace

def job : Job where
  id := "ab".toList
  state := .proof_fetched
  xrplTxId := "0xab".toList
  userOpData := "0x01".toList
  totalCallValue := 0
  personalAccount := .str "0xcd".toList
  nonce := 0
  abiEncodedRequest := some "0x08".toList
  roundId := some 1
  attempts := 4
  updatedAt := 0

def options : Options where
  viem := ViemTables.viem {}
  account := "0xef".toList
  assetManager := "0xaa".toList
  coreVaultAddress := "rVault".toList

def mem (job : Job) : Memory := { Memory.boot 0 with heap := [job] }

def outside : Outside := ⟨fun _ => none, fun _ => none, [], []⟩

def proof : XrpPaymentProof := ⟨[], "0x08".toList⟩

/-- An exchange, by the jobs before and after it. -/
def exchange (op : Op) (c : Choice) (before after : Job) (w : Outside := outside) : Exchange :=
  ⟨op, ⟨mem before, w⟩, c, mem after⟩

/-- The call and answer of a list of exchanges. -/
def answers (calls : List Exchange) : List (Choice × Memory) :=
  calls.map fun x => (x.choice, x.drift)

def fetch : Exchange := exchange (.proofByRequestRound job.roundId job.abiEncodedRequest)
  (.daLayer ⟨true, 200, [], some { response_hex := some "0x08".toList }⟩) job job

def mintOp : Op := .executeDirectMintingWithData job.xrplTxId options.assetManager proof
  job.userOpData job.totalCallValue

def executedJob : Job := { job with state := .executed }

def rejection : JsError := .error "reverted with 0x18dce79f".toList

/-- The mint is rejected with the selector, and the payment has been used. -/
def rejectedCalls : List Exchange :=
  [fetch, exchange mintOp (.fail rejection .nothing) job job,
    exchange (.isTransactionIdUsed job.xrplTxId) (.bool true) job job,
    exchange .mkdirState .done executedJob executedJob,
    exchange (.writeJob job.id executedJob) .done executedJob executedJob]

def sentJob : Job := { job with flareTxHash := some "0xff".toList }

def failedJob : Job :=
  { sentJob with
    state := .failed, attempts := 5
    lastError := some (revertedError "0xff".toList).message }

/-- The chain after the mint. -/
def mined : Outside := effect .full outside mintOp

/-- The mint is mined and reverted. -/
def revertedCalls : List Exchange :=
  [fetch, exchange mintOp (.hex "0xff".toList) job job,
    exchange (.waitForTransactionReceipt "0xff".toList) (.receipt ⟨true, 1, []⟩) sentJob sentJob
      mined,
    exchange .mkdirState .done failedJob failedJob mined,
    exchange (.writeJob job.id failedJob) .done failedJob failedJob mined]

/-- A step of the job with these answers. -/
def run (calls : List Exchange) : Option (Async.Outcome sig world Memory Unit) :=
  Async.exec woken (step options 0) (answers calls) ⟨mem job, outside⟩

theorem keeps_exchange {op : Op} {c : Choice} {before after : Job} {w : Outside}
    (h : after.xrplTxId = before.xrplTxId) : Keeps 0 (exchange op c before after w) := by
  intro found hfound
  obtain rfl := Option.some.inj hfound
  exact ⟨after, rfl, h⟩

end SampleRace

/-- **A lost race settles the job exactly when the error can be told to be one**, and no other task
has moved the job on: a rejection always names the selector, a reverted receipt only by its hash. -/
theorem lost_race_settles_iff (o : Options) {r : Ref} {s : St} {job : Job}
    (hj : s.mem.heap[r]? = some job) (hst : job.state = .proof_fetched)
    {answers : List (Choice × Memory)} {out : Async.Outcome sig world Memory Unit}
    (hexec : Async.exec (W := world) woken (step o r) answers s = some out)
    (hkeeps : ∀ x ∈ out.calls, Keeps r x) (hused : ∀ x ∈ out.calls, Used job.xrplTxId x)
    {x : LostRace.Exchange} (hx : x ∈ out.calls) {loss : Loss} (htells : Tells x loss) :
    EndsExecuted r out.calls ↔ loss.Named ∧ AtMint r x.drift :=
  among_step o hj hst answers out hexec hkeeps x hx loss htells hused

open SampleRace in
/-- The rejection settles the job, after four failed attempts. -/
theorem lost_race_settles_rejected : EndsExecuted 0 SampleRace.rejectedCalls := by
  have hexec : run rejectedCalls = some ⟨.ok (), ⟨mem executedJob,
      effect .full outside (.writeJob job.id executedJob)⟩, rejectedCalls, []⟩ := rfl
  have hkeeps : ∀ x ∈ rejectedCalls, Keeps 0 x := by
    simp only [rejectedCalls, fetch, List.forall_mem_cons]
    exact ⟨keeps_exchange rfl, keeps_exchange rfl, keeps_exchange rfl, keeps_exchange rfl,
      keeps_exchange rfl, by simp⟩
  have hused : ∀ x ∈ rejectedCalls, Used job.xrplTxId x := by
    simp [rejectedCalls, fetch, exchange, mintOp, Used]
  have hmem : exchange mintOp (.fail rejection .nothing) job job outside ∈ rejectedCalls := by
    simp [rejectedCalls]
  have htells : Tells (exchange mintOp (.fail rejection .nothing) job job outside) .rejected :=
    ⟨⟨_, _, _, _, _, rfl⟩, rejection, .nothing, rfl, by decide +kernel⟩
  exact (lost_race_settles_iff SampleRace.options rfl rfl hexec hkeeps hused hmem htells).mpr
    ⟨trivial, SampleRace.job, rfl, rfl⟩

/-- **A reverted receipt is counted**, and the fifth attempt fails the job: nothing asks the
chain. -/
theorem reverted_loss_fails :
    ∃ out, SampleRace.run SampleRace.revertedCalls = some out ∧
      (∃ x ∈ out.calls, Tells x (.reverted "0xff".toList)) ∧
      (∀ x ∈ out.calls, Used SampleRace.job.xrplTxId x) ∧ ¬EndsExecuted 0 out.calls ∧
      out.st.mem.heap = [SampleRace.failedJob] := by
  refine ⟨⟨.ok (), ⟨SampleRace.mem SampleRace.failedJob,
      effect .full SampleRace.mined (.writeJob SampleRace.job.id SampleRace.failedJob)⟩,
      SampleRace.revertedCalls, []⟩, rfl, ?_, ?_, ?_, rfl⟩
  · refine ⟨SampleRace.exchange (.waitForTransactionReceipt "0xff".toList) (.receipt ⟨true, 1, []⟩)
      SampleRace.sentJob SampleRace.sentJob SampleRace.mined, by simp [SampleRace.revertedCalls], ?_⟩
    exact ⟨rfl, _, rfl, rfl⟩
  · simp [SampleRace.revertedCalls, SampleRace.fetch, SampleRace.exchange, SampleRace.mintOp, Used]
  · rintro ⟨turn, hturn, hstate, -⟩
    obtain rfl := Option.some.inj hturn
    cases hstate

end OneSig.Executor
