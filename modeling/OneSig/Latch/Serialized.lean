/-
# Serialization, proved

`Serialize` is the server's promise queue; this module shows what it is for.  After any events,
executions of handlers have not overlapped, they have started in the order of the calls, every
caller receives what comes of its own execution, and every request is executed and answered as the
engine runs its jobs.

How far the execution at the front has come is a `Phase`: between two executions, running,
returned, landing, closing.  The whole state of the heap of promises follows from the phase, the
outcomes of the executions that are over and the number of calls (`Inv`): which promises are
settled, what is registered on the others, and the one or two jobs in the queue.  Every event
keeps such a description, and every event that is not a request gets it on by a rank, at most ten
of them for one execution.

* Section 1 is a request: it registers behind the execution at the front, or is released at once
  when all are over.  What the chain of promises looks like behind it does not matter.
* Sections 2 and 3 are the other events, one lemma for each phase; `Inv.step` collects them.
* `Inv.moves` says that nothing stands still before everyone is answered; with the ranks this is
  progress with a bound.
* `serialized_iff` is the result.  It is exact: the one thing that keeps a caller from its answer
  is an id that the line on the console cannot print, and then its promise rejects though its
  handler succeeded.

What comes after the execution at the front is untouched, so neither the number of requests nor
what the earlier ones came to plays any part.  Two runs close the module: three requests in
progress together, and one with an id that does not print.
-/
import OneSig.Latch.Serialize

namespace OneSig.Latch

open Promise

namespace Serialize

variable {H : Type} {s s' : State H} {os : List Outcome} {f : Nat} {phase phase' : Phase}
  {call : Call H} {o : Outcome}

/-! ## 1. A request -/

theorem Inv.within_of_lt (h : Inv s os f phase) {i : Nat} (hi : i < os.length) :
    i < s.calls.length := by
  have hfront := h.front
  have hwithin := h.within
  omega

theorem waiting_run_subscribe (h : Heap Name Callback (Except JsError Value)) (i j : Nat)
    (r : Reaction Name Callback) :
    (h.subscribe (.queue i) r).waiting (.run j) = h.waiting (.run j) := by
  unfold Heap.subscribe
  split
  · rfl
  · dsimp only
    rw [Function.update_of_ne]
    exact nofun

/-- What `serialize` registers, when nothing is registered yet on the promise it returns. -/
theorem serialize_heap (hsettled : s.heap.settled (.run s.calls.length) = none)
    (hwaiting : s.heap.waiting (.run s.calls.length) = []) :
    (s.serialize call).heap =
      { s.heap.subscribe (.queue s.calls.length) (.call (.fn s.calls.length)) with
        waiting := Function.update
          (s.heap.subscribe (.queue s.calls.length) (.call (.fn s.calls.length))).waiting
          (.run s.calls.length)
          [.call (.discard s.calls.length), .call (.resume s.calls.length)] } := by
  have hpending : (s.heap.subscribe (.queue s.calls.length)
      (.call (.fn s.calls.length))).settled (.run s.calls.length) = none := by
    rw [Heap.subscribe_settled_eq]
    exact hsettled
  have hempty := waiting_run_subscribe s.heap s.calls.length s.calls.length
    (.call (.fn s.calls.length))
  rw [hwaiting] at hempty
  dsimp only [State.serialize]
  rw [Heap.subscribe_pending hpending, hempty, Heap.subscribe_pending]
  · simp only [Function.update_self, Function.update_idem, List.nil_append, List.singleton_append]
  · exact hpending

/-- The promises of a call that is yet to come are pending, and nothing waits for them. -/
theorem Inv.fresh (h : Inv s os f phase) : s.heap.settled (.run s.calls.length) = none ∧
    s.heap.waiting (.run s.calls.length) = [] := by
  have hopening : phase.opening f ≤ s.calls.length := by
    have hwithin := h.within
    have hpresent := h.present
    cases phase <;> simp [Phase.opening, Phase.present] at hpresent ⊢ <;> omega
  have hfresh := h.run s.calls.length hopening
  rwa [if_neg (lt_irrefl _)] at hfresh

theorem Inv.request_queued (h : Inv s os f phase) (call : Call H) (i : Nat) :
    s.heap.settled (.request i) =
      (os[i]?).bind fun o => ((s.calls ++ [call])[i]?).map fun call =>
        call.resume (ofOutcome o) := by
  rw [h.request]
  cases hos : os[i]? with
  | none => rfl
  | some o =>
    rw [List.getElem?_append_left (h.within_of_lt (List.getElem?_eq_some_iff.mp hos).1)]

/-- A request finds all executions over: its own is released at once. -/
theorem Inv.serialize_released {last : Option Outcome} (h : Inv s os f (.between last false)) :
    Inv (s.serialize call) os f (.between last true) := by
  have hf : f = s.calls.length :=
    Nat.le_antisymm h.within (Nat.not_lt.mp fun hlt => Bool.false_ne_true (h.present.mpr hlt))
  have hcalls : (s.serialize call).calls = s.calls ++ [call] := rfl
  have hheap : (s.serialize call).heap = { s.heap with
      waiting := Function.update s.heap.waiting (.run f) [.call (.discard f), .call (.resume f)]
      jobs := s.heap.jobs ++ [.react (.call (.fn f)) (.ok .undefined)] } := by
    rw [serialize_heap h.fresh.1 h.fresh.2, Heap.subscribe_settled, ← hf]
    rw [h.queue, if_pos (le_of_eq hf.symm)]
  constructor
  case front => exact h.front
  case running => exact h.running
  case trace => exact h.trace
  case jobs =>
    rw [hheap]
    simp [h.jobs, Phase.jobs]
  case within => simp [hcalls, hf]
  case present => simp [hcalls, hf, Phase.present]
  case queue =>
    rw [hheap]
    exact h.queue
  case behind =>
    intro i hi
    rw [hheap, hcalls, List.length_append, List.length_singleton, if_neg (by omega)]
    have hbehind := h.behind i hi
    rw [if_neg (by omega)] at hbehind
    simpa using hbehind
  case run =>
    intro i hi
    obtain ⟨hsettled, hwaiting⟩ := h.run i hi
    rw [hheap, hcalls, List.length_append, List.length_singleton]
    refine ⟨hsettled, ?_⟩
    by_cases hif : i = f
    · subst hif
      simp [hf]
    · have : f ≤ i := hi
      rw [if_neg (by omega)] at hwaiting ⊢
      simpa [hif] using hwaiting
  case handler =>
    rw [hheap]
    exact h.handler
  case handlers =>
    rw [hheap]
    exact h.handlers
  case request =>
    intro i
    rw [hheap]
    exact h.request_queued call i
  case unwatched =>
    rw [hheap]
    exact h.unwatched

/-- A request finds an execution at the front: its own waits. -/
theorem Inv.serialize_behind (h : Inv s os f phase) (hpresent : phase.present = true) :
    Inv (s.serialize call) os f phase := by
  have hlt : f < s.calls.length := h.present.mp hpresent
  have hcalls : (s.serialize call).calls = s.calls ++ [call] := rfl
  have hpending : s.heap.settled (.queue s.calls.length) = none := by
    rw [h.queue, if_neg (by omega)]
  have hwaiting := h.behind s.calls.length hlt
  rw [if_neg (lt_irrefl _)] at hwaiting
  have hheap : (s.serialize call).heap = { s.heap with
      waiting := Function.update (Function.update s.heap.waiting (.queue s.calls.length)
        [.call (.fn s.calls.length)]) (.run s.calls.length)
        [.call (.discard s.calls.length), .call (.resume s.calls.length)] } := by
    rw [serialize_heap h.fresh.1 h.fresh.2, Heap.subscribe_pending hpending, hwaiting,
      List.nil_append]
  constructor
  case front => exact h.front
  case running => exact h.running
  case trace => exact h.trace
  case jobs =>
    rw [hheap]
    exact h.jobs
  case within =>
    rw [hcalls, List.length_append]
    exact Nat.le_add_right_of_le h.within
  case present =>
    rw [hcalls, List.length_append, List.length_singleton]
    exact iff_of_true hpresent (Nat.lt_succ_of_lt hlt)
  case queue =>
    rw [hheap]
    exact h.queue
  case behind =>
    intro i hi
    have hbehind := h.behind i hi
    rw [hheap, hcalls, List.length_append, List.length_singleton]
    by_cases hin : i = s.calls.length
    · subst hin
      simp
    · have hiff : i < s.calls.length ↔ i < s.calls.length + 1 := by omega
      rw [if_congr hiff rfl rfl] at hbehind
      simpa [hin] using hbehind
  case run =>
    intro i hi
    obtain ⟨hsettled, hwaits⟩ := h.run i hi
    rw [hheap, hcalls, List.length_append, List.length_singleton]
    refine ⟨hsettled, ?_⟩
    by_cases hin : i = s.calls.length
    · subst hin
      simp
    · have hiff : i < s.calls.length ↔ i < s.calls.length + 1 := by omega
      rw [if_congr hiff rfl rfl] at hwaits
      simpa [hin] using hwaits
  case handler =>
    rw [hheap]
    cases phase <;> exact h.handler
  case handlers =>
    rw [hheap]
    exact fun i hi => ⟨(h.handlers i hi).1, by simpa using (h.handlers i hi).2⟩
  case request =>
    intro i
    rw [hheap]
    exact h.request_queued call i
  case unwatched =>
    rw [hheap]
    simpa using h.unwatched

/-! ## 2. What becomes of an execution -/

/-- What happens to the promise of the handler at the front leaves the other ones alone. -/
theorem Inv.turn (h : Inv s os f phase) (hcalls : s'.calls = s.calls)
    (hlast : phase'.last = phase.last) (hpresent : phase'.present = phase.present)
    (hopening : phase'.opening f = phase.opening f)
    (hsettled : ∀ p, p ≠ .handler f → s'.heap.settled p = s.heap.settled p)
    (hwaiting : ∀ p, p ≠ .handler f → s'.heap.waiting p = s.heap.waiting p)
    (hrunning : s'.running = phase'.runs f)
    (htrace : s'.trace = done (os ++ phase'.last.toList) ++ phase'.begun f)
    (hjobs : s'.heap.jobs = phase'.jobs os.length f) (hhandler : phase'.Handler s'.heap f) :
    Inv s' os f phase' := by
  constructor
  case front =>
    rw [hlast]
    exact h.front
  case running => exact hrunning
  case trace => exact htrace
  case jobs => exact hjobs
  case within =>
    rw [hcalls]
    exact h.within
  case present =>
    rw [hpresent, hcalls]
    exact h.present
  case queue =>
    intro i
    rw [hsettled _ (by simp)]
    exact h.queue i
  case behind =>
    intro i hi
    rw [hwaiting _ (by simp), hcalls]
    exact h.behind i hi
  case run =>
    intro i hi
    rw [hsettled _ (by simp), hwaiting _ (by simp), hcalls]
    exact h.run i (hopening ▸ hi)
  case handler => exact hhandler
  case handlers =>
    intro i hi
    have hne : Name.handler i ≠ .handler f := by
      simp
      omega
    rw [hsettled _ hne, hwaiting _ hne]
    exact h.handlers i hi
  case request =>
    intro i
    rw [hsettled _ (by simp), hcalls]
    exact h.request i
  case unwatched =>
    intro i
    rw [hwaiting _ (by simp)]
    exact h.unwatched i

/-- `serialize`'s promise is settled. -/
theorem Inv.close (h : Inv s os f phase) (hcalls : s'.calls = s.calls)
    (hlast : phase.last = none) (hpresent : phase.present = true)
    (hopening : phase.opening f = f) (hrunning : s'.running = none)
    (htrace : s'.trace = done os ++ [.started f, .ended f o])
    (hheap : s'.heap = (s.heap.withJobs []).settle (.run f) (ofOutcome o)) :
    Inv s' os f (.closing o) := by
  obtain ⟨hrun, hwaiting⟩ := h.run f (le_of_eq hopening)
  have hlt : f < s.calls.length := h.present.mp hpresent
  rw [if_pos hlt] at hwaiting
  rw [Heap.settle_withJobs _ hrun, hwaiting] at hheap
  have hfront := h.front
  rw [hlast] at hfront
  constructor
  case front => exact hfront
  case running => exact hrunning
  case trace => simpa [Phase.last, Phase.begun] using htrace
  case jobs =>
    rw [hheap]
    rfl
  case within =>
    rw [hcalls]
    exact h.within
  case present => simp [hcalls, hlt, Phase.present]
  case queue =>
    intro i
    rw [hheap]
    simpa using h.queue i
  case behind =>
    intro i hi
    rw [hheap, hcalls]
    simpa using h.behind i hi
  case run =>
    intro i hi
    have hlt : f < i := hi
    have hi' : i ≠ f := by omega
    rw [hheap, hcalls]
    simpa [hi'] using h.run i (by omega)
  case handler => trivial
  case handlers =>
    intro i hi
    rw [hheap]
    simpa using h.handlers i hi
  case request =>
    intro i
    rw [hheap, hcalls]
    simpa using h.request i
  case unwatched =>
    intro i
    rw [hheap]
    simpa using h.unwatched i

/-- The next queue is released. -/
theorem Inv.release (h : Inv s os f (.closing o)) (hcalls : s'.calls = s.calls)
    (hrunning : s'.running = none) (htrace : s'.trace = s.trace)
    (hheap : s'.heap = (s.heap.withJobs
      [.react (.call (.resume f)) (ofOutcome o)]).settle (.queue (f + 1)) (.ok .undefined)) :
    Inv s' os (f + 1) (.between (some o) (f + 1 < s.calls.length)) := by
  have hfront : f = os.length := h.front
  have hlt : f < s.calls.length := h.present.mp rfl
  have hpending : s.heap.settled (.queue (f + 1)) = none := by
    rw [h.queue, if_neg (by omega)]
  rw [Heap.settle_withJobs _ hpending, h.behind (f + 1) (by omega)] at hheap
  constructor
  case front => simp [Phase.last, hfront]
  case running => exact hrunning
  case trace =>
    rw [htrace, h.trace]
    simp [Phase.last, Phase.begun, done_concat, hfront]
  case jobs =>
    rw [hheap]
    subst hfront
    by_cases hnext : os.length + 1 < s.calls.length <;> simp [Phase.jobs, hnext]
  case within =>
    rw [hcalls]
    exact hlt
  case present => simp [hcalls, Phase.present]
  case queue =>
    intro i
    rw [hheap]
    have hqueue := h.queue i
    by_cases hi : i = f + 1
    · subst hi
      simp
    · simp [hi, hqueue]
      have hiff : i ≤ f ↔ i ≤ f + 1 := by omega
      rw [if_congr hiff rfl rfl]
  case behind =>
    intro i hi
    have hi' : i ≠ f + 1 := by omega
    rw [hheap, hcalls]
    simpa [hi'] using h.behind i (by omega)
  case run =>
    intro i hi
    rw [hheap, hcalls]
    simpa using h.run i hi
  case handler =>
    rw [hheap]
    simpa [Phase.Handler] using h.handlers (f + 1) (by omega)
  case handlers =>
    intro i hi
    rw [hheap]
    simpa using h.handlers i (by omega)
  case request =>
    intro i
    rw [hheap, hcalls]
    simpa using h.request i
  case unwatched =>
    intro i
    rw [hheap]
    simpa using h.unwatched i

/-- A caller is answered. -/
theorem Inv.answer {released : Bool} (h : Inv s os f (.between (some o) released))
    (hcall : s.calls[os.length]? = some call) (hcalls : s'.calls = s.calls)
    (hrunning : s'.running = none) (htrace : s'.trace = s.trace)
    (hheap : s'.heap = (s.heap.withJobs
      (Phase.jobs os.length f (.between none released))).settle (.request os.length)
        (call.resume (ofOutcome o))) :
    Inv s' (os ++ [o]) f (.between none released) := by
  have hfront : f = os.length + 1 := h.front
  have hpending : s.heap.settled (.request os.length) = none := by
    rw [h.request, List.getElem?_eq_none (le_refl _)]
    rfl
  rw [Heap.settle_withJobs _ hpending, h.unwatched] at hheap
  constructor
  case front => simp [Phase.last, hfront]
  case running => exact hrunning
  case trace =>
    rw [htrace, h.trace]
    simp [Phase.last, Phase.begun]
  case jobs =>
    rw [hheap]
    simp [Phase.jobs]
  case within =>
    rw [hcalls]
    exact h.within
  case present =>
    rw [hcalls]
    exact h.present
  case queue =>
    intro i
    rw [hheap]
    simpa using h.queue i
  case behind =>
    intro i hi
    rw [hheap, hcalls]
    simpa using h.behind i hi
  case run =>
    intro i hi
    rw [hheap, hcalls]
    simpa using h.run i hi
  case handler =>
    rw [hheap]
    simpa [Phase.Handler] using h.handler
  case handlers =>
    intro i hi
    rw [hheap]
    simpa using h.handlers i hi
  case request =>
    intro i
    rw [hheap, hcalls]
    have hrequest := h.request i
    by_cases hi : i = os.length
    · subst hi
      simp [hcall]
    · simp [hi, hrequest]
      rcases Nat.lt_or_gt_of_ne hi with hlt | hgt
      · rw [List.getElem?_append_left hlt]
      · have hnone : (os ++ [o])[i]? = none := by
          rw [List.getElem?_eq_none_iff, List.length_append, List.length_singleton]
          exact hgt
        rw [hnone, List.getElem?_eq_none (Nat.le_of_lt hgt)]
  case unwatched =>
    intro i
    rw [hheap]
    have := h.unwatched i
    simp [Function.update_apply, this]

/-! ## 3. Every event -/

theorem Phase.begun_cases (phase : Phase) (f : Nat) : phase.begun f = [] ∨
    phase.begun f = [.started f] ∨ ∃ o, phase.begun f = [.started f, .ended f o] := by
  rcases phase with _ | ⟨_ | o⟩ | ⟨_ | o⟩ | _ | o | o
  · exact .inl rfl
  · exact .inr (.inl rfl)
  · exact .inr (.inr ⟨o, rfl⟩)
  · exact .inr (.inl rfl)
  · exact .inr (.inr ⟨o, rfl⟩)
  · exact .inr (.inl rfl)
  · exact .inr (.inr ⟨o, rfl⟩)
  · exact .inr (.inr ⟨o, rfl⟩)

/-- **Only the execution at the front has started and is not over**, in every state: the others
wait for its promise, or have been answered. -/
theorem Inv.active {i : Nat} (h : Inv s os f phase) (hactive : s.Active i) :
    i = f ∧ (phase = .running none ∨ phase = .returned none ∨ phase = .following) := by
  obtain ⟨hstarted, hnever⟩ := hactive
  rw [h.trace] at hstarted hnever
  have hbegun : .started i ∈ phase.begun f := by
    refine (List.mem_append.mp hstarted).resolve_left fun hmem => ?_
    have hget := List.getElem?_eq_getElem (started_mem_done.mp hmem)
    exact hnever _ (List.mem_append_left _ (ended_mem_done.mpr hget))
  have hunended : ∀ o, .ended i o ∉ phase.begun f :=
    fun o hmem => hnever o (List.mem_append_right _ hmem)
  have hif : i = f := by
    rcases phase.begun_cases f with hcase | hcase | ⟨o, hcase⟩ <;> rw [hcase] at hbegun
    · cases hbegun
    · simpa using hbegun
    · simpa using hbegun
  subst hif
  refine ⟨rfl, ?_⟩
  rcases phase with _ | ⟨_ | o⟩ | ⟨_ | o⟩ | _ | o | o
  · cases hbegun
  · exact .inl rfl
  · exact absurd (by simp [Phase.begun]) (hunended o)
  · exact .inr (.inl rfl)
  · exact absurd (by simp [Phase.begun]) (hunended o)
  · exact .inr (.inr rfl)
  · exact absurd (by simp [Phase.begun]) (hunended o)
  · exact absurd (by simp [Phase.begun]) (hunended o)

/-- `run` registers on a promise that is pending. -/
theorem Inv.follow (h : Inv s os f (.returned none)) (hidle : s.running = none) :
    Inv (State.perform { s with heap := s.heap.withJobs [] } (.adopt (.handler f) (.run f))) os f
      .following := by
  obtain ⟨hsettled, hwaiting⟩ := h.handler
  have hpending : (s.heap.withJobs []).settled (.handler f) = none := hsettled
  have hheap : (State.perform { s with heap := s.heap.withJobs [] }
      (.adopt (.handler f) (.run f))).heap = { s.heap.withJobs [] with
        waiting := Function.update s.heap.waiting (.handler f) [.forward (.run f)] } := by
    dsimp only [State.perform]
    rw [Heap.subscribe_pending hpending]
    simp [Heap.withJobs, hwaiting]
  refine h.turn rfl rfl rfl rfl ?_ ?_ hidle h.trace ?_ ?_
  · rw [hheap]
    exact fun _ _ => rfl
  · rw [hheap]
    exact fun _ hp => Function.update_of_ne hp _ _
  · rw [hheap]
    rfl
  · rw [hheap]
    exact ⟨hsettled, Function.update_self _ _ _⟩

/-- `run` registers on a promise that is settled. -/
theorem Inv.land (h : Inv s os f (.returned (some o))) (hidle : s.running = none) :
    Inv (State.perform { s with heap := s.heap.withJobs [] } (.adopt (.handler f) (.run f))) os f
      (.landing o) := by
  have hsettled : (s.heap.withJobs []).settled (.handler f) = some (ofOutcome o) := h.handler.1
  have hheap : (State.perform { s with heap := s.heap.withJobs [] }
      (.adopt (.handler f) (.run f))).heap =
        s.heap.withJobs [.react (.forward (.run f)) (ofOutcome o)] := by
    dsimp only [State.perform]
    rw [Heap.subscribe_settled hsettled]
    rfl
  refine h.turn rfl rfl rfl rfl ?_ ?_ hidle h.trace ?_ trivial
  · rw [hheap]
    exact fun _ _ => rfl
  · rw [hheap]
    exact fun _ _ => rfl
  · rw [hheap]
    rfl

/-- `run` is settled with what the promise it registered on came to. -/
theorem Inv.forward (h : Inv s os f (.landing o)) (hidle : s.running = none) :
    Inv (State.perform { s with heap := s.heap.withJobs [] }
      (.react (.forward (.run f)) (ofOutcome o))) os f (.closing o) := by
  refine h.close rfl rfl rfl rfl hidle ?_ rfl
  simp [State.perform, h.trace, Phase.begun, Phase.last]

/-- `() => undefined` releases the queue behind an execution that is over. -/
theorem Inv.discard (h : Inv s os f (.closing o)) (hidle : s.running = none) :
    Inv (State.perform
        { s with heap := s.heap.withJobs [.react (.call (.resume f)) (ofOutcome o)] }
        (.react (.call (.discard f)) (ofOutcome o))) os (f + 1) (.between (some o) (f + 1 < s.calls.length)) :=
  h.release rfl hidle rfl rfl

/-- **A job gets the execution at the front on**, or answers the caller of the one before. -/
theorem Inv.perform {j : Job Name Callback (Except JsError Value)}
    {rest : List (Job Name Callback (Except JsError Value))} (h : Inv s os f phase)
    (hidle : s.running = none) (hjobs : s.heap.jobs = j :: rest) :
    ∃ os' f' phase', Inv (State.perform { s with heap := s.heap.withJobs rest } j) os' f' phase' ∧
      10 * f + phase.rank < 10 * f' + phase'.rank := by
  have hphase := h.jobs
  rw [hjobs] at hphase
  have hhandler := h.handler
  have htrace := h.trace
  rcases phase with ⟨_ | o, released⟩ | o | ⟨_ | o⟩ | _ | o | o
  · cases released
    · cases hphase
    obtain ⟨rfl, rfl⟩ := List.cons.inj hphase
    refine ⟨os, f, .running none, h.turn rfl rfl rfl rfl (fun _ _ => rfl) (fun _ _ => rfl) rfl ?_
      rfl hhandler, Nat.lt_succ_self _⟩
    simp [State.perform, htrace, Phase.begun, Phase.last]
  · obtain ⟨rfl, rfl⟩ := List.cons.inj hphase
    have hfront : f = os.length + 1 := h.front
    have hwithin := h.within
    obtain ⟨call, hcall⟩ : ∃ call, s.calls[os.length]? = some call :=
      ⟨_, List.getElem?_eq_getElem (by omega)⟩
    refine ⟨os ++ [o], f, .between none released, h.answer hcall ?_ ?_ ?_ ?_,
      Nat.lt_succ_self _⟩ <;> simp only [State.perform, hcall]
    · exact hidle
    · rfl
  · cases h.running.symm.trans hidle
  · obtain ⟨rfl, rfl⟩ := List.cons.inj hphase
    exact ⟨os, f, .following, h.follow hidle, by simp [Phase.rank]⟩
  · obtain ⟨rfl, rfl⟩ := List.cons.inj hphase
    exact ⟨os, f, .landing o, h.land hidle, by simp [Phase.rank]⟩
  · cases hphase
  · obtain ⟨rfl, rfl⟩ := List.cons.inj hphase
    exact ⟨os, f, .closing o, h.forward hidle, Nat.lt_succ_self _⟩
  · obtain ⟨rfl, rfl⟩ := List.cons.inj hphase
    refine ⟨os, f + 1, .between (some o) (f + 1 < s.calls.length), h.discard hidle, ?_⟩
    simp [Phase.rank]
    omega

/-- Where the execution at the front is once the promise of its handler is settled. -/
def Phase.settled (o : Outcome) : Phase → Phase
  | running none => running (some o)
  | returned none => returned (some o)
  | following => landing o
  | phase => phase

/-- The promise of the handler at the front is settled. -/
theorem Inv.settles (h : Inv s os f phase)
    (hphase : phase = .running none ∨ phase = .returned none ∨ phase = .following) :
    Inv { s with
        heap := s.heap.settle (.handler f) (ofOutcome o)
        trace := s.trace ++ [.ended f o] } os f (phase.settled o) := by
  have hhandler := h.handler
  have htrace := h.trace
  have hpending : s.heap.settled (.handler f) = none := by
    rcases hphase with rfl | rfl | rfl <;> exact hhandler.1
  have hheap := Heap.settle_pending (o := ofOutcome o) hpending
  have hsettled : ∀ p, p ≠ .handler f →
      (s.heap.settle (.handler f) (ofOutcome o)).settled p = s.heap.settled p := by
    rw [hheap]
    exact fun _ hp => Function.update_of_ne hp _ _
  have hwaiting : ∀ p, p ≠ .handler f →
      (s.heap.settle (.handler f) (ofOutcome o)).waiting p = s.heap.waiting p := by
    rw [hheap]
    exact fun _ hp => Function.update_of_ne hp _ _
  have hself : (s.heap.settle (.handler f) (ofOutcome o)).settled (.handler f) =
      some (ofOutcome o) ∧
        (s.heap.settle (.handler f) (ofOutcome o)).waiting (.handler f) = [] := by
    rw [hheap]
    exact ⟨Function.update_self _ _ _, Function.update_self _ _ _⟩
  have hjobs : (s.heap.settle (.handler f) (ofOutcome o)).jobs = s.heap.jobs ++
      (s.heap.waiting (.handler f)).map fun r => .react r (ofOutcome o) := by
    rw [hheap]
  rcases hphase with rfl | rfl | rfl
  · refine h.turn rfl rfl rfl rfl hsettled hwaiting h.running ?_ ?_ hself
    · simp [htrace, Phase.settled, Phase.begun, Phase.last]
    · rw [hjobs, h.jobs, hhandler.2]
      rfl
  · refine h.turn rfl rfl rfl rfl hsettled hwaiting h.running ?_ ?_ hself
    · simp [htrace, Phase.settled, Phase.begun, Phase.last]
    · rw [hjobs, h.jobs, hhandler.2]
      rfl
  · refine h.turn rfl rfl rfl rfl hsettled hwaiting h.running ?_ ?_ trivial
    · simp [htrace, Phase.settled, Phase.begun, Phase.last]
    · rw [hjobs, h.jobs, hhandler.2]
      rfl

theorem Inv.phase_of_running {i : Nat} (h : Inv s os f phase) (hrunning : s.running = some i) :
    ∃ o, phase = .running o := by
  have hruns : phase.runs f = some i := h.running.symm.trans hrunning
  cases phase with
  | running o => exact ⟨o, rfl⟩
  | _ => cases hruns

/-- The handler returns, or throws. -/
theorem Inv.returnsNow (h : Inv s os f (.running none)) :
    Inv { s with
      heap := s.heap.settle (.run f) (ofOutcome o)
      running := none
      trace := s.trace ++ [.ended f o] } os f (.closing o) := by
  refine h.close rfl rfl rfl rfl rfl ?_ ?_
  · simp [h.trace, Phase.begun, Phase.last]
  · have hjobs : s.heap.jobs = [] := h.jobs
    rw [← hjobs]
    rfl

/-- The handler returns a promise. -/
theorem Inv.returnsPromise {o : Option Outcome} (h : Inv s os f (.running o)) :
    Inv { s with
      heap := s.heap.resolve (.handler f) (.run f)
      running := none } os f (.returned o) := by
  refine h.turn rfl rfl rfl rfl (fun _ _ => rfl) (fun _ _ => rfl) rfl h.trace ?_ h.handler
  rw [Heap.resolve, h.jobs]
  rfl

variable {engine : Engine} {framework : Framework H} {e : Event}

/-- **Every event keeps one execution at the front**, and every event but a request gets it on. -/
theorem Inv.step (h : Inv s os f phase) (hst : Step engine framework s e s') :
    ∃ os' f' phase', Inv s' os' f' phase' ∧
      10 * f + phase.rank + e.isMove.toNat ≤ 10 * f' + phase'.rank := by
  cases hst with
  | answered => exact ⟨os, f, phase, h, Nat.le_refl _⟩
  | queued =>
    cases hpresent : phase.present with
    | true => exact ⟨os, f, phase, h.serialize_behind hpresent, Nat.le_refl _⟩
    | false =>
      rcases phase with ⟨last, _ | _⟩ | o | o | _ | o | o
      · refine ⟨os, f, .between last true, h.serialize_released, ?_⟩
        cases last <;> exact Nat.le_refl _
      all_goals cases hpresent
  | job hidle hjobs => exact h.perform hidle hjobs
  | returnsNow hrunning hactive hfits =>
    obtain ⟨rfl, rfl | rfl | rfl⟩ := h.active hactive
    · exact ⟨os, _, _, h.returnsNow, by simp [Phase.rank, Event.isMove]⟩
    · cases h.running.symm.trans hrunning
    · cases h.running.symm.trans hrunning
  | returnsPromise hrunning =>
    obtain ⟨o, rfl⟩ := h.phase_of_running hrunning
    obtain rfl : f = _ := Option.some.inj (h.running.symm.trans hrunning)
    refine ⟨os, _, _, h.returnsPromise, ?_⟩
    cases o <;> simp [Phase.rank, Event.isMove]
  | settles hactive hfits =>
    obtain ⟨rfl, hphase⟩ := h.active hactive
    refine ⟨os, _, _, h.settles hphase, Nat.add_lt_add_left ?_ _⟩
    rcases hphase with rfl | rfl | rfl <;> exact Nat.lt_succ_self _

/-! ## 4. Runs -/

variable {es : List Event}

theorem Inv.runs (hrun : Run engine framework s es s') (h : Inv s os f phase) :
    ∃ os' f' phase', Inv s' os' f' phase' ∧
      10 * f + phase.rank + es.countP Event.isMove ≤ 10 * f' + phase'.rank := by
  induction hrun generalizing os f phase with
  | nil => exact ⟨os, f, phase, h, Nat.le_refl _⟩
  | @cons s s' s'' e es hst _ ih =>
    obtain ⟨os', f', phase', hinv, hrank⟩ := h.step hst
    obtain ⟨os'', f'', phase'', hinv', hrank'⟩ := ih hinv
    refine ⟨os'', f'', phase'', hinv', ?_⟩
    have hcount : (e :: es).countP Event.isMove = es.countP Event.isMove + e.isMove.toNat := by
      rw [List.countP_cons]
      cases e.isMove <;> rfl
    omega

theorem perform_calls (j : Job Name Callback (Except JsError Value)) :
    (s.perform j).calls = s.calls := by
  unfold State.perform
  split
  case h_3 => split <;> rfl
  all_goals rfl

theorem perform_trace (j : Job Name Callback (Except JsError Value)) :
    s.trace <+: (s.perform j).trace := by
  unfold State.perform
  split
  case h_1 => exact List.prefix_append _ _
  case h_3 => split <;> exact List.prefix_rfl
  all_goals exact List.prefix_rfl

/-- What has been called and what has happened stays so. -/
theorem Step.grows (hst : Step engine framework s e s') :
    s.calls <+: s'.calls ∧ s.trace <+: s'.trace := by
  cases hst with
  | answered => exact ⟨List.prefix_rfl, List.prefix_rfl⟩
  | queued => exact ⟨List.prefix_append _ _, List.prefix_rfl⟩
  | @job j jobs =>
    have htrace := perform_trace (s := { s with heap := s.heap.withJobs jobs }) j
    rw [perform_calls]
    exact ⟨List.prefix_rfl, htrace⟩
  | returnsNow => exact ⟨List.prefix_rfl, List.prefix_append _ _⟩
  | returnsPromise => exact ⟨List.prefix_rfl, List.prefix_rfl⟩
  | settles => exact ⟨List.prefix_rfl, List.prefix_append _ _⟩

theorem Run.grows (hrun : Run engine framework s es s') :
    s.calls <+: s'.calls ∧ s.trace <+: s'.trace := by
  induction hrun with
  | nil => exact ⟨List.prefix_rfl, List.prefix_rfl⟩
  | cons hst _ ih => exact ⟨hst.grows.1.trans ih.1, hst.grows.2.trans ih.2⟩

theorem Run.call_eq (hrun : Run engine framework s es s') {i : Nat} {call call' : Call H}
    (h : s.calls[i]? = some call) (h' : s'.calls[i]? = some call') : call = call' := by
  obtain ⟨later, hlater⟩ := hrun.grows.1
  rw [← hlater, List.getElem?_append_left (List.getElem?_eq_some_iff.mp h).1] at h'
  exact Option.some.inj (h.symm.trans h')

/-! ## 5. What the front says -/

theorem Inv.inOrder (h : Inv s os f phase) :
    ∃ os, s.trace = done os ∨ s.trace = done os ++ [.started os.length] := by
  have htrace := h.trace
  obtain rfl : f = (os ++ phase.last.toList).length := h.front.trans List.length_append.symm
  rcases phase.begun_cases _ with hbegun | hbegun | ⟨o, hbegun⟩ <;> rw [hbegun] at htrace
  · exact ⟨_, .inl (htrace.trans (List.append_nil _))⟩
  · exact ⟨_, .inr htrace⟩
  · exact ⟨_, .inl (htrace.trans (done_concat _ o).symm)⟩

/-- An execution is over once. -/
theorem Inv.ended_unique (h : Inv s os f phase) {i : Nat} {o o' : Outcome}
    (ho : .ended i o ∈ s.trace) (ho' : .ended i o' ∈ s.trace) : o = o' := by
  obtain ⟨outcomes, htrace⟩ := h.inOrder
  have hget : ∀ o, .ended i o ∈ s.trace → outcomes[i]? = some o := by
    intro o hmem
    rcases htrace with htrace | htrace <;> rw [htrace] at hmem
    · exact ended_mem_done.mp hmem
    · exact ended_mem_done.mp ((List.mem_append.mp hmem).resolve_right (by simp))
  exact Option.some.inj ((hget o ho).symm.trans (hget o' ho'))

/-- An answer is what follows from the outcome of an execution. -/
theorem Inv.received_eq (h : Inv s os f phase) {i : Nat} {x : Except JsError Value}
    (hx : s.received i = some x) :
    ∃ o call, .ended i o ∈ s.trace ∧ s.calls[i]? = some call ∧ x = call.resume (ofOutcome o) := by
  rw [State.received, h.request, Option.bind_eq_some_iff] at hx
  obtain ⟨o, ho, hx⟩ := hx
  obtain ⟨call, hcall, rfl⟩ := Option.map_eq_some_iff.mp hx
  have hended : .ended i o ∈ done (os ++ phase.last.toList) :=
    ended_mem_done.mpr (List.getElem?_append_left (List.getElem?_eq_some_iff.mp ho).1 ▸ ho)
  exact ⟨o, call, h.trace ▸ List.mem_append_left _ hended, hcall, rfl⟩

/-- The requests that are answered. -/
theorem Inv.received_of_lt (h : Inv s os f phase) {i : Nat} (hi : i < os.length) :
    ∃ x, s.received i = some x := by
  rw [State.received, h.request, List.getElem?_eq_getElem hi,
    List.getElem?_eq_getElem (h.within_of_lt hi)]
  exact ⟨_, rfl⟩

theorem Phase.rank_le (phase : Phase) : phase.rank ≤ 8 ∧
    phase.rank + 8 * phase.last.toList.length ≤ 8 := by
  rcases phase with ⟨_ | _, _⟩ | ⟨_ | _⟩ | ⟨_ | _⟩ | _ | _ | _ <;> simp [Phase.rank, Phase.last]

/-- Far enough on, a request is answered. -/
theorem Inv.answered_of_rank (h : Inv s os f phase) {i : Nat}
    (hrank : 10 * i + 10 < 10 * f + phase.rank) : i < os.length := by
  have hfront := h.front
  have hle := phase.rank_le
  omega

theorem Inv.front_active (h : Inv s os f phase) (hlast : phase.last = none)
    (hbegun : phase.begun f = [.started f]) : s.Active f := by
  have hfront : f = os.length := by simpa [hlast] using h.front
  have htrace : s.trace = done os ++ [.started f] := by simpa [hlast, hbegun] using h.trace
  rw [State.Active, htrace]
  refine ⟨by simp, fun o hmem => ?_⟩
  have hdone : .ended f o ∈ done os := (List.mem_append.mp hmem).resolve_right (by simp)
  rw [ended_mem_done, hfront, List.getElem?_eq_none (le_refl _)] at hdone
  cases hdone

/-- **Nothing stands still before everyone is answered**: as long as one call is without its
answer there is a move the machine can make, with no help from outside. -/
theorem Inv.moves (engine : Engine) (framework : Framework H) (h : Inv s os f phase) {i : Nat}
    (hi : i < s.calls.length) (hnone : s.received i = none) :
    ∃ e s', e.isMove = true ∧ Step engine framework s e s' := by
  have hrunning := h.running
  have hjobs := h.jobs
  rcases phase with ⟨_ | o, _ | _⟩ | o | o | _ | o | o
  · have hfront : f = os.length := h.front
    have hpresent := h.present
    have hlt : ¬f < s.calls.length := fun hlt => Bool.false_ne_true (hpresent.mpr hlt)
    obtain ⟨x, hx⟩ := h.received_of_lt (i := i) (by omega)
    cases hx.symm.trans hnone
  · exact ⟨_, _, rfl, .job hrunning hjobs⟩
  · exact ⟨_, _, rfl, .job hrunning hjobs⟩
  · exact ⟨_, _, rfl, .job hrunning hjobs⟩
  · exact ⟨_, _, rfl, .returnsPromise hrunning⟩
  · exact ⟨_, _, rfl, .job hrunning hjobs⟩
  · exact ⟨_, _, rfl, .settles (o := .error (.error [])) (h.front_active rfl rfl) rfl⟩
  · exact ⟨_, _, rfl, .job hrunning hjobs⟩
  · exact ⟨_, _, rfl, .job hrunning hjobs⟩

/-- Every caller can be answered. -/
theorem Inv.answerable (engine : Engine) (framework : Framework H) {i : Nat} :
    ∀ (n : Nat) {s : State H} {os : List Outcome} {f : Nat} {phase : Phase}, Inv s os f phase →
      i < s.calls.length → 10 * i + 11 ≤ 10 * f + phase.rank + n →
      ∃ es s', Run engine framework s es s' ∧ ∃ x, s'.received i = some x := by
  intro n
  induction n with
  | zero =>
    intro s os f phase h _ hrank
    exact ⟨[], s, .nil s, h.received_of_lt (h.answered_of_rank hrank)⟩
  | succ n ih =>
    intro s os f phase h hi hrank
    cases hx : s.received i with
    | some x => exact ⟨[], s, .nil s, x, hx⟩
    | none =>
      obtain ⟨e, s', hmove, hst⟩ := h.moves engine framework hi hx
      obtain ⟨os', f', phase', h', hrank'⟩ := h.step hst
      rw [hmove, Bool.toNat_true] at hrank'
      obtain ⟨es, s'', hrun, hanswered⟩ :=
        ih h' (Nat.lt_of_lt_of_le hi hst.grows.1.length_le) (by omega)
      exact ⟨e :: es, s'', .cons hst hrun, hanswered⟩

/-! ## 6. The result -/

theorem resume_ofOutcome (call : Call H) (o : Outcome) :
    call.resume (ofOutcome o) = (call.answer o).map .response := by
  cases o <;> rfl

/-- A caller receives what comes of its execution unless the line on the console throws. -/
theorem received_iff (call : Call H) (o : Outcome) :
    call.resume (ofOutcome o) = call.received o ↔ ∀ r, o = .ok r → call.line = .ok () := by
  cases o with
  | error e => exact iff_of_true rfl fun r h => nomatch h
  | ok r =>
    rw [resume_ofOutcome, Call.answer, Call.received]
    cases hline : call.line with
    | error e => exact iff_of_false nofun fun h => nomatch h r rfl
    | ok u => exact iff_of_true rfl fun _ _ => rfl

theorem Inv.serialized (h : Inv s os f phase) (hprinted : Printed s) :
    Serialized engine framework s where
  inOrder := h.inOrder
  executed i x hx := by
    obtain ⟨o, call, hended, -⟩ := h.received_eq hx
    exact ⟨o, hended⟩
  own i call o es s' x hcall hended hrun hx := by
    obtain ⟨os', f', phase', h', -⟩ := h.runs hrun
    obtain ⟨o', call', hended', hcall', rfl⟩ := h'.received_eq hx
    obtain rfl := h'.ended_unique hended' (hrun.grows.2.subset hended)
    obtain rfl := hrun.call_eq hcall hcall'
    exact (received_iff call o').mpr fun r hr => hprinted i call r hcall (hr ▸ hended)
  live i hi hnone := h.moves engine framework hi hnone
  bounded i hi := by
    refine ⟨10 * i + 10, fun es s' hrun hbound => ?_⟩
    obtain ⟨os', f', phase', h', hrank⟩ := h.runs hrun
    obtain ⟨x, hx⟩ := h'.received_of_lt (h'.answered_of_rank (i := i) (by omega))
    obtain ⟨o, call, hended, -⟩ := h'.received_eq hx
    exact ⟨⟨o, hended⟩, Option.isSome_iff_exists.mpr ⟨x, hx⟩⟩

theorem Inv.printed (h : Inv s os f phase) (hserialized : Serialized engine framework s) :
    Printed s := by
  intro i call r hcall hended
  obtain ⟨es, s', hrun, x, hx⟩ := h.answerable engine framework (10 * i + 11)
    (List.getElem?_eq_some_iff.mp hcall).1 (Nat.le_add_left _ _)
  obtain ⟨os', f', phase', h', -⟩ := h.runs hrun
  obtain ⟨o, call', hended', hcall', rfl⟩ := h'.received_eq hx
  obtain rfl := hrun.call_eq hcall hcall'
  obtain rfl := h'.ended_unique hended' (hrun.grows.2.subset hended)
  have hown := hserialized.own i call _ es s' _ hcall hended hrun hx
  exact (received_iff call _).mp hown r rfl

/-- A request whose execution returns at once, from its call to its answer. -/
theorem run_alone {method path body : Str}
    (henter : enter engine framework method path body = .queued call)
    (hfits : ∀ r, o = .ok r → call.fits r = true) :
    ∃ s, Run engine framework .initial
        [.request method path body, .job, .returns (.now o), .job, .job] s ∧
      s.calls = [call] ∧ s.trace = [.started 0, .ended 0 o] ∧
      s.received 0 = some (call.resume (ofOutcome o)) := by
  refine ⟨_, .cons (.queued henter) (.cons (.job rfl rfl) (.cons (.returnsNow rfl ?_ ?_)
    (.cons (.job rfl rfl) (.cons (.job rfl rfl) (.nil _))))), rfl, rfl, rfl⟩
  · refine ⟨List.mem_singleton_self _, fun o h => ?_⟩
    rcases List.mem_singleton.mp h with ⟨⟩
  · cases o with
    | error e => rfl
    | ok r => exact hfits r rfl

/-- **The extension server serializes, except for what the console makes of an id.**  After any
events, executions have not overlapped and have started in the order of the calls, each caller
receives what comes of its own execution, and every request is executed and answered, exactly if
the ids of the actions that were executed without a rejection can be printed. -/
theorem serialized_iff (hrun : Run engine framework .initial es s) :
    Serialized engine framework s ↔ Printed s := by
  obtain ⟨os, f, phase, h, -⟩ := inv_initial.runs hrun
  exact ⟨h.printed, h.serialized⟩

/-! ## 7. Three requests in progress together -/

theorem Run.append (hrun : Run engine framework s es s') {es' : List Event} {s'' : State H}
    (hrest : Run engine framework s' es' s'') : Run engine framework s (es ++ es') s'' := by
  induction hrun with
  | nil => exact hrest
  | cons hst _ ih => exact .cons hst (ih hrest)

section Course

variable (engine : Engine) (framework : Framework H)

/-- The turn of an execution has come. -/
theorem Inv.starts (h : Inv s os f (.between none true)) : ∃ s',
    Run engine framework s [.job] s' ∧ s'.calls = s.calls ∧ Inv s' os f (.running none) := by
  refine ⟨_, .cons (.job h.running h.jobs) (.nil _), rfl,
    h.turn rfl rfl rfl rfl (fun _ _ => rfl) (fun _ _ => rfl) rfl ?_ rfl h.handler⟩
  simp [State.perform, h.trace, Phase.begun, Phase.last]

/-- What follows when an execution is over. -/
theorem Inv.finishes (h : Inv s os f (.closing o)) : ∃ s',
    Run engine framework s [.job, .job] s' ∧ s'.calls = s.calls ∧
      Inv s' (os ++ [o]) (f + 1) (.between none (f + 1 < s.calls.length)) := by
  have hfront : f = os.length := h.front
  have hlt : f < s.calls.length := h.present.mp rfl
  obtain ⟨call, hcall⟩ : ∃ call, s.calls[os.length]? = some call :=
    ⟨_, List.getElem?_eq_getElem (hfront ▸ hlt)⟩
  have hjob : Step engine framework s .job _ := .job h.running h.jobs
  have hnext := h.discard h.running
  have hjob' : Step engine framework _ .job _ := .job hnext.running hnext.jobs
  refine ⟨_, .cons hjob (.cons hjob' (.nil _)), perform_calls _, hnext.answer hcall
    (perform_calls _) ?_ ?_ ?_⟩ <;> simp only [State.perform, hcall]
  · exact h.running
  · rfl

/-- An execution returns at once, or throws. -/
theorem Inv.returns_now (h : Inv s os f (.running none)) (hfits : s.fits f o = true) : ∃ s',
    Run engine framework s [.returns (.now o), .job, .job] s' ∧ s'.calls = s.calls ∧
      Inv s' (os ++ [o]) (f + 1) (.between none (f + 1 < s.calls.length)) := by
  obtain ⟨s', hrun, hcalls, hinv⟩ := (h.returnsNow (o := o)).finishes engine framework
  exact ⟨s', .cons (.returnsNow h.running (h.front_active rfl rfl) hfits) hrun, hcalls, hinv⟩

/-- An execution returns a promise, which settles later. -/
theorem Inv.returns_later (h : Inv s os f (.running none)) (hfits : s.fits f o = true) : ∃ s',
    Run engine framework s [.returns .promise, .job, .settles f o, .job, .job, .job] s' ∧
      s'.calls = s.calls ∧
      Inv s' (os ++ [o]) (f + 1) (.between none (f + 1 < s.calls.length)) := by
  have hreturned := h.returnsPromise
  have hfollowing := hreturned.follow rfl
  have hlanding := hfollowing.settles (o := o) (.inr (.inr rfl))
  obtain ⟨s', hrun, hcalls, hinv⟩ := (hlanding.forward rfl).finishes engine framework
  exact ⟨s', .cons (.returnsPromise h.running) (.cons (.job rfl hreturned.jobs)
    (.cons (.settles (hfollowing.front_active rfl rfl) hfits)
      (.cons (.job rfl hlanding.jobs) hrun))), hcalls, hinv⟩

/-- A request whose turn has not come. -/
theorem Inv.queued (h : Inv s os f phase) (hpresent : phase.present = true)
    {method path body : Str} (henter : enter engine framework method path body = .queued call) :
    ∃ s', Run engine framework s [.request method path body] s' ∧ s'.calls = s.calls ++ [call] ∧
      Inv s' os f phase :=
  ⟨_, .cons (.queued henter) (.nil _), rfl, h.serialize_behind hpresent⟩

end Course

namespace SampleCourse

/-- A STATUS of a wallet. -/
def statusBody : Str :=
  "\x7b\"data\":\x7b\"id\":\"0x01\",\"submissionTag\":\"submit\",\"message\":\"".toList ++
    textToHex ("\x7b\"opType\":\"".toList ++ stringToBytes32Hex OP_TYPE_LATCH ++
      "\",\"opCommand\":\"".toList ++ stringToBytes32Hex Command.status.name ++ "\"\x7d".toList) ++
    "\"\x7d\x7d".toList

def post : Event := .request "POST".toList "/action".toList statusBody

def get : Event := .request "GET".toList "/state".toList []

/-- The handler of the first STATUS returns a promise.  While it is pending the state is read and
a second STATUS comes in, whose handler throws. -/
def overlapping : List Event :=
  [post] ++ [.job] ++ [get] ++ [post] ++
    [.returns .promise, .job, .settles 0 (.ok (.triple none 1 none)), .job, .job, .job] ++ [.job] ++
    [.returns (.now (.ok (.value .null))), .job, .job] ++ [.job] ++
    [.returns (.now (.error (.error ['!']))), .job, .job]

/-- A request whose execution is queued, and whose id can be printed. -/
def printable : Entry H → Bool
  | .queued call => call.line.toOption.isSome
  | .answered _ => false

theorem status_queued : ∃ call, enter Sample.options.engine ⟨handlers⟩ "POST".toList "/action".toList
    statusBody = .queued call ∧ call.line = .ok () := by
  have hqueued : printable (enter Sample.options.engine ⟨handlers⟩ "POST".toList "/action".toList
      statusBody) = true := by decide +kernel
  generalize enter Sample.options.engine ⟨handlers⟩ "POST".toList "/action".toList statusBody =
    entry at hqueued
  rcases entry with a | call
  · cases hqueued
  · refine ⟨call, rfl, ?_⟩
    change call.line.toOption.isSome = true at hqueued
    cases hline : call.line with
    | ok u => rfl
    | error e =>
      rw [hline] at hqueued
      cases hqueued

end SampleCourse

open SampleCourse in
/-- **Three requests in progress together.**  They have been executed one after the other, in the
order of the calls; the first two callers have the responses to what their own handlers returned,
and the third the error that its own has thrown. -/
theorem serialized_iff_overlapping : ∃ call s,
    enter Sample.options.engine ⟨handlers⟩ "POST".toList "/action".toList statusBody = .queued call ∧
    Run Sample.options.engine ⟨handlers⟩ .initial overlapping s ∧
    s.trace = done [.ok (.triple none 1 none), .ok (.value .null), .error (.error ['!'])] ∧
    s.received 0 = some (.ok (.response (call.response (.triple none 1 none)))) ∧
    s.received 1 = some (.ok (.response (.state (stringToBytes32Hex VERSION) (.value .null)))) ∧
    s.received 2 = some (.error (.error ['!'])) ∧
    Serialized Sample.options.engine ⟨handlers⟩ s := by
  obtain ⟨call, henter, hline⟩ := status_queued
  have hstate : enter Sample.options.engine ⟨handlers⟩ "GET".toList "/state".toList [] =
      .queued .state := by rfl
  have hinitial : Inv ((.initial : State Command).serialize call) [] 0 (.between none true) :=
    inv_initial.serialize_released
  have hpost : Run Sample.options.engine ⟨handlers⟩ .initial [post]
      ((.initial : State Command).serialize call) := .cons (.queued henter) (.nil _)
  obtain ⟨s₁, hrun₁, hcalls₁, h₁⟩ := hinitial.starts Sample.options.engine ⟨handlers⟩
  obtain ⟨s₂, hrun₂, hcalls₂, h₂⟩ := h₁.queued _ _ rfl hstate
  obtain ⟨s₃, hrun₃, hcalls₃, h₃⟩ := h₂.queued _ _ rfl henter
  have hcalls : s₃.calls = [call, .state, call] := by
    rw [hcalls₃, hcalls₂, hcalls₁]
    rfl
  obtain ⟨s₄, hrun₄, hcalls₄, h₄⟩ := h₃.returns_later _ _ (o := .ok (.triple none 1 none)) (by
    rw [State.fits, hcalls]
    cases call <;> rfl)
  rw [hcalls] at hcalls₄ h₄
  obtain ⟨s₅, hrun₅, hcalls₅, h₅⟩ := h₄.starts Sample.options.engine ⟨handlers⟩
  rw [hcalls₄] at hcalls₅
  obtain ⟨s₆, hrun₆, hcalls₆, h₆⟩ := h₅.returns_now _ _ (o := .ok (.value .null)) (by
    rw [State.fits, hcalls₅]
    rfl)
  rw [hcalls₅] at hcalls₆ h₆
  obtain ⟨s₇, hrun₇, hcalls₇, h₇⟩ := h₆.starts Sample.options.engine ⟨handlers⟩
  rw [hcalls₆] at hcalls₇
  obtain ⟨s₈, hrun₈, hcalls₈, h₈⟩ := h₇.returns_now _ _ (o := .error (.error ['!'])) rfl
  rw [hcalls₇] at hcalls₈
  have hrun : Run Sample.options.engine ⟨handlers⟩ .initial overlapping s₈ :=
    (((((((hpost.append hrun₁).append hrun₂).append hrun₃).append hrun₄).append hrun₅).append
      hrun₆).append hrun₇).append hrun₈
  have htrace : s₈.trace = done [.ok (.triple none 1 none), .ok (.value .null),
      .error (.error ['!'])] := by
    simpa [Phase.last, Phase.begun] using h₈.trace
  have hreceived := h₈.request
  simp only [hcalls₈] at hreceived
  have hfirst : s₈.received 0 = some (call.received (.ok (.triple none 1 none))) := by
    rw [← (received_iff call _).mpr fun _ _ => hline]
    exact hreceived 0
  refine ⟨call, s₈, henter, hrun, htrace, hfirst, hreceived 1, hreceived 2,
    (serialized_iff hrun).mpr fun i call' r hcall' hended => ?_⟩
  -- the third execution has not come to a result, and the others print
  rw [hcalls₈] at hcall'
  rw [htrace, ended_mem_done] at hended
  rcases i with _ | _ | _ | i
  · cases hcall'
    exact hline
  · cases hcall'
    rfl
  · cases hended
  · cases hended

/-! ## 8. An id that cannot be printed -/

/-- A STATUS whose id is `{"toString":0}`. -/
def oddBody : Str :=
  "\x7b\"data\":\x7b\"id\":\x7b\"toString\":0\x7d,\"submissionTag\":\"submit\",".toList ++
    "\"message\":\"".toList ++ textToHex ("\x7b\"opType\":\"".toList ++
      stringToBytes32Hex OP_TYPE_LATCH ++ "\",\"opCommand\":\"".toList ++
      stringToBytes32Hex Command.status.name ++ "\"\x7d".toList) ++ "\"\x7d\x7d".toList

def Entry.unprinted : Entry H → Bool
  | .queued call => call.line.toOption.isNone
  | .answered _ => false

/-- **The handler succeeds, and its caller's promise rejects**: the id in the body is no text, and
the line that is logged about the result throws. -/
theorem serialize_odd_id : ∃ s e, Run Sample.options.engine ⟨handlers⟩ .initial
      [.request "POST".toList "/action".toList oddBody, .job,
        .returns (.now (.ok (.triple none 1 none))), .job, .job] s ∧
    s.received 0 = some (.error e) ∧ ¬Serialized Sample.options.engine ⟨handlers⟩ s := by
  have hodd : (enter Sample.options.engine ⟨handlers⟩ "POST".toList "/action".toList
      oddBody).unprinted = true := by decide +kernel
  generalize henter : enter Sample.options.engine ⟨handlers⟩ "POST".toList "/action".toList
    oddBody = entry at hodd
  rcases entry with a | call
  · cases hodd
  · obtain ⟨s, hrun, hcalls, htrace, hreceived⟩ := run_alone henter
      (o := .ok (.triple none 1 none)) fun r h => by cases h; cases call <;> rfl
    cases hline : call.line with
    | ok u =>
      rw [Entry.unprinted, hline] at hodd
      cases hodd
    | error e =>
      obtain ⟨os, f, phase, h, -⟩ := inv_initial.runs hrun
      rw [resume_ofOutcome, Call.answer, hline] at hreceived
      have hcall : s.calls[0]? = some call := by rw [hcalls, List.getElem?_cons_zero]
      have hended : .ended 0 (.ok (.triple none 1 none)) ∈ s.trace := by
        rw [htrace]
        exact List.mem_cons_of_mem _ (List.mem_singleton_self _)
      refine ⟨s, e, hrun, hreceived, fun hserialized => ?_⟩
      have hprinted := h.printed hserialized 0 call _ hcall hended
      rw [hline] at hprinted
      cases hprinted

end Serialize

end OneSig.Latch
