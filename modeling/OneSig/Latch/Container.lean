/-
# `main.ts` and the driver

Two processes serve the same handlers.  `Latch` of the executor starts a tick every few seconds
and on demand; `main.ts`, which is what the container runs, starts the server and nothing else.
So the container is the same machine without its ticks, and an intent that is armed there stays
armed.

The comment in the executor says that it runs the same code path as the registered container.
That is read here as: to the same requests at the same times, the container gives the same
replies.  `Drives` and `Serves` are what can happen to the two processes, and a reply is what a
command or `GET /state` answers (`replies`), with its request.

* `Calm` is a step that lets no intent fire or expire.  A tick that goes on calmly leaves the
  memory as it is (`stands_resume`), so the container need do nothing meanwhile.
* A step of the driver is followed by the container: by the same event, if it comes from outside,
  and by none, if it is a tick's.  `Follows` is the simulation relation, equal memories and equal
  replies.
* In no run of the container does anything fire or expire (`unfired_run`), with `Waiting` as the
  invariant, that intents are armed or cancelled.

`container_follows_driver` is both together: while no tick fires or expires an intent the
container replies as the driver does, and it never gets any further.  The example is the shortest
run in which they part: an intent is armed, its time comes, a tick fires it and COLLECT releases
its bytes, which no run of the container does.
-/
import OneSig.Latch.Seal
import OneSig.Latch.Steps

namespace OneSig.Latch

open Async (Run Task Prog)

variable {o : Options}

namespace Container

/-! ## 1. The two processes -/

/-- What can happen to `Latch`: its timer, or a demo, calls `tick` with the time. -/
def Drives (e : Event o) (s : Sys o) : Prop :=
  ∀ l : Label, e = .spawn l → l = .tick s.mem.now

instance (e : Event o) (s : Sys o) : Decidable (Drives e s) :=
  match e with
  | .spawn (l : Label) => decidable_of_iff (l = .tick s.mem.now)
      ⟨fun h _ he => by cases he; exact h, fun h => h l rfl⟩
  | .perform _ _ => .isTrue fun _ => nofun
  | .disturb _ => .isTrue fun _ => nofun
  | .resume _ => .isTrue fun _ => nofun
  | .outside _ => .isTrue fun _ => nofun
  | .crash => .isTrue fun _ => nofun

/-- What can happen to `main.ts`: nothing calls `tick`. -/
def Serves (e : Event o) (_ : Sys o) : Prop := ∀ l : Label, e ≠ .spawn l

/-- A reply to a command or to `GET /state`. -/
def isReply : Seen → Bool
  | .reply _ _ _ => true
  | .report _ => true
  | .reading _ _ _ => false

/-- The replies, newest first, with their requests. -/
def replies (seen : List Seen) : List Seen := seen.filter isReply

/-- The tick has come to an armed intent past its deadline. -/
def Due (m : Memory) (t : Task (machine o)) : Prop :=
  ∃ r place now intent, t = Task.start (M := machine o) (Label.visit r place now) ∧
    m.heap[r]? = some intent ∧ intent.state = .armed ∧ intent.deadline ≤ now

/-- The tick has heard that a trigger is met. -/
def Met (t : Task (machine o)) : Prop := ∃ r place now trigger, t = answered o r place now trigger true

/-- The step lets no intent fire or expire. -/
def Calm (e : Event o) (s : Sys o) : Prop :=
  ∀ i t, e = .resume i → s.tasks[i]? = some t → ¬Due s.mem t ∧ ¬Met t

/-! ## 2. A tick that finds nothing to do -/

/-- **A task that finds nothing to do leaves the memory as it is**, and stands at its next wait:
the intent it has come to is not due, and it has not heard that a trigger is met. -/
theorem stands_resume {t : Task (machine o)} (h : Stands t) {m : Memory} (hdue : ¬Due m t)
    (hmet : ¬Met t) : (t.prog.advance m).1 = m ∧ Stands (Task.next t.label (t.prog.advance m).2) := by
  cases h with
  | finished h =>
    obtain ⟨hadv, hnext⟩ := Task.advance_of_done h m
    rw [hadv, hnext]
    exact ⟨rfl, .finished h⟩
  | start l =>
    cases l with
    | tick now => exact ⟨rfl, .start _⟩
    | next place now =>
      change ((code (.next place now)).advance m).1 = m ∧ Stands (Task.next (M := machine o)
        (Label.next place now) ((code (.next place now)).advance m).2)
      rw [advance_next]
      cases m.intents.entries[place]? with
      | none => exact ⟨rfl, .finished rfl⟩
      | some entry =>
        cases entry with
        | none => exact ⟨rfl, .start _⟩
        | some p => exact ⟨rfl, .start _⟩
    | visit r place now =>
      change ((code (.visit r place now)).advance m).1 = m ∧ Stands (Task.next (M := machine o)
        (Label.visit r place now) ((code (.visit r place now)).advance m).2)
      rw [advance_visit]
      cases hr : m.heap[r]? with
      | none => exact ⟨rfl, .start _⟩
      | some intent =>
        dsimp only
        unfold evaluate
        split_ifs with hstate hpast
        · exact ⟨rfl, .start _⟩
        · exact absurd ⟨r, place, now, intent, rfl, hr, not_not.mp hstate, hpast⟩ hdue
        · rw [check_bind]
          exact ⟨rfl, .checking r place now intent.trigger⟩
  | checking r place now trigger => exact ⟨rfl, .checking r place now trigger⟩
  | answered r place now trigger fired =>
    cases fired with
    | false => exact ⟨rfl, .start _⟩
    | true => exact absurd ⟨r, place, now, trigger, rfl⟩ hmet

/-! ## 3. The container follows a calm driver -/

/-- The container has replied as the driver, and its memory is the same. -/
structure Follows (s s' : Sys o) : Prop where
  mem : s'.mem = s.mem
  replies : Container.replies s'.seen = Container.replies s.seen
  stands : ∀ t ∈ s.tasks, Stands t

/-- **A step of the driver, and what the container does meanwhile**: the same, if it comes from
outside, and nothing, if it is a tick's. -/
theorem Follows.step {s s' s₁ : Sys o} (h : Follows s s') {e : Event o} (hdrives : Drives e s)
    (hcalm : Calm e s) (hstep : s.step e = some s₁) :
    ∃ s₁', Run Serves s' s₁' ∧ Follows s₁ s₁' := by
  cases e with
  | spawn l =>
    cases hstep
    refine ⟨s', .refl _, h.mem, h.replies, fun t ht => ?_⟩
    rw [List.mem_append, List.mem_singleton] at ht
    rcases ht with ht | rfl
    · exact h.stands t ht
    · exact .start l
  | perform i c =>
    simp only [Async.Sys.step] at hstep
    split at hstep
    case h_2 => cases hstep
    case h_1 l op k ht =>
      obtain ⟨⟨res, w⟩, hper, rfl⟩ := Option.map_eq_some_iff.mp hstep
      have hstands : Stands (o := o) ⟨l, k res⟩ := by
        obtain ⟨r, place, now, trigger, heq⟩ := (h.stands _ (List.mem_of_getElem? ht)).await
        cases heq
        exact .settled r place now trigger res
      refine ⟨s', .refl _, h.mem, ?_, stands_set h.stands hstands i⟩
      obtain ⟨trigger, now⟩ := op
      cases c with
      | ok fired =>
        cases hper
        exact h.replies
      | error e =>
        cases hper
        exact h.replies
  | disturb i =>
    simp only [Async.Sys.step] at hstep
    split at hstep
    · cases hstep
    · cases hstep
  | resume i =>
    simp only [Async.Sys.step] at hstep
    split at hstep
    case h_2 => cases hstep
    case h_1 l p ht =>
      cases hstep
      obtain ⟨hdue, hmet⟩ := hcalm i _ rfl ht
      obtain ⟨hmem, hstands⟩ := stands_resume (h.stands _ (List.mem_of_getElem? ht)) hdue hmet
      exact ⟨s', .refl _, h.mem.trans hmem.symm, h.replies, stands_set h.stands hstands i⟩
  | outside x =>
    cases hstep
    have hserves : Serves (o := o) (.outside x) s' := fun l => nofun
    refine ⟨_, .tail (.outside x) (.refl _) hserves rfl, ?_, ?_, h.stands⟩
    · cases (x : Ext) with
      | request command msg =>
        exact congrArg (fun m => (handle o command msg m).1) h.mem
      | state => exact h.mem
      | clock now => exact congrArg (fun m : Memory => { m with now := now }) h.mem
    · cases (x : Ext) with
      | request command msg =>
        exact congrArg₂ (fun (m : Memory) seen => .reply command msg (handle o command msg m).2 :: seen)
          h.mem h.replies
      | state =>
        exact congrArg₂ (fun (m : Memory) seen => .report (reportState m) :: seen) h.mem h.replies
      | clock now => exact h.replies
  | crash =>
    cases hstep
    have hserves : Serves (o := o) .crash s' := fun l => nofun
    refine ⟨_, .tail .crash (.refl _) hserves rfl, ?_, h.replies, by simp⟩
    exact congrArg (fun m : Memory => Memory.boot m.now) h.mem

theorem follows_run {now : ℚ} {s : Sys o}
    (hrun : Run (fun e s => Drives e s ∧ Calm e s) (Sys.fresh o now) s) :
    ∃ s', Run Serves (Sys.fresh o now) s' ∧ Follows s s' := by
  induction hrun with
  | refl => exact ⟨_, .refl _, rfl, rfl, by simp [Sys.fresh]⟩
  | tail e _ hok hstep ih =>
    obtain ⟨s', hrun', hfollows⟩ := ih
    obtain ⟨s₁', hrun₁, hfollows₁⟩ := hfollows.step hok.1 hok.2 hstep
    exact ⟨s₁', hrun'.trans hrun₁, hfollows₁⟩

/-! ## 4. Nothing fires in the container -/

/-- Neither bytes nor an intent that has fired or expired are in what was seen. -/
def Unfired : Seen → Prop
  | .reply _ _ (.ok (.ok (.released _ _))) => False
  | .reply _ _ (.ok (.ok (.status state _ _ _))) => state = .armed ∨ state = .cancelled
  | .report r => r.awaitingCollection = 0 ∧ r.firedTotal = 0
  | .reading _ _ _ => False
  | _ => True

/-- Intents are armed or cancelled. -/
structure Waiting (m : Memory) : Prop where
  states : ∀ intent ∈ m.heap, intent.state = .armed ∨ intent.state = .cancelled
  total : m.firedTotal = 0

theorem unfired_refusal (command : Command) (msg : Str) (refusal : Refusal) :
    Unfired (.reply command msg refusal.result) := by
  cases refusal <;> exact trivial

/-- **A command keeps intents waiting, and says so**: without ticks no intent is fired, and no
reply to a command tells of one that is. -/
theorem handle_waiting {m : Memory} (h : Waiting m) (command : Command) (msg : Str) :
    Waiting (handle o command msg m).1 ∧
      Unfired (.reply command msg (handle o command msg m).2) := by
  have hlookup : ∀ {k r intent}, m.lookup k = some (r, intent) →
      intent.state = .armed ∨ intent.state = .cancelled := fun hl =>
    h.states _ (List.mem_of_getElem? (Memory.lookup_eq_some.mp hl).2)
  cases command with
  | arm =>
    simp only [handle, handleArm]
    split
    case h_1 refusal _ => exact ⟨h, unfired_refusal _ _ refusal⟩
    case h_2 req _ =>
      unfold arm
      split_ifs with hpast hfar harmed
      · exact ⟨h, trivial⟩
      · exact ⟨h, trivial⟩
      · exact ⟨h, trivial⟩
      · constructor
        · constructor
          · intro intent hmem
            simp only [Memory.create, List.mem_append, List.mem_singleton] at hmem
            rcases hmem with hmem | rfl
            · exact h.states intent hmem
            · exact Or.inl rfl
          · exact h.total
        · cases describeTrigger req.trigger <;> exact trivial
  | status =>
    simp only [handle, handleStatus]
    split
    case h_1 refusal _ => exact ⟨h, unfired_refusal _ _ refusal⟩
    case h_2 k _ =>
      split
      case h_1 => exact ⟨h, trivial⟩
      case h_2 r intent hl =>
        rcases Option.or_eq_some_iff.mp hl with hl | ⟨-, hl⟩
        · exact ⟨h, hlookup hl⟩
        · exact ⟨h, hlookup hl⟩
  | cancel =>
    simp only [handle, handleCancel]
    split
    case h_1 refusal _ => exact ⟨h, unfired_refusal _ _ refusal⟩
    case h_2 k _ =>
      split
      case h_1 => exact ⟨h, trivial⟩
      case h_2 r intent hl =>
        split_ifs with hstate
        · exact ⟨h, trivial⟩
        · refine ⟨⟨fun intent' hmem => ?_, h.total⟩, trivial⟩
          obtain ⟨j, hj⟩ := List.mem_iff_getElem?.mp hmem
          rw [Memory.update_heap] at hj
          split_ifs at hj
          · obtain ⟨old, -, rfl⟩ := Option.map_eq_some_iff.mp hj
            exact Or.inr rfl
          · exact h.states intent' (List.mem_of_getElem? hj)
  | collect =>
    simp only [handle, handleCollect]
    split
    case h_1 refusal _ => exact ⟨h, unfired_refusal _ _ refusal⟩
    case h_2 k _ =>
      split
      case h_1 => exact ⟨h, trivial⟩
      case h_2 r intent hl =>
        rcases hlookup hl with hstate | hstate
        · rw [hstate]
          exact ⟨h, trivial⟩
        · rw [hstate]
          exact ⟨h, trivial⟩

theorem report_waiting {m : Memory} (h : Waiting m) : Unfired (.report (reportState m)) := by
  refine ⟨?_, h.total⟩
  rw [reportState, List.countP_eq_zero]
  intro intent hmem
  obtain ⟨p, -, hp⟩ := List.mem_filterMap.mp hmem
  rcases h.states intent (List.mem_of_getElem? hp) with hstate | hstate <;> simp [hstate]

/-- In no run of the container does anything fire. -/
theorem unfired_run {now : ℚ} {s : Sys o} (hrun : Run Serves (Sys.fresh o now) s) :
    s.tasks = [] ∧ Waiting s.mem ∧ ∀ e ∈ s.seen, Unfired e := by
  refine hrun.invariant (P := fun s => s.tasks = [] ∧ Waiting s.mem ∧ ∀ e ∈ Sys.seen s, Unfired e)
    ⟨rfl, ⟨by simp [Sys.fresh, Memory.boot], rfl⟩, by simp [Sys.fresh, Sys.seen]⟩ ?_
  rintro s s' e ⟨htasks, hwaiting, hseen⟩ hserves hstep
  cases e with
  | spawn l => exact absurd rfl (hserves l)
  | perform i c => simp [Async.Sys.step, htasks] at hstep
  | disturb i => simp [Async.Sys.step, htasks] at hstep
  | resume i => simp [Async.Sys.step, htasks] at hstep
  | outside x =>
    cases hstep
    cases x with
    | request command msg =>
      obtain ⟨hmem, hreply⟩ := handle_waiting hwaiting command msg
      exact ⟨htasks, hmem, List.forall_mem_cons.mpr ⟨hreply, hseen⟩⟩
    | state => exact ⟨htasks, hwaiting, List.forall_mem_cons.mpr ⟨report_waiting hwaiting, hseen⟩⟩
    | clock now => exact ⟨htasks, ⟨hwaiting.states, hwaiting.total⟩, hseen⟩
  | crash =>
    cases hstep
    exact ⟨rfl, ⟨by simp [machine, Memory.boot], rfl⟩, hseen⟩

/-- What comes from outside is nobody's tick. -/
theorem calm_outside (x : Ext) (s : Sys o) :
    Drives (o := o) (.outside x) s ∧ Calm (o := o) (.outside x) s := by
  constructor
  · intro l h
    cases h
  · intro i t h
    cases h

end Container

open Container

/-- **The container replies as the driver does while no tick fires or expires an intent**, and it
never gets any further: in no run does it release bytes, or say that an intent has fired or
expired. -/
theorem container_follows_driver (o : Options) (now : ℚ) :
    (∀ s : Sys o, Run (fun e s => Drives e s ∧ Calm e s) (Sys.fresh o now) s →
      ∃ s', Run Serves (Sys.fresh o now) s' ∧ s'.mem = s.mem ∧ replies (Sys.seen s') = replies (Sys.seen s)) ∧
    ∀ s' : Sys o, Run Serves (Sys.fresh o now) s' → ∀ e ∈ Sys.seen s', Unfired e := by
  constructor
  · intro s hrun
    obtain ⟨s', hrun', hfollows⟩ := follows_run hrun
    exact ⟨s', hrun', hfollows.mem, hfollows.replies⟩
  · intro s' hrun'
    exact (unfired_run hrun').2.2

namespace Sample

/-- An intent is armed and asked for. -/
def asked : List (Event options) :=
  [.clock 1000, .request .arm armMessage, .request .status namedMessage]

end Sample

/-- The container answers as the driver, while the intent waits. -/
theorem container_follows_driver_asked :
    ∃ s', Run Serves (Sys.fresh Sample.options 0) s' ∧ replies (Sys.seen s') =
      [.reply .status Sample.namedMessage (ok (.status .armed 1000 9000 none)),
        .reply .arm Sample.armMessage (ok (.armed Sample.commitment false))] := by
  have hrun : (Async.Sys.run Sample.asked (Sys.fresh Sample.options 0)).map Sys.seen = some
      [.reply .status Sample.namedMessage (ok (.status .armed 1000 9000 none)),
        .reply .arm Sample.armMessage (ok (.armed Sample.commitment false))] := by decide +kernel
  obtain ⟨s, hs, hseen⟩ := Option.map_eq_some_iff.mp hrun
  have hdrives : ∀ e ∈ Sample.asked, ∀ s, Drives e s ∧ Calm e s := by
    intro e he s
    simp only [Sample.asked, List.mem_cons, List.not_mem_nil, or_false] at he
    rcases he with rfl | rfl | rfl
    · exact calm_outside _ s
    · exact calm_outside _ s
    · exact calm_outside _ s
  obtain ⟨s', hrun', -, hreplies⟩ := (container_follows_driver Sample.options 0).1 s
    (Run.of_run Sample.asked hdrives hs)
  refine ⟨s', hrun', ?_⟩
  rw [hreplies, hseen]
  rfl

/-- **The driver releases the bytes of an intent, and no run of the container replies alike.** -/
theorem container_never_releases :
    ∃ s, Run Drives (Sys.fresh Sample.options 0) s ∧
      Seen.reply .collect Sample.namedMessage (ok (.released "0xdead".toList (some 6000))) ∈
        Sys.seen s ∧
      ∀ s', Run Serves (Sys.fresh Sample.options 0) s' →
        replies (Sys.seen s') ≠ replies (Sys.seen s) := by
  have hrun : (Async.Sys.runIf Drives Sample.collected (Sys.fresh Sample.options 0)).map Sys.seen =
      some (.reply .collect Sample.namedMessage (ok (.released "0xdead".toList (some 6000))) ::
        Sample.beforeCollect) := by decide +kernel
  obtain ⟨s, hs, hseen⟩ := Option.map_eq_some_iff.mp hrun
  refine ⟨s, Run.of_runIf Sample.collected hs, ?_, ?_⟩
  · rw [hseen]
    exact List.mem_cons_self
  · intro s' hrun' hsame
    have hreleased : Seen.reply .collect Sample.namedMessage
        (ok (.released "0xdead".toList (some 6000))) ∈ replies (Sys.seen s') := by
      rw [hsame, hseen]
      exact List.mem_cons_self
    exact (unfired_run hrun').2.2 _ (List.mem_of_mem_filter hreleased)

end OneSig.Latch
