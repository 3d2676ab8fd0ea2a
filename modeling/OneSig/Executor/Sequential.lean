/-
# Ticks one at a time

The process as its author pictures it: a tick starts when the earlier one is done, while requests
come in at any time.  The source does not enforce it; what it does when ticks overlap is the
subject of `Overlap` and `OnePayment`.  Many of its properties hold in these runs and need the
same argument, which is made here once.

A `Conduct` is what is to be shown of such runs: an invariant of every state, a condition on the
ticks' books that holds between ticks, and what the ticks guarantee to the rest.  `Conduct.Good`
lists what has to be checked of it, one condition for each thing the code does: what a poll, a
round of the creation loop and a turn of the walk make of the books, that requests register only
what the invariant admits, and that the outside may do what it does.  `Conduct.Good.sound` puts
these together over the code of the service.

There are two kinds of task.  The tick, the walk and the start of the service share the books, and
no two of them are at work at once; the requests leave the books alone and are only known to let
the store's memory grow (`Aside`).  So while a tick waits, the books stay as they are, which is
the rely of its specification, and the library's rule for disciplined runs gives the invariant in
every state that is reached.

* `Good.wp_start`, `Good.wp_stepping`: the start of the service and one turn of the walk.
* `Good.sound`, `Good.allows`: the code meets the conduct, and the events of such a run are
  allowed by it.
* `Good.alone`: two steps of one job that are in flight are the same one.
-/
import OneSig.Executor.TickSpec
import OneSig.Executor.Requests

namespace OneSig.Executor

open OneSig Async ExecutorPipeline ExecutorService

/-! ## 1. Two kinds of task -/

inductive TaskKind
  | ticks
  | requests
  deriving DecidableEq

/-- Everything but the two endpoints belongs to the ticks. -/
def kindOf : Label → TaskKind
  | .register _ => .requests
  | .prepare _ => .requests
  | _ => .ticks

/-- What a request can change: the store's memory grows. -/
def Aside (s s' : St) : Prop := view s' = view s ∧ Grows s s'

theorem Aside.refl (s : St) : Aside s s := ⟨rfl, .refl s⟩

theorem Aside.trans {s s' s'' : St} (h : Aside s s') (h' : Aside s' s'') : Aside s s'' :=
  ⟨h'.1.trans h.1, h.2.trans h'.2⟩

/-- No tick is running. -/
def noTick {o : Options} (s : Sys o) : Bool :=
  s.tasks.all fun t => decide (kindOf t.label = .requests) || t.done

/-- The events of the service, with one tick at a time. -/
def OneTick {o : Options} (e : Event o) (s : Sys o) : Prop :=
  match e with
  | .spawn .start | .spawn .tick => noTick s = true
  | .spawn (.register _) | .spawn (.prepare _) => True
  | .spawn _ => False
  | _ => True

instance {o : Options} (e : Event o) (s : Sys o) : Decidable (OneTick e s) :=
  match e with
  | .spawn .start | .spawn .tick => inferInstanceAs (Decidable (noTick s = true))
  | .spawn (.register _) | .spawn (.prepare _) => .isTrue trivial
  | .spawn (.advance _) | .spawn (.stepping _ _ _) | .spawn .poll | .spawn (.load _)
  | .spawn (.step _) => .isFalse fun h => h
  | .perform _ _ | .disturb _ | .resume _ | .outside _ | .crash => .isTrue trivial

/-! ## 2. What holds of such runs -/

/-- What is to be shown of runs with one tick at a time. -/
structure Conduct (o : Options) where
  inv : St → Prop
  guar : St → St → Prop
  adm : Label → Op → Choice → St → Prop
  /-- What holds of the ticks' books between two writes that belong together. -/
  books : View → Prop
  /-- The records that may be registered. -/
  record : PendingUserOp → Prop
  /-- The answers of the injected `prepare`. -/
  prepared : PreparedForWeb → Prop

namespace Conduct

variable {o : Options} (C : Conduct o)

/-- The bodies that may be posted. -/
def Admits (l : Label) : Prop :=
  match l with
  | .register body => ∀ entry, registerEntry body = some entry → EntryAdmitted o.viem C.record entry
  | _ => True

def discipline : Discipline (machine o) TaskKind where
  kind := kindOf
  excl := fun k => k = .ticks
  inv := C.inv
  rely := fun k s s' => k = .ticks → Aside s s'
  guar := fun k s s' => match k with
    | .ticks => C.guar s s'
    | .requests => Aside s s'
  adm := C.adm
  pre := fun l s => match l with
    | .register body => C.Admits (.register body)
    | .prepare _ => True
    | .start | .tick | .advance _ => C.books (view s)
    | .stepping _ id r => C.books (view s) ∧ (id, r) ∈ s.mem.live.pairs
    | .poll | .load _ | .step _ => False
  idle := fun k s => k = .ticks → C.books (view s)

/-- The specification of the ticks' code. -/
abbrev tickSpec (l : Label) : Spec sig world := ⟨C.inv, Aside, C.guar, C.adm l⟩

/-- The specification of the requests' code. -/
abbrev requestSpec (l : Label) : Spec sig world :=
  ⟨C.inv, fun _ _ => True, Aside, C.adm l⟩

/-- What has to be checked. -/
structure Good : Prop where
  lawful : o.viem.Lawful
  guar_refl : ∀ s, C.guar s s
  guar_trans : ∀ s s' s'', C.guar s s' → C.guar s' s'' → C.guar s s''
  ticking : ∀ l, Ticking (C.tickSpec l)
  registers : ∀ l, Registers (C.requestSpec l) C.record C.prepared
  prepared : ∀ p, C.prepared p → EntryAdmitted o.viem C.record (preparedEntry p)
  outside : ∀ x m w, C.inv ⟨m, w⟩ → C.inv ⟨(ExecutorService.outside x m w).1,
    (ExecutorService.outside x m w).2⟩
  live : ∀ s, C.inv s → ∀ id r, (id, r) ∈ s.mem.live.pairs → r < s.mem.heap.length
  started : ∀ s ledger, C.inv s → C.books (view s) →
    C.inv ⟨startTimer (Watcher.setStartLedger ledger s.mem), s.world⟩ ∧
      C.inv ⟨Watcher.setStartLedger ledger s.mem, s.world⟩ ∧
      C.guar s ⟨Watcher.setStartLedger ledger s.mem, s.world⟩ ∧
      C.guar ⟨Watcher.setStartLedger ledger s.mem, s.world⟩
        ⟨startTimer (Watcher.setStartLedger ledger s.mem), s.world⟩ ∧
      C.books (view ⟨startTimer (Watcher.setStartLedger ledger s.mem), s.world⟩)
  /-- A tick that starts on good books can create the jobs of its payments, and keeps the books. -/
  creates : ∀ s, C.inv s → C.books (view s) →
    wp (C.tickSpec .tick) (createJobs o) (fun res s' => res = .ok () ∧ C.books (view s')) s
  pays : ∀ l (v : View) (r : Ref) (job : Job), C.books v → v.heap[r]? = some job →
    (∃ s, C.inv s ∧ view s = v) → job.state = .request_prepared →
    MayPay (C.tickSpec l) v job.id job.abiEncodedRequest
  walks : ∀ place (v : View) id (r : Ref) (job : Job) v', C.books v → (id, r) ∈ v.live.pairs →
    v.heap[r]? = some job → (∃ s, C.inv s ∧ view s = v) →
    Walked (C.tickSpec (.stepping place id r)) v id r job v' → C.books v'

variable {C}

theorem wp_ticks {α : Type} {l : Label} (hk : kindOf l = .ticks) {p : Prog α}
    {Q : Except JsError α → St → Prop} {s : St} (h : wp (C.tickSpec l) p Q s) (hi : C.inv s) :
    wp (C.discipline.spec l) p Q s := by
  have hspec : C.discipline.spec l =
      ⟨C.inv, fun s s' => kindOf l = .ticks → Aside s s', C.guar, C.adm l⟩ := by
    simp only [discipline, Discipline.spec, hk]
  rw [hspec]
  refine wp_weaken ?_ ?_ ?_ ?_ hi h
  · exact fun s s' hr => hr hk
  · exact fun _ h => h
  · exact fun _ _ _ h => h
  · exact fun s s' _ hg hi' => ⟨hi', hg⟩

theorem keeps_requests {α : Type} {l : Label} (hk : kindOf l = .requests) {p : Prog α}
    {R : α → Prop} (h : Keeps (C.requestSpec l) p R) {s : St} (hi : C.inv s) :
    wp (C.discipline.spec l) p (fun _ _ => True) s := by
  have hspec : C.discipline.spec l =
      ⟨C.inv, fun s s' => kindOf l = .ticks → Aside s s', Aside, C.adm l⟩ := by
    simp only [discipline, Discipline.spec, hk]
  rw [hspec]
  have hany : wp (C.requestSpec l) p (fun _ _ => True) s := wp_mono (h s hi) fun _ _ _ => trivial
  refine wp_weaken ?_ ?_ ?_ ?_ hi hany
  · exact fun s s' _ => trivial
  · exact fun _ h => h
  · exact fun _ _ _ h => h
  · exact fun s s' _ hg hi' => ⟨hi', hg⟩

/-- The loop head of the walk. -/
theorem walk_post (place : Nat) {s : St} (hbooks : C.books (view s)) :
    C.discipline.post (.advance place) (.ok (walk place s.mem.live)) s := by
  unfold walk
  split
  case h_1 => exact fun _ => hbooks
  case h_2 => exact ⟨rfl, hbooks⟩
  case h_3 id r hplace =>
    have hmem : (id, r) ∈ s.mem.live.pairs :=
      JsMap.mem_pairs.mpr (List.mem_of_getElem? hplace)
    exact ⟨rfl, hbooks, hmem⟩

/-- A request of the API. -/
theorem keeps_request {α : Type} {l : Label} (hk : kindOf l = .requests) {p : Prog α}
    {R : α → Prop} (h : Keeps (C.requestSpec l) p R) {s : St} (hi : C.inv s) :
    wp (C.discipline.spec l) (do
      let _ ← p
      return none) (C.discipline.post l) s := by
  have hidle : ∀ s', C.discipline.idle (kindOf l) s' := by
    intro s' hticks
    cases hk.symm.trans hticks
  exact wp_seq (keeps_requests hk h hi) (fun _ s' _ => wp_pure (hidle s')) fun _ s' _ => hidle s'

/-- The start of the service. -/
theorem Good.wp_start (hC : C.Good) {s : St} (hpre : C.books (view s)) :
    wp (C.tickSpec .start) (do
      let _ ← start
      return none) (C.discipline.post .start) s := by
  unfold start XrplHttpClient.currentLedger
  have hx := hC.ticking .start
  have hread : ∀ {s' : St}, view s' = view s → C.books (view s') := fun hv => hv ▸ hpre
  refine wp_bind (wp_bind (wp_bind (hx.wp_read rfl ?_)))
  intro res s₂ c s₁ w _ _ _ _ hi₂ hv₂ _
  cases res with
  | error e => exact fun _ => hread hv₂
  | ok reply =>
    refine wp_lift ?_
    cases XrplHttpClient.readResult "ledger_current".toList reply with
    | error e => exact fun _ => hread hv₂
    | ok ledger =>
      obtain ⟨hi₃, hi₄, hg₃, hg₄, hbooks⟩ := hC.started s₂ ledger hi₂ (hread hv₂)
      exact ⟨hi₄, hg₃, hi₃, hg₄, fun _ => hbooks⟩

/-- A turn of the walk. -/
theorem Good.wp_stepping (hC : C.Good) (place : Nat) {id : Str} {r : Ref} {s : St} (hi : C.inv s)
    (hbooks : C.books (view s)) (hlive : (id, r) ∈ s.mem.live.pairs) :
    wp (C.tickSpec (.stepping place id r)) (do
      advanceOne o id r
      return some (.advance (place + 1))) (C.discipline.post (.stepping place id r)) s := by
  have hr := hC.live s hi id r hlive
  obtain ⟨job, hj⟩ : ∃ job, (view s).heap[r]? = some job := ⟨_, List.getElem?_eq_getElem hr⟩
  refine wp_seq ((hC.ticking (.stepping place id r)).wp_advanceOne o id hi rfl hj
    (hC.pays _ _ r job hbooks hj ⟨s, hi, rfl⟩)) ?_ ?_
  · rintro _ s' ⟨-, hi', hwalked⟩
    exact wp_pure ⟨rfl, hC.walks place _ id r job _ hbooks hlive hj ⟨s, hi, rfl⟩ hwalked⟩
  · rintro e s' ⟨h, -⟩
    cases h

/-- **The code of the service meets the conduct**, one label after the other, once what `Good`
lists has been checked. -/
theorem Good.sound (hC : C.Good) : C.discipline.Sound where
  rely_refl := fun _ s _ => .refl s
  rely_trans := fun _ _ _ _ h h' hk => (h hk).trans (h' hk)
  guar_refl := fun k s => match k with
    | .ticks => hC.guar_refl s
    | .requests => .refl s
  guar_trans := fun k _ _ _ h h' => match k with
    | .ticks => hC.guar_trans _ _ _ h h'
    | .requests => Aside.trans h h'
  compat := by
    intro k k' hkk s s' hg hk'
    cases k with
    | ticks => exact absurd rfl (hkk hk'.symm)
    | requests => exact hg
  pre_stable := by
    intro l s s' hr _ hpre
    cases l with
    | register body => exact hpre
    | prepare body => exact hpre
    | stepping place id r =>
      have hv := (hr rfl).1
      have hlive : s'.mem.live = s.mem.live := congrArg View.live hv
      exact ⟨hv ▸ hpre.1, hlive ▸ hpre.2⟩
    | start =>
      have hv := (hr rfl).1
      exact (congrArg C.books hv).mpr hpre
    | tick =>
      have hv := (hr rfl).1
      exact (congrArg C.books hv).mpr hpre
    | advance place =>
      have hv := (hr rfl).1
      exact (congrArg C.books hv).mpr hpre
    | _ => exact hpre
  idle_stable := by
    intro k s s' hr _ hidle hk
    have hv := (hr hk).1
    exact (congrArg C.books hv).mpr (hidle hk)
  idle_open := fun _ _ hne hk => absurd hk hne
  code := by
    intro l s hi hpre
    cases l with
    | register body =>
      exact keeps_request rfl
        ((hC.registers (.register body)).keeps_handleRegister hC.lawful hpre) hi
    | prepare body =>
      exact keeps_request rfl
        ((hC.registers (.prepare body)).keeps_handlePrepare hC.lawful body hC.prepared) hi
    | start => exact wp_ticks rfl (hC.wp_start hpre) hi
    | tick =>
      refine wp_ticks rfl (wp_seq (hC.creates s hi hpre) ?_ ?_) hi
      · rintro _ s' ⟨-, hbooks⟩
        exact wp_pure ⟨rfl, hbooks⟩
      · rintro e s' ⟨h, -⟩
        cases h
    | advance place =>
      refine wp_bind (wp_gets ?_)
      exact walk_post place hpre
    | stepping place id r => exact wp_ticks rfl (hC.wp_stepping place hi hpre.1 hpre.2) hi
    | _ => exact absurd hpre (by trivial)

/-- The events that such a conduct allows. -/
theorem Good.allows (hC : C.Good) {e : Event o} {s : Sys o} (hone : OneTick e s)
    (hspawn : ∀ l, e = .spawn l → C.Admits l)
    (hperform : ∀ i c, e = .perform i c → ∀ p ∈ s.awaiting i, C.adm p.1 p.2 c s.st)
    (hcrash : e = .crash → C.inv s.st → C.inv ⟨Memory.boot s.mem.now, s.world⟩ ∧
      C.books (view ⟨Memory.boot s.mem.now, s.world⟩)) : C.discipline.Allows e s := by
  cases e with
  | spawn l =>
    have hquiet : noTick s = true → ∀ t ∈ s.tasks, kindOf t.label = .ticks → t.done = true := by
      intro h t ht hk
      have hall := List.all_eq_true.mp h t ht
      simpa [hk] using hall
    cases l with
    | register body => exact ⟨fun h => absurd h TaskKind.noConfusion, fun _ _ => hspawn _ rfl⟩
    | prepare body => exact ⟨fun h => absurd h TaskKind.noConfusion, fun _ _ => trivial⟩
    | start => exact ⟨fun _ t ht hk => hquiet hone t ht hk, fun _ hidle => hidle rfl⟩
    | tick => exact ⟨fun _ t ht hk => hquiet hone t ht hk, fun _ hidle => hidle rfl⟩
    | _ => exact hone.elim
  | perform i c => exact fun l op k ht => hperform i c rfl (l, op) (Sys.awaiting_eq ht)
  | disturb i => trivial
  | resume i => trivial
  | outside x =>
    refine fun hi => ⟨hC.outside x _ _ hi, fun t _ _ k => ?_, fun k hidle => ?_⟩
    · cases x <;> exact ⟨rfl, .refl _⟩
    · cases x <;> exact hidle
  | crash =>
    refine fun hi => ?_
    obtain ⟨hi', hbooks⟩ := hcrash rfl hi
    exact ⟨hi', fun _ _ => hbooks⟩

/-- The steps of one job at a time: two steps in flight are the same. -/
theorem Good.alone {s : Sys o} (hok : C.discipline.Ok s) {i j : Nat} {t t' : Task (machine o)}
    (hi : s.tasks[i]? = some t) (hj : s.tasks[j]? = some t') (hd : t.done = false)
    (hd' : t'.done = false) (hk : kindOf t.label = .ticks) (hk' : kindOf t'.label = .ticks) :
    i = j :=
  hok.alone i j t t' hi hj hd hd' (hk.trans hk'.symm) hk

end Conduct

end OneSig.Executor
