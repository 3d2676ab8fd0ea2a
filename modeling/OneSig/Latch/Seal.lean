/-
# Bytes come out only of an intent that has fired

COLLECT returns the bytes of an intent.  Whenever it does, in any run with any interleaving of
commands and ticks, the bytes hash to the commitment that was named, the last ARM of it had a
trigger that a check has found met since then and before the deadline of that ARM, and no CANCEL
of it has succeeded since.

The invariant ties the memory to what was seen.  `Backed` says of an intent that what was seen
backs it: its last ARM had its trigger and its deadline; while it holds its bytes, they hash to
its commitment and no CANCEL since that ARM has succeeded; and if it is fired or collected, a
check since then has found the trigger met, at a time before the deadline (`Opened`).  `Sealed` is
what a release says about everything seen before it.

A tick writes an intent that it has tested before an `await`, so its part is a rely and guarantee
argument: `Later` is what a suspended tick can count on, that the trigger and the deadline it has
read are still those of the object, whoever else was there meanwhile.  Nothing is assumed about
the order in which tasks go on.

* `request_inv`: a command keeps the seal, by the cases of what a command can do.
* `discipline` gives every task its part, and `inv_run` is the invariant along every run.
* `collect_sealed` is the result.

The samples at the end are the messages that the other modules run on: one intent, armed at 1000
to be released from 5000 on and until 9000, which fires at 6000 and is collected.
-/
import OneSig.Lib.Async.Logic
import OneSig.Latch.Commands

namespace OneSig.Latch

open Async (St Run Discipline Waits wp wp_bind wp_gets wp_pure wp_call wp_modify wp_lift wp_seq
  wp_mono bindPost)

namespace Seal

variable {o : Options}

/-! ## 1. The invariant -/

/-- Since the ARM, a check found the trigger of the intent met before its deadline. -/
def Opened (o : Options) (k : Str) (trigger : Trigger) (deadline : ℚ) (seen : List Seen) : Prop :=
  ∃ now, Seen.reading trigger now true ∈ sinceArm o k seen ∧ now < deadline

/-- What was seen backs an intent. -/
structure Backed (o : Options) (k : Str) (intent : Intent) (seen : List Seen) : Prop where
  armed : ∃ req, lastArm o k seen = some req ∧ req.trigger = intent.trigger ∧
    req.deadline = intent.deadline
  hash : intent.userOpData ≠ hexPrefix → o.viem.keccak256 intent.userOpData = .ok k
  kept : intent.userOpData ≠ hexPrefix → ∀ e ∈ sinceArm o k seen, e.cancels k = false
  opened : intent.state = .fired ∨ intent.state = .collected →
    Opened o k intent.trigger intent.deadline seen

/-- What a release of bytes says about everything seen before it. -/
def Sealed (o : Options) (e : Seen) (seen : List Seen) : Prop :=
  ∀ msg k b t, e = .reply .collect msg (ok (.released b t)) →
    namedCommitment o.engine msg = .ok k → b ≠ hexPrefix →
    o.viem.keccak256 b = .ok k ∧ ∃ req, lastArm o k seen = some req ∧
      Opened o k req.trigger req.deadline seen ∧ ∀ e ∈ sinceArm o k seen, e.cancels k = false

structure Inv (o : Options) (s : St sig world) : Prop where
  sound : s.mem.Sound o
  backed : ∀ k r intent, (k, r) ∈ s.mem.intents.pairs → s.mem.heap[r]? = some intent →
    Backed o k intent s.world
  told : Throughout (Sealed o) s.world

/-- What a suspended tick can count on. -/
structure Later (o : Options) (s s' : St sig world) : Prop where
  kept : ∀ (r : Ref) (intent : Intent), s.mem.heap[r]? = some intent →
    ∃ intent', s'.mem.heap[r]? = some intent' ∧ intent.Kept intent'
  since : ∀ k r, (k, r) ∈ s'.mem.intents.pairs → r < s.mem.heap.length →
    (k, r) ∈ s.mem.intents.pairs ∧ ∀ e ∈ sinceArm o k s.world, e ∈ sinceArm o k s'.world

theorem Later.refl (s : St sig world) : Later o s s :=
  ⟨fun _ intent h => ⟨intent, h, .refl intent⟩, fun _ _ h _ => ⟨h, fun _ he => he⟩⟩

theorem Later.length {s s' : St sig world} (h : Later o s s') {r : Ref}
    (hr : r < s.mem.heap.length) : r < s'.mem.heap.length := by
  obtain ⟨intent', h', -⟩ := h.kept r _ (List.getElem?_eq_getElem hr)
  exact (List.getElem?_eq_some_iff.mp h').1

theorem Later.trans {s s' s'' : St sig world} (h : Later o s s') (h' : Later o s' s'') :
    Later o s s'' := by
  refine ⟨?_, ?_⟩
  · intro r intent hr
    obtain ⟨i', hr', hk⟩ := h.kept r intent hr
    obtain ⟨i'', hr'', hk'⟩ := h'.kept r i' hr'
    exact ⟨i'', hr'', hk.trans hk'⟩
  · intro k r hk hr
    obtain ⟨hk', hsub'⟩ := h'.since k r hk (h.length hr)
    obtain ⟨hk₀, hsub⟩ := h.since k r hk' hr
    exact ⟨hk₀, fun e he => hsub' e (hsub e he)⟩

/-! ## 2. Writing an intent -/

section Write

variable {m : Memory} {seen : List Seen} {r : Ref} {f : Intent → Intent}

theorem Inv.write (h : Inv o ⟨m, seen⟩) (total : Nat) (hf : ∀ intent : Intent, intent.Kept (f intent))
    (hdata : ∀ intent, (f intent).userOpData = intent.userOpData ∨ (f intent).userOpData = hexPrefix)
    (hopen : ∀ k intent, (k, r) ∈ m.intents.pairs → m.heap[r]? = some intent →
      (f intent).state = .fired ∨ (f intent).state = .collected →
      Opened o k intent.trigger intent.deadline seen) :
    Inv o ⟨{ m.update r f with firedTotal := total }, seen⟩ := by
  have hsound := h.sound.update (r := r) hf
  refine ⟨⟨hsound.refs, hsound.hashed, hsound.counted⟩, ?_, h.told⟩
  intro k j intent hk hj
  dsimp only at hj
  rw [Memory.update_heap] at hj
  split at hj
  case isFalse => exact h.backed k j intent hk hj
  case isTrue hr =>
    subst hr
    obtain ⟨old, hold, rfl⟩ := Option.map_eq_some_iff.mp hj
    obtain ⟨harmed, hhash, hkept, -⟩ := h.backed k r old hk hold
    have hbytes : (f old).userOpData ≠ hexPrefix → (f old).userOpData = old.userOpData :=
      fun hne => (hdata old).resolve_right hne
    refine ⟨?_, ?_, ?_, ?_⟩
    · rw [(hf old).trigger, (hf old).deadline]
      exact harmed
    · intro hne
      have hold := hbytes hne
      rw [hold] at hne ⊢
      exact hhash hne
    · intro hne
      have hold := hbytes hne
      rw [hold] at hne
      exact hkept hne
    · rw [(hf old).trigger, (hf old).deadline]
      exact hopen k old hk hold

theorem Later.write (total : Nat) (hf : ∀ intent : Intent, intent.Kept (f intent)) :
    Later o ⟨m, seen⟩ ⟨{ m.update r f with firedTotal := total }, seen⟩ := by
  refine ⟨?_, fun k j hk _ => ⟨hk, fun e he => he⟩⟩
  intro j intent hj
  dsimp only
  rw [Memory.update_heap]
  split
  · exact ⟨f intent, by rw [hj]; rfl, hf intent⟩
  · exact ⟨intent, hj, .refl intent⟩

end Write

/-! ## 3. Seeing something -/

section Note

variable {m : Memory} {seen : List Seen} {e : Seen}

theorem Backed.note {k : Str} {intent : Intent} (h : Backed o k intent seen)
    (hcreates : e.creates o k = none)
    (hcancel : e.cancels k = true → intent.userOpData = hexPrefix) :
    Backed o k intent (e :: seen) := by
  refine ⟨?_, h.hash, ?_, ?_⟩
  · rw [lastArm_of_none seen hcreates]
    exact h.armed
  · intro hne e' he'
    rw [sinceArm_of_none seen hcreates] at he'
    rcases List.mem_cons.mp he' with rfl | hold
    · cases hc : e'.cancels k with
      | false => rfl
      | true => exact absurd (hcancel hc) hne
    · exact h.kept hne e' hold
  · intro hstate
    obtain ⟨now, hmem, hlt⟩ := h.opened hstate
    refine ⟨now, ?_, hlt⟩
    rw [sinceArm_of_none seen hcreates]
    exact List.mem_cons_of_mem e hmem

/-- Only a COLLECT releases. -/
theorem Sealed.of_quiet (h : ∀ msg b t, e ≠ .reply .collect msg (ok (.released b t))) :
    Sealed o e seen := fun msg _ b t heq => absurd heq (h msg b t)

theorem Inv.note (h : Inv o ⟨m, seen⟩) (hcreated : e.created o = none)
    (hcancel : ∀ k r intent, (k, r) ∈ m.intents.pairs → m.heap[r]? = some intent →
      e.cancels k = true → intent.userOpData = hexPrefix)
    (hsealed : Sealed o e seen) : Inv o ⟨m, e :: seen⟩ :=
  ⟨h.sound, fun k r intent hk hr =>
    (h.backed k r intent hk hr).note (creates_none hcreated) (hcancel k r intent hk hr),
    h.told.cons hsealed⟩

theorem Later.note (hcreated : e.created o = none) : Later o ⟨m, seen⟩ ⟨m, e :: seen⟩ := by
  refine ⟨fun _ intent h => ⟨intent, h, .refl intent⟩, fun k r hk _ => ⟨hk, fun e' he' => ?_⟩⟩
  dsimp only at he' ⊢
  rw [sinceArm_of_none seen (creates_none hcreated)]
  exact List.mem_cons_of_mem e he'

end Note

/-! ## 4. A command -/

section Request

variable {m : Memory} {seen : List Seen}

theorem created_inv (h : Inv o ⟨m, seen⟩) {e : Seen} {req : ArmRequest}
    (hcreated : e.created o = some req) (hcancels : ∀ k, e.cancels k = false)
    (hsealed : Sealed o e seen)
    (hhash : o.viem.keccak256 req.userOpData = .ok req.commitment) :
    Inv o ⟨m.create req, e :: seen⟩ := by
  refine ⟨h.sound.create ⟨_, hhash⟩, ?_, h.told.cons hsealed⟩
  intro k r intent hk hr
  rcases JsMap.mem_pairs_set.mp hk with ⟨rfl, rfl⟩ | ⟨hne, hk⟩
  · -- the new intent
    have hcreates : e.creates o req.commitment = some req := by
      simp [Seen.creates, hcreated, Option.filter]
    rcases Memory.create_heap hr with hold | ⟨-, rfl⟩
    · exact absurd (List.getElem?_eq_some_iff.mp hold).1 (Nat.lt_irrefl _)
    refine ⟨⟨req, lastArm_of_creates seen hcreates, rfl, rfl⟩, fun _ => hhash, ?_, ?_⟩
    · intro _ e' he'
      dsimp only at he'
      rw [sinceArm_of_creates seen hcreates] at he'
      cases he'
    · rintro (hstate | hstate) <;> cases hstate
  · have hcreates : e.creates o k = none := by
      simp [Seen.creates, hcreated, Option.filter, Ne.symm hne]
    rw [Memory.create_heap_old (h.sound.ref_lt hk)] at hr
    exact (h.backed k r intent hk hr).note hcreates fun hc => by simp [hcancels k] at hc

theorem created_later {e : Seen} {req : ArmRequest} (hcreated : e.created o = some req) :
    Later o ⟨m, seen⟩ ⟨m.create req, e :: seen⟩ := by
  refine ⟨?_, ?_⟩
  · intro r intent hr
    refine ⟨intent, ?_, .refl intent⟩
    rw [Memory.create_heap_old (List.getElem?_eq_some_iff.mp hr).1]
    exact hr
  · intro k r hk hlt
    rcases JsMap.mem_pairs_set.mp hk with ⟨-, rfl⟩ | ⟨hne, hk⟩
    · exact absurd hlt (Nat.lt_irrefl _)
    refine ⟨hk, fun e' he' => ?_⟩
    dsimp only at he' ⊢
    have hcreates : e.creates o k = none := by
      simp [Seen.creates, hcreated, Option.filter, Ne.symm hne]
    rw [sinceArm_of_none seen hcreates]
    exact List.mem_cons_of_mem e he'

/-- A reply to ARM neither cancels nor releases. -/
theorem arm_reply (msg : Str) (result : Except JsError HandlerResult) :
    (∀ k, (Seen.reply .arm msg result).cancels k = false) ∧
      Sealed o (.reply .arm msg result) seen :=
  ⟨fun _ => rfl, .of_quiet fun _ _ _ heq => by cases heq⟩

theorem Quiet.sealed {e : Seen} (h : Quiet o e) : Sealed o e seen := by
  rintro msg k b t rfl hname
  have hreleases := ((h.2 k).2).1
  simp [Seen.releases, ok, hname] at hreleases

/-- **A command keeps the seal**: bytes leave an intent only by a COLLECT that finds it fired, and
what was seen so far stays on record. -/
theorem request_inv (h : Inv o ⟨m, seen⟩) (command : Command) (msg : Str) :
    Inv o ⟨(handle o command msg m).1, .reply command msg (handle o command msg m).2 :: seen⟩ ∧
      Later o ⟨m, seen⟩
        ⟨(handle o command msg m).1, .reply command msg (handle o command msg m).2 :: seen⟩ := by
  have hdo := handled o command msg m
  generalize (handle o command msg m).1 = m' at hdo ⊢
  generalize (handle o command msg m).2 = result at hdo ⊢
  cases hdo with
  | quiet hquiet =>
    refine ⟨h.note hquiet.1 ?_ (Quiet.sealed hquiet), .note hquiet.1⟩
    intro k r intent _ _ hc
    simp [(hquiet.2 k).1] at hc
  | @created _ req _ hreq hnew hcreated =>
    obtain ⟨hcancels, hsealed⟩ := @arm_reply o seen msg result
    exact ⟨created_inv h hcreated hcancels hsealed (parseArm_hash hreq).1, created_later hcreated⟩
  | status hname hkey hlookup =>
    refine ⟨h.note rfl ?_ (.of_quiet fun _ _ _ heq => by cases heq), .note rfl⟩
    intro k r intent _ _ hc
    cases hc
  | @cancelled _ k r intent hname hlookup harmed =>
    have hkept : ∀ i : Intent, i.Kept (i.drop .cancelled) := Intent.drop_kept .cancelled
    have hw := h.write m.firedTotal (r := r) hkept (fun _ => Or.inr rfl)
      fun _ _ _ _ hs => by rcases hs with hs | hs <;> cases hs
    refine ⟨hw.note rfl ?_ (.of_quiet fun _ _ _ heq => by cases heq),
      (Later.write m.firedTotal hkept).trans (.note rfl)⟩
    -- the intent the CANCEL names is the one that was written
    intro k' r' intent' hk' hr' hc
    obtain rfl : k = k' := by simpa [Seen.cancels, ok] using hc
    obtain ⟨hk, -⟩ := Memory.lookup_eq_some.mp hlookup
    obtain rfl := JsMap.value_unique hk hk'
    dsimp only at hr'
    rw [Memory.update_heap, if_pos rfl] at hr'
    obtain ⟨old, -, rfl⟩ := Option.map_eq_some_iff.mp hr'
    rfl
  | @collected _ k r intent hname hlookup hstate =>
    obtain ⟨hk, hr⟩ := Memory.lookup_eq_some.mp hlookup
    have hb := h.backed k r intent hk hr
    have hw := h.write m.firedTotal (r := r) Intent.collect_kept (fun _ => Or.inl rfl) (by
      intro k' i hk' hi _
      rw [hr, Option.some.injEq] at hi
      obtain rfl := hi
      obtain rfl := h.sound.ref_unique hk hk'
      exact hb.opened hstate)
    refine ⟨hw.note rfl ?_ ?_, (Later.write m.firedTotal Intent.collect_kept).trans (.note rfl)⟩
    · intro k' r' i _ _ hc
      cases hc
    · rintro msg' k' b t heq hname' hne
      simp only [ok, Seen.reply.injEq, Except.ok.injEq, Payload.released.injEq, true_and] at heq
      obtain ⟨rfl, rfl, rfl⟩ := heq
      rw [hname, Except.ok.injEq] at hname'
      obtain rfl := hname'
      obtain ⟨req, hlast, htrigger, hdeadline⟩ := hb.armed
      refine ⟨hb.hash hne, req, hlast, ?_, hb.kept hne⟩
      rw [htrigger, hdeadline]
      exact hb.opened hstate

end Request

/-! ## 5. The tick -/

/-- The specification of the code of the enclave. -/
def spec (o : Options) : Async.Spec sig world := ⟨Inv o, Later o, Later o, fun _ _ _ => True⟩

theorem check_waits {trigger : Trigger} {now : ℚ} {s s' : St sig world}
    (h : Waits (spec o) (.check trigger now) s s') : Later o s s' :=
  h.rely_of_atomic Later.refl (fun _ _ _ => Later.trans) fun _ => rfl

/-- A suspended tick finds the trigger and the deadline it read. -/
theorem Later.find {s s' : St sig world} (h : Later o s s') {r : Ref} {intent i : Intent}
    (hr : s.mem.heap[r]? = some intent) (hr' : s'.mem.heap[r]? = some i) : intent.Kept i := by
  obtain ⟨i', hi', hkept⟩ := h.kept r intent hr
  rw [hr', Option.some.injEq] at hi'
  exact hi' ▸ hkept

/-- A reading just made was made since the last ARM. -/
theorem reading_since (o : Options) (k : Str) (seen : List Seen) (trigger : Trigger) (now : ℚ) :
    Seen.reading trigger now true ∈ sinceArm o k (.reading trigger now true :: seen) := by
  rw [sinceArm_of_none seen rfl]
  exact List.mem_cons_self

theorem tickOne_spec (r : Ref) (now : ℚ) {s : St sig world} (hi : Inv o s) :
    wp (spec o) (tickOne r now) (fun _ s' => Inv o s') s := by
  obtain ⟨m, seen⟩ := s
  refine wp_bind (wp_gets ?_)
  simp only [bindPost]
  split
  case h_1 => exact wp_pure hi
  case h_2 intent hr =>
    unfold evaluate
    split_ifs with hstate hdue
    · exact wp_pure hi
    · -- the intent expires
      have hw := hi.write m.firedTotal (r := r) (Intent.drop_kept .expired) (fun _ => Or.inr rfl)
        fun _ _ _ _ hs => by rcases hs with hs | hs <;> cases hs
      exact wp_modify hw (Later.write m.firedTotal (Intent.drop_kept .expired)) hw
    · refine wp_bind (wp_call (fun s₁ w _ _ hw => by cases hw) ?_)
      intro s₁ c res w hwaits hi₁ _ hper
      have hl₁ := check_waits hwaits
      cases c with
      | error e =>
        cases hper
        exact ⟨hi₁, .refl _, fun s₂ _ hi₂ => hi₂⟩
      | ok fired =>
        cases hper
        have hnote : Inv o ⟨s₁.mem, .reading intent.trigger now fired :: s₁.world⟩ :=
          hi₁.note rfl (fun _ _ _ _ _ hc => by cases hc) (.of_quiet fun _ _ _ heq => by cases heq)
        have hlater : Later o s₁ ⟨s₁.mem, .reading intent.trigger now fired :: s₁.world⟩ :=
          .note rfl
        refine ⟨hnote, hlater, fun s₂ hl₂ hi₂ => ?_⟩
        simp only [bindPost]
        cases fired with
        | false => exact wp_pure hi₂
        | true =>
          obtain ⟨m₂, seen₂⟩ := s₂
          have hw := hi₂.write (m₂.firedTotal + 1) (r := r) (Intent.fire_kept now)
            (fun _ => Or.inl rfl) (by
              -- the reading was seen since the ARM of the object, if the map still has it
              intro k i hk hir _
              have hlen : r < s₁.mem.heap.length :=
                hl₁.length (List.getElem?_eq_some_iff.mp hr).1
              have hkept : intent.Kept i := (hl₁.trans (hlater.trans hl₂)).find hr hir
              obtain ⟨-, hsub⟩ := hl₂.since k r hk hlen
              refine ⟨now, ?_, ?_⟩
              · rw [hkept.trigger]
                exact hsub _ (reading_since o k s₁.world _ now)
              · rw [hkept.deadline]
                exact Rat.not_le.mp hdue)
          refine wp_bind (wp_modify hw (Later.write (m₂.firedTotal + 1) (Intent.fire_kept now)) ?_)
          exact wp_lift hw

/-- The discipline of the seal: every task relies on what every other guarantees. -/
def discipline (o : Options) : Discipline (machine o) Unit where
  kind := fun _ => ()
  excl := fun _ => False
  inv := Inv o
  rely := fun _ => Later o
  guar := fun _ => Later o
  adm := fun _ _ _ _ => True
  pre := fun _ _ => True
  idle := fun _ _ => True

theorem discipline_sound (o : Options) : (discipline o).Sound where
  rely_refl := fun _ => .refl
  rely_trans := fun _ _ _ _ => .trans
  guar_refl := fun _ => .refl
  guar_trans := fun _ _ _ _ => .trans
  compat := fun _ _ _ _ _ h => h
  pre_stable := fun _ _ _ _ _ _ => trivial
  idle_stable := fun _ _ _ _ _ _ => trivial
  idle_open := fun _ _ _ => trivial
  code := by
    intro l s hi _
    cases l with
    | tick now => exact wp_pure ⟨rfl, trivial⟩
    | next place now =>
      refine wp_bind (wp_gets ?_)
      simp only [bindPost]
      split
      · exact wp_pure trivial
      · exact wp_pure ⟨rfl, trivial⟩
      · exact wp_pure ⟨rfl, trivial⟩
    | visit r place now =>
      refine wp_seq (tickOne_spec r now hi) ?_ ?_
      · intro _ s' _
        exact wp_pure ⟨rfl, trivial⟩
      · intro _ s' _
        trivial

/-- Everything outside the ticks keeps the seal too. -/
theorem outside_inv {m : Memory} {seen : List Seen} (h : Inv o ⟨m, seen⟩) (x : Ext) :
    Inv o ⟨(outside o x m seen).1, (outside o x m seen).2⟩ ∧
      Later o ⟨m, seen⟩ ⟨(outside o x m seen).1, (outside o x m seen).2⟩ := by
  cases x with
  | request command msg => exact request_inv h command msg
  | state =>
    exact ⟨h.note rfl (fun _ _ _ _ _ hc => by cases hc) (.of_quiet fun _ _ _ heq => by cases heq),
      .note rfl⟩
  | clock now => exact ⟨⟨⟨h.sound.refs, h.sound.hashed, h.sound.counted⟩, h.backed, h.told⟩,
      ⟨fun r intent hr => ⟨intent, hr, .refl intent⟩, fun k r hk _ => ⟨hk, fun _ he => he⟩⟩⟩

theorem boot_inv (o : Options) (now : ℚ) {seen : List Seen} (htold : Throughout (Sealed o) seen) :
    Inv o ⟨Memory.boot now, seen⟩ :=
  ⟨Memory.boot_sound o now, fun k r _ hk => by simp [Memory.boot] at hk, htold⟩

/-- **The invariant holds along every run**, whatever requests come in, however ticks overlap, and
whatever their checks say. -/
theorem inv_run {ok : Event o → Sys o → Prop} {now : ℚ} {s : Sys o}
    (hrun : Run ok (Sys.fresh o now) s) : Inv o s.st := by
  have h₀ : (discipline o).Ok (Sys.fresh o now) :=
    .init (boot_inv o now (.nil _)) fun _ => trivial
  refine ((discipline_sound o).run h₀ (hrun.mono ?_)).inv
  intro e s _
  cases e with
  | spawn l => exact ⟨fun h => h.elim, fun _ _ => trivial⟩
  | perform i c => exact fun _ _ _ _ => trivial
  | disturb i => trivial
  | resume i => trivial
  | outside x =>
    intro hi
    obtain ⟨hi', hl⟩ := outside_inv hi x
    exact ⟨hi', fun _ _ _ => hl, fun _ _ => trivial⟩
  | crash => exact fun hi => ⟨boot_inv o _ hi.told, fun _ => trivial⟩

end Seal

/-! ## 6. The seal -/

/-- **Bytes come out only of an intent whose trigger has fired**: every release has an ARM before
it, a true reading of its trigger before the deadline, and no CANCEL since. -/
theorem collect_sealed {o : Options} {now : ℚ} {s : Sys o}
    (hrun : Run (fun _ _ => True) (Sys.fresh o now) s) {later earlier : List Seen} {msg k b : Str}
    {t : Option ℚ} (hseen : s.seen = later ++ .reply .collect msg (ok (.released b t)) :: earlier)
    (hname : namedCommitment o.engine msg = .ok k) (hb : b ≠ hexPrefix) :
    o.viem.keccak256 b = .ok k ∧ ∃ req, lastArm o k earlier = some req ∧
      (∃ now, Seen.reading req.trigger now true ∈ sinceArm o k earlier ∧ now < req.deadline) ∧
      ∀ e ∈ sinceArm o k earlier, e.cancels k = false :=
  (Seal.inv_run hrun).told later _ earlier hseen msg k b t rfl hname hb

namespace Sample

/-- The hex of a text and of a string between two texts, as a client sends them. -/
def message (before : String) (inner : Str) (after : String) : Str :=
  bytesToHex ((before.toList ++ inner ++ after.toList).map fun c => UInt8.ofNat c.toNat)

def commitment : Hex :=
  "0x3905d344717efd562447a4960eea941c1244adc31f53525d0ec1397ff6951c9c".toList

def options : Options where
  viem := ViemTables.viem { hashes := [("0xdead".toList, commitment)] }
  engine := {
    numbers := { value := fun t => (digitsValue 10 t).map fun n => (n : ℚ), text := fun _ => [] }
    syntaxError := fun _ =>
      "SyntaxError: Unexpected non-whitespace character after JSON at position 1".toList }

theorem viem_lawful : options.viem.Lawful :=
  ViemTables.Consistent.lawful ⟨by
    intro p hp
    rw [List.mem_singleton.mp hp]
    exact ⟨Bytes.hexDecodePrefix (commitment.drop 2), by decide +kernel, by decide +kernel⟩⟩

/-- `0xdead`, not before 5000, until 9000. -/
def armMessage : Str :=
  message "\x7b\"userOpData\":\"0xdead\",\"trigger\":\x7b\"kind\":\"TIME\",\"notBefore\":5000\x7d," []
    "\"deadline\":9000\x7d"

/-- `{"commitment":"0x…"}`. -/
def namedMessage : Str := message "\x7b\"commitment\":\"" commitment "\"\x7d"

/-- An intent is armed at 1000, fires at 6000 and is collected. -/
def collected : List (Event options) :=
  [.clock 1000, .request .arm armMessage, .clock 6000, .tick 6000, .resume 0, .resume 0,
    .resume 0, .answer 0 true, .resume 0, .resume 0, .request .collect namedMessage]

/-- What was seen before the bytes came out. -/
def beforeCollect : List Seen :=
  [.reading (.time 5000) 6000 true, .reply .arm armMessage (ok (.armed commitment false))]

end Sample

theorem collect_sealed_sample :
    Sample.options.viem.keccak256 "0xdead".toList = .ok Sample.commitment ∧
    ∃ req, lastArm Sample.options Sample.commitment Sample.beforeCollect = some req ∧
      (∃ now, Seen.reading req.trigger now true ∈
        sinceArm Sample.options Sample.commitment Sample.beforeCollect ∧ now < req.deadline) ∧
      ∀ e ∈ sinceArm Sample.options Sample.commitment Sample.beforeCollect,
        e.cancels Sample.commitment = false := by
  have hrun : (Async.Sys.run Sample.collected (Sys.fresh _ 0)).map Sys.seen =
      some (.reply .collect Sample.namedMessage (ok (.released "0xdead".toList (some 6000))) ::
        Sample.beforeCollect) := by decide +kernel
  obtain ⟨s, hs, hseen⟩ := Option.map_eq_some_iff.mp hrun
  have hname : namedCommitment Sample.options.engine Sample.namedMessage =
      .ok Sample.commitment := by decide +kernel
  have hsplit : Sys.seen s = [] ++ .reply .collect Sample.namedMessage
      (ok (.released "0xdead".toList (some 6000))) :: Sample.beforeCollect := hseen
  exact collect_sealed (Run.of_run Sample.collected (fun _ _ _ => trivial) hs) hsplit hname
    (by decide)

end OneSig.Latch
