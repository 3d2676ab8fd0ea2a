/-
# Synchronous sections

Between two `await`s a program runs alone.  `Sections G L p` says what each of these sections does
to the memory, however the operations before it were answered and whatever the others have made of
the memory meanwhile: `G` relates the memory at the two ends of a section that stops at an
`await`, and `L` those of the last one, with its result.

A specification like this excludes no interleaving and assumes nothing of the other tasks.  It is
weaker than a Hoare triple in one respect, since nothing read in an earlier section is known to
hold in a later one, and stronger in another: it needs no conditions that others would have to
keep.  It is the right tool for what a section does by itself, such as counting up and taking a
turn, or leaving a part of the memory alone.

* `section_bind`, `section_tryCatch`, `section_gets`, `section_modify` and `section_advance` are
  the rules, one for each form of program, so a specification is shown along the program's own
  text.
* `Spares f p` is the special case in which no section changes `f` of the memory, with its own
  small set of rules; `exec_spares` carries it to a program that runs on its own.
* `Sectioned` gives a specification to each label of a machine.  `Sectioned.step` says what an
  event can then do to a process: a task is added, or one section of one task is run as its label
  says, or only the world changes.

What all the tasks of a process keep together is an invariant of the process as a whole, which
sees the labels of the tasks; it is proved from `Sectioned.step` by looking at one event.
-/
import OneSig.Lib.Async.Exec

namespace Async

variable {S : Sig} {W : World S} {α β : Type}

/-! ## 1. What the sections of a program do -/

/-- A section that was entered with memory `m₀` and has come to memory `m`, and all later ones. -/
def Section (G : S.Mem → S.Mem → Prop) (L : S.Mem → Except S.Err α → S.Mem → Prop) :
    Prog S α → S.Mem → S.Mem → Prop
  | .ret a, m₀, m => L m₀ (.ok a) m
  | .throw e, m₀, m => L m₀ (.error e) m
  | .get k, m₀, m => Section G L (k m) m₀ m
  | .set m p, m₀, _ => Section G L p m₀ m
  | .await _ k, m₀, m => G m₀ m ∧ ∀ r m', Section G L (k r) m' m'

/-- All sections of a program. -/
def Sections (G : S.Mem → S.Mem → Prop) (L : S.Mem → Except S.Err α → S.Mem → Prop)
    (p : Prog S α) : Prop := ∀ m, Section G L p m m

section Rules

variable {G : S.Mem → S.Mem → Prop} {L : S.Mem → Except S.Err α → S.Mem → Prop} {m₀ m : S.Mem}

theorem section_lift {x : Except S.Err α} (h : L m₀ x m) : Section G L (.lift x) m₀ m := by
  cases x <;> exact h

theorem section_bind {R : S.Mem → Except S.Err β → S.Mem → Prop} {p : Prog S β}
    {f : β → Prog S α} (hp : Section G R p m₀ m)
    (hok : ∀ b m₀ m, R m₀ (.ok b) m → Section G L (f b) m₀ m)
    (herr : ∀ e m₀ m, R m₀ (.error e) m → L m₀ (.error e) m) : Section G L (p >>= f) m₀ m := by
  rw [Prog.bind_eq]
  induction p generalizing m₀ m with
  | ret b => exact hok b _ _ hp
  | throw e => exact herr e _ _ hp
  | get k ih => exact ih _ hp
  | set m' p ih => exact ih hp
  | await op k ih => exact ⟨hp.1, fun r m' => ih r (hp.2 r m')⟩

theorem section_tryCatch {R : S.Mem → Except S.Err α → S.Mem → Prop} {p : Prog S α}
    {h : S.Err → Prog S α} (hp : Section G R p m₀ m)
    (hok : ∀ a m₀ m, R m₀ (.ok a) m → L m₀ (.ok a) m)
    (herr : ∀ e m₀ m, R m₀ (.error e) m → Section G L (h e) m₀ m) :
    Section G L (p.tryCatch h) m₀ m := by
  induction p generalizing m₀ m with
  | ret a => exact hok a _ _ hp
  | throw e => exact herr e _ _ hp
  | get k ih => exact ih _ hp
  | set m' p ih => exact ih hp
  | await op k ih => exact ⟨hp.1, fun r m' => ih r (hp.2 r m')⟩

/-- Reading the memory, with what follows. -/
theorem section_gets {f : S.Mem → β} {k : β → Prog S α} (h : Section G L (k (f m)) m₀ m) :
    Section G L (Prog.gets f >>= k) m₀ m := h

/-- A write to the memory, with what follows. -/
theorem section_modify {f : S.Mem → S.Mem} {k : Unit → Prog S α}
    (h : Section G L (k ()) m₀ (f m)) : Section G L (Prog.modify f >>= k) m₀ m := h

/-- Running up to the next `await`. -/
theorem section_advance {p : Prog S α} (h : Section G L p m₀ m) :
    Section G L (p.advance m).2 m₀ (p.advance m).1 := by
  induction p generalizing m₀ m with
  | ret a => exact h
  | throw e => exact h
  | get k ih => exact ih _ h
  | set m' p ih => exact ih h
  | await op k _ => exact h

end Rules

/-! ## 2. Programs that leave something alone -/

/-- No section of the program changes this part of the memory. -/
def Spares {X : Type} (f : S.Mem → X) (p : Prog S α) : Prop :=
  ∀ m₀ m, f m = f m₀ →
    Section (fun m₀ m => f m = f m₀) (fun m₀ _ m => f m = f m₀) p m₀ m

section Spares

variable {X : Type} {f : S.Mem → X}

theorem spares_pure (a : α) : Spares f (pure a : Prog S α) := fun _ _ h => h

theorem spares_lift (x : Except S.Err α) : Spares f (Prog.lift x) :=
  fun _ _ h => section_lift h

theorem spares_gets (g : S.Mem → α) : Spares f (Prog.gets g) := fun _ _ h => h

theorem spares_modify {g : S.Mem → S.Mem} (hg : ∀ m, f (g m) = f m) :
    Spares f (Prog.modify g) := fun _ _ h => (hg _).trans h

theorem spares_call (op : S.Op) : Spares f (Prog.call op) := by
  intro m₀ m h
  refine ⟨h, fun r m' => ?_⟩
  cases r <;> rfl

theorem spares_bind {p : Prog S β} {k : β → Prog S α} (hp : Spares f p) (hk : ∀ b, Spares f (k b)) :
    Spares f (p >>= k) :=
  fun m₀ m h => section_bind (hp m₀ m h) (fun b m₀ m hb => hk b m₀ m hb) fun _ _ _ he => he

theorem spares_tryCatch {p : Prog S α} {h : S.Err → Prog S α} (hp : Spares f p)
    (hh : ∀ e, Spares f (h e)) : Spares f (p.tryCatch h) :=
  fun m₀ m hm => section_tryCatch (hp m₀ m hm) (fun _ _ _ ha => ha) fun e m₀ m he => hh e m₀ m he

/-- A program on its own leaves it alone as well. -/
theorem exec_spares {D : Type} {drift : D → S.Mem → S.Mem} (hdrift : ∀ d m, f (drift d m) = f m)
    {p : Prog S α} (hp : Spares f p) {answers : List (W.Choice × D)} {s : St S W}
    {out : Outcome S W D α} (h : exec drift p answers s = some out) : f out.st.mem = f s.mem := by
  have hrun : ∀ m₀, Section (fun m₀ m => f m = f m₀) (fun m₀ _ m => f m = f m₀) p m₀ s.mem →
      f out.st.mem = f m₀ := by
    clear hp
    induction p generalizing answers s out with
    | ret a =>
      cases h
      exact fun _ hsection => hsection
    | throw e =>
      cases h
      exact fun _ hsection => hsection
    | get k ih => exact fun m₀ hsection => ih _ h m₀ hsection
    | set m p ih => exact fun m₀ hsection => ih h m₀ hsection
    | await op k ih =>
      intro m₀ hsection
      cases answers with
      | nil => cases h
      | cons answer answers =>
        obtain ⟨c, d⟩ := answer
        obtain ⟨rw, -, hk⟩ := Option.bind_eq_some_iff.mp h
        obtain ⟨out', hout', rfl⟩ := Option.map_eq_some_iff.mp hk
        have hrest := ih _ hout' _ (hsection.2 rw.1 (drift d s.mem))
        exact (hrest.trans (hdrift d s.mem)).trans hsection.1
  exact hrun s.mem (hp s.mem s.mem rfl)

end Spares

/-! ## 3. A process -/

/-- What the sections of each label's code do. -/
structure Sectioned (M : Machine S W) where
  G : M.Label → S.Mem → S.Mem → Prop
  L : M.Label → S.Mem → Except S.Err (Option M.Label) → S.Mem → Prop
  refl : ∀ l m, G l m m
  code : ∀ l, Sections (G l) (L l) (M.code l)

namespace Sectioned

variable {M : Machine S W} (D : Sectioned M)

/-- Every pending task goes on as its label says. -/
def Ok (s : Sys M) : Prop :=
  ∀ (i : Nat) t, s.tasks[i]? = some t → t.done = false →
    ∀ m, Section (D.G t.label) (D.L t.label) t.prog m m

/-- How a task can go on: it stops at an `await`, jumps, or ends. -/
inductive Moved (t : Task M) (m m' : S.Mem) : Task M → Prop
  | stopped (p : Prog S (Option M.Label)) : D.G t.label m m' → Moved t m m' ⟨t.label, p⟩
  | jumped (l : M.Label) : D.L t.label m (.ok (some l)) m' → Moved t m m' (Task.start l)
  | ended {res : Except S.Err (Option M.Label)} (t' : Task M) : t'.label = t.label →
      t'.done = true → (∀ l, res ≠ .ok (some l)) → D.L t.label m res m' → Moved t m m' t'

/-- What an event does to a process. -/
inductive Changed (s : Sys M) : Event M → Sys M → Prop
  | spawned (l : M.Label) : Changed s (.spawn l) { s with tasks := s.tasks ++ [Task.start l] }
  | answered {i : Nat} {c : W.Choice} {t t' : Task M} (w : W.State) : s.tasks[i]? = some t →
      t'.label = t.label → t.done = false →
      Changed s (.perform i c) { s with world := w, tasks := s.tasks.set i t' }
  | disturbed {i : Nat} (w : W.State) : Changed s (.disturb i) { s with world := w }
  | resumed {i : Nat} {t t' : Task M} (m : S.Mem) : s.tasks[i]? = some t → t.done = false →
      Moved D t s.mem m t' →
      Changed s (.resume i) { s with mem := m, tasks := s.tasks.set i t' }
  | idle {i : Nat} : Changed s (.resume i) s
  | outside (x : M.Ext) : Changed s (.outside x)
      { s with mem := (M.outside x s.mem s.world).1, world := (M.outside x s.mem s.world).2 }
  | crashed : Changed s .crash { s with mem := M.boot s.mem, tasks := [] }

variable {D}

theorem Ok.of_set {s : Sys M} (h : D.Ok s) {i : Nat} {t : Task M} {m : S.Mem} {w : W.State}
    (ht : t.done = false → ∀ m, Section (D.G t.label) (D.L t.label) t.prog m m) :
    D.Ok { mem := m, world := w, tasks := s.tasks.set i t } := by
  intro j t' hj hdone
  rw [List.getElem?_set] at hj
  split at hj
  · split at hj
    · cases hj
      exact ht hdone
    · cases hj
  · exact h j t' hj hdone

/-- **What an event does**: at most one task goes on, through one section and to the next wait,
and that section does what the label of the task says. -/
theorem step {s s' : Sys M} {e : Event M} (h : D.Ok s) (hst : s.step e = some s') :
    D.Ok s' ∧ Changed D s e s' := by
  cases e with
  | spawn l =>
    cases hst
    refine ⟨fun i t hi hdone => ?_, .spawned l⟩
    dsimp only at hi
    by_cases hlt : i < s.tasks.length
    · rw [List.getElem?_append_left hlt] at hi
      exact h i t hi hdone
    · rw [List.getElem?_append_right (Nat.not_lt.mp hlt)] at hi
      obtain rfl := List.mem_singleton.mp (List.mem_of_getElem? hi)
      exact D.code l
  | perform i c =>
    simp only [Sys.step] at hst
    split at hst
    case h_2 => cases hst
    case h_1 l op k hi =>
      obtain ⟨rw, -, rfl⟩ := Option.map_eq_some_iff.mp hst
      refine ⟨h.of_set fun _ m => ?_, .answered rw.2 hi rfl rfl⟩
      exact (h i _ hi rfl m).2 rw.1 m
  | disturb i =>
    simp only [Sys.step] at hst
    split at hst
    case h_2 => cases hst
    case h_1 l op k hi =>
      obtain ⟨w, -, rfl⟩ := Option.map_eq_some_iff.mp hst
      exact ⟨h, .disturbed w⟩
  | resume i =>
    have hres := hst
    simp only [Sys.step] at hst
    split at hst
    case h_2 => cases hst
    case h_1 l p hi =>
      by_cases hdone : Task.done ⟨l, p⟩ = true
      · obtain rfl := Sys.step_resume_done hi hdone hres
        exact ⟨h, .idle⟩
      · have hsec := section_advance (h i _ hi (eq_false_of_ne_true hdone) s.mem)
        have hstop := Prog.advance_stopped p s.mem
        cases hst
        generalize (p.advance s.mem).2 = q at hsec hstop
        generalize (p.advance s.mem).1 = m at hsec
        have hopen := eq_false_of_ne_true hdone
        cases q with
        | ret r =>
          cases r with
          | none =>
            exact ⟨h.of_set (fun hd => by cases hd),
              .resumed m hi hopen (.ended _ rfl rfl (fun l hl => by cases hl) hsec)⟩
          | some l' =>
            exact ⟨h.of_set fun _ => D.code l', .resumed m hi hopen (.jumped l' hsec)⟩
        | throw e =>
          exact ⟨h.of_set (fun hd => by cases hd),
            .resumed m hi hopen (.ended _ rfl rfl (fun l hl => by cases hl) hsec)⟩
        | await op k =>
          exact ⟨h.of_set fun _ m' => ⟨D.refl l m', hsec.2⟩,
            .resumed m hi hopen (.stopped _ hsec.1)⟩
        | _ => cases hstop
  | outside x =>
    cases hst
    exact ⟨h, .outside x⟩
  | crash =>
    cases hst
    exact ⟨fun _ _ h => (by simp at h), .crashed⟩

end Sectioned

end Async
