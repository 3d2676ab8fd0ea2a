/-
# Two runs side by side

Two runs of one process whose data differ in some respect: the memories, the worlds, the
operations and their results correspond, and so do the labels, but they are not equal.  `Likeness`
says what corresponds to what.

`Twin` relates two programs that go through corresponding steps: they read and write corresponding
memories, await corresponding operations, and go on alike after corresponding results.  It has one
rule for each form of program, so a function is shown to be its own twin along its own text.

`Likeness.Sound` asks of a machine what a pair of runs needs: code of corresponding labels is a
twin, the world answers corresponding operations alike, and what others do to the world and to the
memory keeps the correspondence.  Then

* `Sound.step`: an event of the one run is an event of the other, and leads to corresponding
  systems;
* `Sound.run`: so is every run, by induction over its events, and the two systems correspond at
  its end, task by task.

This is noninterference in the usual sense: what an observer can compute from the second run he
can compute from the first, as long as the correspondence relates only what looks the same to him.
The relations are arbitrary.  They need not be symmetric, and the two sides of one relation may
have different types where the program's results do (`R : α → α' → Prop`).

An error that a task ends with is seen by nobody (`anyError`); one that is caught has to
correspond to the error the twin catches.
-/
import OneSig.Lib.Async.System
import OneSig.Lib.Pointwise

namespace Async

/-! ## 1. Programs -/

/-- What corresponds to what in two runs. -/
structure Likeness (S : Sig) where
  mem : S.Mem → S.Mem → Prop
  op : S.Op → S.Op → Prop
  res : (op op' : S.Op) → S.Res op → S.Res op' → Prop
  err : S.Err → S.Err → Prop

/-- Two results: values that correspond, or errors that do. -/
inductive ExceptRel {ε ε' α α' : Type} (E : ε → ε' → Prop) (R : α → α' → Prop) :
    Except ε α → Except ε' α' → Prop
  | ok {a : α} {a' : α'} (h : R a a') : ExceptRel E R (.ok a) (.ok a')
  | error {e : ε} {e' : ε'} (h : E e e') : ExceptRel E R (.error e) (.error e')

theorem ExceptRel.refl {ε α : Type} (x : Except ε α) : ExceptRel Eq Eq x x := by
  cases x with
  | ok a => exact .ok rfl
  | error e => exact .error rfl

variable {S : Sig} {α α' β β' : Type}

/-- Two programs that go through corresponding steps, to results in `R` or errors in `E`. -/
inductive Twin (L : Likeness S) (E : S.Err → S.Err → Prop) (R : α → α' → Prop) :
    Prog S α → Prog S α' → Prop
  | ret {a : α} {a' : α'} (h : R a a') : Twin L E R (.ret a) (.ret a')
  | throw {e e' : S.Err} (h : E e e') : Twin L E R (.throw e) (.throw e')
  | get {k : S.Mem → Prog S α} {k' : S.Mem → Prog S α'}
      (h : ∀ m m', L.mem m m' → Twin L E R (k m) (k' m')) : Twin L E R (.get k) (.get k')
  | set {m m' : S.Mem} {p : Prog S α} {p' : Prog S α'} (hm : L.mem m m')
      (h : Twin L E R p p') : Twin L E R (.set m p) (.set m' p')
  | await {op op' : S.Op} {k : Except S.Err (S.Res op) → Prog S α}
      {k' : Except S.Err (S.Res op') → Prog S α'} (hop : L.op op op')
      (h : ∀ r r', ExceptRel L.err (L.res op op') r r' → Twin L E R (k r) (k' r')) :
      Twin L E R (.await op k) (.await op' k')

section Rules

variable {L : Likeness S} {E E' : S.Err → S.Err → Prop} {R : α → α' → Prop} {Q : β → β' → Prop}

theorem twin_pure {a : α} {a' : α'} (h : R a a') : Twin L E R (pure a) (pure a') := .ret h

theorem twin_lift {x : Except S.Err α} {x' : Except S.Err α'} (h : ExceptRel E R x x') :
    Twin L E R (.lift x) (.lift x') := by
  cases h with
  | ok h => exact .ret h
  | error h => exact .throw h

theorem twin_gets {f : S.Mem → α} {f' : S.Mem → α'} (h : ∀ m m', L.mem m m' → R (f m) (f' m')) :
    Twin L E R (.gets f) (.gets f') := .get fun m m' hm => .ret (h m m' hm)

theorem twin_modify {f f' : S.Mem → S.Mem} (h : ∀ m m', L.mem m m' → L.mem (f m) (f' m'))
    {R : Unit → Unit → Prop} (hR : R () ()) : Twin L E R (.modify f) (.modify f') :=
  .get fun m m' hm => .set (h m m' hm) (.ret hR)

theorem twin_call {op op' : S.Op} (hop : L.op op op') (hE : ∀ e e', L.err e e' → E e e') :
    Twin L E (L.res op op') (.call op) (.call op') := by
  refine .await hop fun r r' hr => ?_
  cases hr with
  | ok h => exact .ret h
  | error h => exact .throw (hE _ _ h)

theorem twin_mono {R' : α → α' → Prop} {p : Prog S α} {p' : Prog S α'} (h : Twin L E R p p')
    (hE : ∀ e e', E e e' → E' e e') (hR : ∀ a a', R a a' → R' a a') : Twin L E' R' p p' := by
  induction h with
  | ret h => exact .ret (hR _ _ h)
  | throw h => exact .throw (hE _ _ h)
  | get _ ih => exact .get ih
  | set hm _ ih => exact .set hm ih
  | await hop _ ih => exact .await hop ih

/-- A program, then another on its result. -/
theorem twin_bind {p : Prog S α} {p' : Prog S α'} {f : α → Prog S β} {f' : α' → Prog S β'}
    (hp : Twin L E R p p') (hf : ∀ a a', R a a' → Twin L E Q (f a) (f' a')) :
    Twin L E Q (p >>= f) (p' >>= f') := by
  simp only [Prog.bind_eq]
  induction hp with
  | ret h => exact hf _ _ h
  | throw h => exact .throw h
  | get _ ih => exact .get ih
  | set hm _ ih => exact .set hm ih
  | await hop _ ih => exact .await hop ih

theorem twin_tryCatch {p : Prog S α} {p' : Prog S α'} {h : S.Err → Prog S α}
    {h' : S.Err → Prog S α'} (hp : Twin L E R p p')
    (hh : ∀ e e', E e e' → Twin L E' R (h e) (h' e')) :
    Twin L E' R (p.tryCatch h) (p'.tryCatch h') := by
  induction hp with
  | ret h => exact .ret h
  | throw he => exact hh _ _ he
  | get _ ih => exact .get ih
  | set hm _ ih => exact .set hm ih
  | await hop _ ih => exact .await hop ih

/-- **Running up to the next `await` keeps twins**: two programs that correspond stop at
operations that do, in memories that do. -/
theorem Twin.advance {p : Prog S α} {p' : Prog S α'} (h : Twin L E R p p') {m m' : S.Mem}
    (hm : L.mem m m') : L.mem (p.advance m).1 (p'.advance m').1 ∧
      Twin L E R (p.advance m).2 (p'.advance m').2 := by
  induction h generalizing m m' with
  | ret h => exact ⟨hm, .ret h⟩
  | throw h => exact ⟨hm, .throw h⟩
  | get _ ih => exact ih m m' hm hm
  | set hm' _ ih => exact ih hm'
  | await hop h _ => exact ⟨hm, .await hop h⟩

end Rules

/-! ## 2. Processes -/

variable {W : World S}

/-- What corresponds to what in two runs of a machine. -/
structure Likeness.Of (M : Machine S W) extends Likeness S where
  world : W.State → W.State → Prop
  label : M.Label → M.Label → Prop
  choice : W.Choice → W.Choice → Prop
  ext : M.Ext → M.Ext → Prop

/-- Whatever a task throws at its end, nobody catches it. -/
def anyError (_ _ : S.Err) : Prop := True

namespace Likeness.Of

variable {M : Machine S W}

/-- The code, the world and the influences from outside agree with the correspondence. -/
structure Sound (L : Likeness.Of M) : Prop where
  code : ∀ l l', L.label l l' →
    Twin L.toLikeness anyError (Option.Rel L.label) (M.code l) (M.code l')
  perform : ∀ op op' c c' w w', L.op op op' → L.choice c c' → L.world w w' →
    Option.Rel (fun x x' => ExceptRel L.err (L.res op op') x.1 x'.1 ∧ L.world x.2 x'.2)
      (W.perform op c w) (W.perform op' c' w')
  disturb : ∀ op op' w w', L.op op op' → L.world w w' →
    Option.Rel L.world (W.disturb op w) (W.disturb op' w')
  outside : ∀ x x' m m' w w', L.ext x x' → L.mem m m' → L.world w w' →
    L.mem (M.outside x m w).1 (M.outside x' m' w').1 ∧
      L.world (M.outside x m w).2 (M.outside x' m' w').2
  boot : ∀ m m', L.mem m m' → L.mem (M.boot m) (M.boot m')

/-- What happens in the two runs. -/
inductive SameEvent (L : Likeness.Of M) : Event M → Event M → Prop
  | spawn {l l' : M.Label} (h : L.label l l') : SameEvent L (.spawn l) (.spawn l')
  | perform (i : Nat) {c c' : W.Choice} (h : L.choice c c') :
      SameEvent L (.perform i c) (.perform i c')
  | disturb (i : Nat) : SameEvent L (.disturb i) (.disturb i)
  | resume (i : Nat) : SameEvent L (.resume i) (.resume i)
  | outside {x x' : M.Ext} (h : L.ext x x') : SameEvent L (.outside x) (.outside x')
  | crash : SameEvent L .crash .crash

/-- Two tasks at corresponding points. -/
structure SameTask (L : Likeness.Of M) (t t' : Task M) : Prop where
  label : L.label t.label t'.label
  prog : Twin L.toLikeness anyError (Option.Rel L.label) t.prog t'.prog

/-- Two systems at corresponding points. -/
structure SameSys (L : Likeness.Of M) (s s' : Sys M) : Prop where
  mem : L.mem s.mem s'.mem
  world : L.world s.world s'.world
  tasks : List.Forall₂ L.SameTask s.tasks s'.tasks

variable {L : Likeness.Of M}

theorem Sound.start (hL : L.Sound) {l l' : M.Label} (h : L.label l l') :
    L.SameTask (Task.start l) (Task.start l') := ⟨h, hL.code l l' h⟩

theorem Sound.next (hL : L.Sound) {l l' : M.Label} (hl : L.label l l')
    {p p' : Prog S (Option M.Label)}
    (h : Twin L.toLikeness anyError (Option.Rel L.label) p p') :
    L.SameTask (Task.next l p) (Task.next l' p') := by
  cases h with
  | ret hr =>
    cases hr with
    | none => exact ⟨hl, .ret .none⟩
    | some h => exact hL.start h
  | throw h => exact ⟨hl, .throw h⟩
  | get h => exact ⟨hl, .get h⟩
  | set hm h => exact ⟨hl, .set hm h⟩
  | await hop h => exact ⟨hl, .await hop h⟩

/-- **A step of the one run is a step of the other**: whatever event takes the first system on, an
event that corresponds takes the second one on, to systems that are alike. -/
theorem Sound.step (hL : L.Sound) {s s' s₁ : Sys M} (h : L.SameSys s s') {e e' : Event M}
    (he : L.SameEvent e e') (hstep : s.step e = some s₁) :
    ∃ s₁', s'.step e' = some s₁' ∧ L.SameSys s₁ s₁' := by
  cases he with
  | spawn hl =>
    cases hstep
    exact ⟨_, rfl, h.mem, h.world, List.rel_append h.tasks (.cons (hL.start hl) .nil)⟩
  | perform i hc =>
    have ht := List.forall₂_getElem? h.tasks i
    simp only [Sys.step] at hstep ⊢
    generalize s.tasks[i]? = x at ht hstep
    generalize s'.tasks[i]? = x' at ht
    cases ht with
    | none => cases hstep
    | @some t t' ht =>
      obtain ⟨l, p⟩ := t
      obtain ⟨l', p'⟩ := t'
      obtain ⟨hl, hp⟩ := ht
      dsimp only at hl hp hstep ⊢
      cases hp with
      | ret => cases hstep
      | throw => cases hstep
      | get => cases hstep
      | set => cases hstep
      | @await op op' k k' hop hk =>
        have hper := hL.perform op op' _ _ _ _ hop hc h.world
        dsimp only at hstep ⊢
        obtain ⟨y, hy, rfl⟩ := Option.map_eq_some_iff.mp hstep
        rw [hy] at hper
        generalize W.perform op' _ s'.world = z at hper
        cases hper with
        | @some _ y' hy' =>
          exact ⟨_, rfl, h.mem, hy'.2, List.forall₂_set ⟨hl, hk _ _ hy'.1⟩ h.tasks i⟩
  | disturb i =>
    have ht := List.forall₂_getElem? h.tasks i
    simp only [Sys.step] at hstep ⊢
    generalize s.tasks[i]? = x at ht hstep
    generalize s'.tasks[i]? = x' at ht
    cases ht with
    | none => cases hstep
    | @some t t' ht =>
      obtain ⟨l, p⟩ := t
      obtain ⟨l', p'⟩ := t'
      obtain ⟨-, hp⟩ := ht
      dsimp only at hp hstep ⊢
      cases hp with
      | ret => cases hstep
      | throw => cases hstep
      | get => cases hstep
      | set => cases hstep
      | @await op op' k k' hop hk =>
        have hdist := hL.disturb op op' _ _ hop h.world
        dsimp only at hstep ⊢
        obtain ⟨w, hw, rfl⟩ := Option.map_eq_some_iff.mp hstep
        rw [hw] at hdist
        generalize W.disturb op' s'.world = z at hdist
        cases hdist with
        | some hw' => exact ⟨_, rfl, h.mem, hw', h.tasks⟩
  | resume i =>
    have ht := List.forall₂_getElem? h.tasks i
    simp only [Sys.step] at hstep ⊢
    generalize s.tasks[i]? = x at ht hstep
    generalize s'.tasks[i]? = x' at ht
    cases ht with
    | none => cases hstep
    | @some t t' ht =>
      cases hstep
      obtain ⟨hmem, hprog⟩ := ht.prog.advance h.mem
      exact ⟨_, rfl, hmem, h.world, List.forall₂_set (hL.next ht.label hprog) h.tasks i⟩
  | outside hx =>
    cases hstep
    obtain ⟨hmem, hworld⟩ := hL.outside _ _ _ _ _ _ hx h.mem h.world
    exact ⟨_, rfl, hmem, hworld, h.tasks⟩
  | crash =>
    cases hstep
    exact ⟨_, rfl, hL.boot _ _ h.mem, h.world, .nil⟩

/-- **A run of the one is a run of the other**, by induction over the events: event by event they
correspond, and so do the systems they lead to. -/
theorem Sound.run (hL : L.Sound) {es es' : List (Event M)} (hes : List.Forall₂ L.SameEvent es es')
    {s s' s₁ : Sys M} (h : L.SameSys s s') (hrun : Sys.run es s = some s₁) :
    ∃ s₁', Sys.run es' s' = some s₁' ∧ L.SameSys s₁ s₁' := by
  induction hes generalizing s s' with
  | nil =>
    cases hrun
    exact ⟨s', rfl, h⟩
  | cons he _ ih =>
    obtain ⟨s₂, hstep, hrest⟩ := Option.bind_eq_some_iff.mp hrun
    obtain ⟨s₂', hstep', h₂⟩ := hL.step h he hstep
    obtain ⟨s₁', hrun', h₁⟩ := ih h₂ hrest
    refine ⟨s₁', ?_, h₁⟩
    rw [Sys.run, hstep', Option.bind_some, hrun']

end Likeness.Of

end Async
