/-
# A rely/guarantee logic for the event loop

`wp sp p Q s` says that the program `p`, started in state `s`, meets the specification `sp`
whatever the environment answers and whatever other tasks do while `p` is suspended, and that
`Q` holds of its result when it settles.  A specification has four parts: the invariant every
task keeps at every write, what this task relies on while it is suspended, what it guarantees
at each of its own steps, and which answers of the environment are admitted.

`wp` is defined by recursion on the program, so each function of a process gets one lemma and
its callers cite that lemma through `wp_bind`.

A `Discipline` gives every label of a machine a kind, and every kind a specification.  A kind
can be exclusive: then a run may only start a task of that kind when the earlier ones are done,
and the tasks of that kind need not tolerate each other.  The main theorem of this file,
`Discipline.Sound.run`, says that a machine whose code meets its discipline keeps the invariant
along every allowed run, together with an assertion for each kind that holds whenever no task
of it is pending.
-/
import OneSig.Lib.Async.System

namespace Async

variable {S : Sig} {W : World S} {α β : Type}

/-- What one task promises and what it may assume. -/
structure Spec (S : Sig) (W : World S) where
  inv : St S W → Prop
  rely : St S W → St S W → Prop
  guar : St S W → St S W → Prop
  adm : S.Op → W.Choice → St S W → Prop

/-- What a task suspended at `op` can find when it looks next: the others have moved, and its
own operation in flight may have been seen half done. -/
inductive Waits (sp : Spec S W) (op : S.Op) : St S W → St S W → Prop
  | refl (s : St S W) : Waits sp op s s
  | rely {s s₁ s₂ : St S W} : Waits sp op s s₁ → sp.rely s₁ s₂ → sp.inv s₂ → Waits sp op s s₂
  | disturb {s s₁ : St S W} {w : W.State} : Waits sp op s s₁ →
      W.disturb op s₁.world = some w → Waits sp op s ⟨s₁.mem, w⟩

/-- The weakest precondition of a program under a specification. -/
def wp (sp : Spec S W) : Prog S α → (Except S.Err α → St S W → Prop) → St S W → Prop
  | .ret a, Q, s => Q (.ok a) s
  | .throw e, Q, s => Q (.error e) s
  | .get k, Q, s => wp sp (k s.mem) Q s
  | .set m p, Q, s =>
    sp.inv ⟨m, s.world⟩ ∧ sp.guar s ⟨m, s.world⟩ ∧ wp sp p Q ⟨m, s.world⟩
  | .await op k, Q, s => ∀ s₁, Waits sp op s s₁ → sp.inv s₁ →
    (∀ w, W.disturb op s₁.world = some w → sp.inv ⟨s₁.mem, w⟩ ∧ sp.guar s₁ ⟨s₁.mem, w⟩) ∧
    (∀ c r w, sp.adm op c s₁ → W.perform op c s₁.world = some (r, w) →
      sp.inv ⟨s₁.mem, w⟩ ∧ sp.guar s₁ ⟨s₁.mem, w⟩ ∧
      ∀ s₂, sp.rely ⟨s₁.mem, w⟩ s₂ → sp.inv s₂ → wp sp (k r) Q s₂)

section Rules

variable {sp : Spec S W} {Q Q' : Except S.Err α → St S W → Prop} {s : St S W}

/-! ## 1. Rules for the program forms -/

theorem wp_mono {p : Prog S α} (h : wp sp p Q s) (himp : ∀ r s, Q r s → Q' r s) :
    wp sp p Q' s := by
  induction p generalizing s with
  | ret a => exact himp _ _ h
  | throw e => exact himp _ _ h
  | get k ih => exact ih _ h
  | set m p ih => exact ⟨h.1, h.2.1, ih h.2.2⟩
  | await op k ih =>
    intro s₁ hr hi
    obtain ⟨hd, hp⟩ := h s₁ hr hi
    refine ⟨hd, fun c r w hc hpf => ?_⟩
    obtain ⟨h1, h2, h3⟩ := hp c r w hc hpf
    exact ⟨h1, h2, fun s₂ hr₂ hi₂ => ih r (h3 s₂ hr₂ hi₂)⟩

theorem wp_pure {a : α} (h : Q (.ok a) s) : wp sp (pure a) Q s := h

/-- What is left to show of `p >>= f` once `p` has settled. -/
def bindPost (sp : Spec S W) (f : α → Prog S β) (Q : Except S.Err β → St S W → Prop) :
    Except S.Err α → St S W → Prop
  | .ok a, s => wp sp (f a) Q s
  | .error e, s => Q (.error e) s

theorem wp_bind {p : Prog S α} {f : α → Prog S β} {Q : Except S.Err β → St S W → Prop}
    (h : wp sp p (bindPost sp f Q) s) : wp sp (p >>= f) Q s := by
  rw [Prog.bind_eq]
  induction p generalizing s with
  | ret a => exact h
  | throw e => exact h
  | get k ih => exact ih _ h
  | set m p ih => exact ⟨h.1, h.2.1, ih h.2.2⟩
  | await op k ih =>
    intro s₁ hr hi
    obtain ⟨hd, hp⟩ := h s₁ hr hi
    refine ⟨hd, fun c r w hc hpf => ?_⟩
    obtain ⟨h1, h2, h3⟩ := hp c r w hc hpf
    exact ⟨h1, h2, fun s₂ hr₂ hi₂ => ih r (h3 s₂ hr₂ hi₂)⟩

/-- Sequencing, with the first program's own postcondition in between. -/
theorem wp_seq {p : Prog S α} {f : α → Prog S β} {R : Except S.Err α → St S W → Prop}
    {Q : Except S.Err β → St S W → Prop} (h : wp sp p R s)
    (hok : ∀ a s', R (.ok a) s' → wp sp (f a) Q s')
    (herr : ∀ e s', R (.error e) s' → Q (.error e) s') : wp sp (p >>= f) Q s := by
  refine wp_bind (wp_mono h ?_)
  intro r s' hr
  cases r with
  | ok a => exact hok a s' hr
  | error e => exact herr e s' hr

/-- What is left to show of `tryCatch p h` once `p` has settled. -/
def catchPost (sp : Spec S W) (h : S.Err → Prog S α) (Q : Except S.Err α → St S W → Prop) :
    Except S.Err α → St S W → Prop
  | .ok a, s => Q (.ok a) s
  | .error e, s => wp sp (h e) Q s

theorem wp_tryCatch {p : Prog S α} {h : S.Err → Prog S α}
    (hp : wp sp p (catchPost sp h Q) s) : wp sp (p.tryCatch h) Q s := by
  induction p generalizing s with
  | ret a => exact hp
  | throw e => exact hp
  | get k ih => exact ih _ hp
  | set m p ih => exact ⟨hp.1, hp.2.1, ih hp.2.2⟩
  | await op k ih =>
    intro s₁ hr hi
    obtain ⟨hd, hpf⟩ := hp s₁ hr hi
    refine ⟨hd, fun c r w hc hper => ?_⟩
    obtain ⟨h1, h2, h3⟩ := hpf c r w hc hper
    exact ⟨h1, h2, fun s₂ hr₂ hi₂ => ih r (h3 s₂ hr₂ hi₂)⟩

theorem wp_gets {f : S.Mem → α} (h : Q (.ok (f s.mem)) s) : wp sp (.gets f) Q s := h

theorem wp_modify {f : S.Mem → S.Mem} {Q : Except S.Err Unit → St S W → Prop}
    (hi : sp.inv ⟨f s.mem, s.world⟩) (hg : sp.guar s ⟨f s.mem, s.world⟩)
    (h : Q (.ok ()) ⟨f s.mem, s.world⟩) : wp sp (.modify f) Q s := ⟨hi, hg, h⟩

theorem wp_lift {x : Except S.Err α} (h : Q x s) : wp sp (.lift x) Q s := by
  cases x with
  | ok a => exact h
  | error e => exact h

/-- The rule of `await`: tolerate what happens before the operation takes effect, show its
effects harmless, tolerate what happens until the task is resumed. -/
theorem wp_call {op : S.Op} {Q : Except S.Err (S.Res op) → St S W → Prop}
    (hd : ∀ s₁ w, Waits sp op s s₁ → sp.inv s₁ → W.disturb op s₁.world = some w →
      sp.inv ⟨s₁.mem, w⟩ ∧ sp.guar s₁ ⟨s₁.mem, w⟩)
    (hp : ∀ s₁ c r w, Waits sp op s s₁ → sp.inv s₁ → sp.adm op c s₁ →
      W.perform op c s₁.world = some (r, w) →
      sp.inv ⟨s₁.mem, w⟩ ∧ sp.guar s₁ ⟨s₁.mem, w⟩ ∧
      ∀ s₂, sp.rely ⟨s₁.mem, w⟩ s₂ → sp.inv s₂ → Q r s₂) : wp sp (.call op) Q s := by
  intro s₁ hr hi
  refine ⟨fun w hw => hd s₁ w hr hi hw, fun c r w hc hpf => ?_⟩
  obtain ⟨h1, h2, h3⟩ := hp s₁ c r w hr hi hc hpf
  refine ⟨h1, h2, fun s₂ hr₂ hi₂ => ?_⟩
  have hQ := h3 s₂ hr₂ hi₂
  cases r with
  | ok a => exact hQ
  | error e => exact hQ

/-- A program that meets a specification meets any other that relies on more, and asks of each
step no more than the first one guarantees. -/
theorem wp_weaken {sp sp' : Spec S W} {p : Prog S α}
    (hrely : ∀ s s', sp'.rely s s' → sp.rely s s') (hinv : ∀ s, sp'.inv s → sp.inv s)
    (hadm : ∀ op c s, sp'.adm op c s → sp.adm op c s)
    (hguar : ∀ s s', sp'.inv s → sp.guar s s' → sp.inv s' → sp'.inv s' ∧ sp'.guar s s')
    {s : St S W} (hi : sp'.inv s) (h : wp sp p Q s) : wp sp' p Q s := by
  have hwaits : ∀ op s s₁, Waits sp' op s s₁ → Waits sp op s s₁ := by
    intro op s s₁ hw
    induction hw with
    | refl => exact .refl _
    | rely _ hr hi₂ ih => exact .rely ih (hrely _ _ hr) (hinv _ hi₂)
    | disturb _ hd ih => exact .disturb ih hd
  induction p generalizing s with
  | ret a => exact h
  | throw e => exact h
  | get k ih => exact ih _ hi h
  | set m p ih =>
    obtain ⟨h1, h2⟩ := hguar _ _ hi h.2.1 h.1
    exact ⟨h1, h2, ih h1 h.2.2⟩
  | await op k ih =>
    intro s₁ hw hi₁
    obtain ⟨hd, hp⟩ := h s₁ (hwaits op s s₁ hw) (hinv _ hi₁)
    refine ⟨fun w hdis => ?_, fun c r w hc hper => ?_⟩
    · obtain ⟨h1, h2⟩ := hd w hdis
      exact hguar _ _ hi₁ h2 h1
    · obtain ⟨h1, h2, h3⟩ := hp c r w (hadm _ _ _ hc) hper
      obtain ⟨h1', h2'⟩ := hguar _ _ hi₁ h2 h1
      exact ⟨h1', h2', fun s₂ hr₂ hi₂ => ih r hi₂ (h3 s₂ (hrely _ _ hr₂) (hinv _ hi₂))⟩

/-- An operation that is never seen half done is waited for under the rely condition alone. -/
theorem Waits.rely_of_atomic {op : S.Op} (hrefl : ∀ s, sp.rely s s)
    (htrans : ∀ s s' s'', sp.rely s s' → sp.rely s' s'' → sp.rely s s'')
    (hop : ∀ w, W.disturb op w = none) {s s' : St S W} (h : Waits sp op s s') : sp.rely s s' := by
  induction h with
  | refl => exact hrefl _
  | rely _ hr _ ih => exact htrans _ _ _ ih hr
  | disturb _ hd _ => rw [hop] at hd; simp at hd

theorem Waits.trans {op : S.Op} {s s' s'' : St S W} (h : Waits sp op s s')
    (h' : Waits sp op s' s'') : Waits sp op s s'' := by
  induction h' with
  | refl => exact h
  | rely _ hr hi ih => exact .rely ih hr hi
  | disturb _ hd ih => exact .disturb ih hd

/-- What every own step and every step of the others keeps, the whole program keeps. -/
theorem wp_rel {T : St S W → St S W → Prop} (hrefl : ∀ s, T s s)
    (htrans : ∀ s s' s'', T s s' → T s' s'' → T s s'') (hguar : ∀ s s', sp.guar s s' → T s s')
    (hrely : ∀ s s', sp.rely s s' → T s s') {p : Prog S α} (hi : sp.inv s) (h : wp sp p Q s) :
    wp sp p (fun r s' => Q r s' ∧ T s s') s := by
  induction p generalizing s with
  | ret a => exact ⟨h, hrefl s⟩
  | throw e => exact ⟨h, hrefl s⟩
  | get k ih => exact ih _ hi h
  | set m p ih =>
    refine ⟨h.1, h.2.1, wp_mono (ih h.1 h.2.2) ?_⟩
    rintro r s' ⟨hQ, hT⟩
    exact ⟨hQ, htrans _ _ _ (hguar _ _ h.2.1) hT⟩
  | await op k ih =>
    have hwaits : ∀ s₁, Waits sp op s s₁ → T s s₁ ∧ sp.inv s₁ := by
      intro s₁ hw
      induction hw with
      | refl => exact ⟨hrefl s, hi⟩
      | rely _ hr hi₂ ih => exact ⟨htrans _ _ _ ih.1 (hrely _ _ hr), hi₂⟩
      | disturb hw hd ih =>
        obtain ⟨hi₂, hg⟩ := (h _ hw ih.2).1 _ hd
        exact ⟨htrans _ _ _ ih.1 (hguar _ _ hg), hi₂⟩
    intro s₁ hw hi₁
    obtain ⟨hd, hp⟩ := h s₁ hw hi₁
    refine ⟨hd, fun c r w hc hper => ?_⟩
    obtain ⟨h1, h2, h3⟩ := hp c r w hc hper
    refine ⟨h1, h2, fun s₂ hr₂ hi₂ => wp_mono (ih r hi₂ (h3 s₂ hr₂ hi₂)) ?_⟩
    rintro res s' ⟨hQ, hT⟩
    exact ⟨hQ, htrans _ _ _ (hwaits s₁ hw).1
      (htrans _ _ _ (hguar _ _ h2) (htrans _ _ _ (hrely _ _ hr₂) hT))⟩

/-! ## 2. Running a synchronous section -/

/-- Everything up to the next `await` keeps the invariant and the guarantee. -/
theorem wp_advance {p : Prog S α} (hrefl : ∀ s, sp.guar s s)
    (htrans : ∀ s s' s'', sp.guar s s' → sp.guar s' s'' → sp.guar s s'')
    (hi : sp.inv s) (h : wp sp p Q s) :
    sp.inv ⟨(p.advance s.mem).1, s.world⟩ ∧ sp.guar s ⟨(p.advance s.mem).1, s.world⟩ ∧
      wp sp (p.advance s.mem).2 Q ⟨(p.advance s.mem).1, s.world⟩ := by
  induction p generalizing s with
  | ret a => exact ⟨hi, hrefl s, h⟩
  | throw e => exact ⟨hi, hrefl s, h⟩
  | await op k _ => exact ⟨hi, hrefl s, h⟩
  | get k ih => exact ih _ hi h
  | set m p ih =>
    obtain ⟨h1, h2, h3⟩ := ih (s := ⟨m, s.world⟩) h.1 h.2.2
    exact ⟨h1, htrans _ _ _ h.2.1 h2, h3⟩

/-- A program suspended at an `await` meets its specification from every state it may find. -/
theorem wp_await_stable {op : S.Op} {k : Except S.Err (S.Res op) → Prog S α} {s' : St S W}
    (h : wp sp (.await op k) Q s) (hw : Waits sp op s s') : wp sp (.await op k) Q s' :=
  fun s₁ hw₁ hi₁ => h s₁ (hw.trans hw₁) hi₁

end Rules

/-! ## 3. Disciplines -/

/-- A specification for every kind of task of a machine. -/
structure Discipline (M : Machine S W) (κ : Type) where
  /-- The kind of task a label starts or continues. -/
  kind : M.Label → κ
  /-- Kinds of which at most one task is pending at a time. -/
  excl : κ → Prop
  inv : St S W → Prop
  rely : κ → St S W → St S W → Prop
  guar : κ → St S W → St S W → Prop
  /-- The answers admitted for the code of a label. -/
  adm : M.Label → S.Op → W.Choice → St S W → Prop
  /-- What holds when the code of a label starts. -/
  pre : M.Label → St S W → Prop
  /-- What holds whenever no task of a kind is pending. -/
  idle : κ → St S W → Prop

namespace Discipline

variable {M : Machine S W} {κ : Type} (D : Discipline M κ)

/-- The specification of the code of a label. -/
def spec (l : M.Label) : Spec S W := ⟨D.inv, D.rely (D.kind l), D.guar (D.kind l), D.adm l⟩

/-- What the code of a label has to establish: the precondition of the label it jumps to, or
the idle assertion of its kind when it ends. -/
def post (l : M.Label) : Except S.Err (Option M.Label) → St S W → Prop
  | .ok (some l'), s => D.kind l' = D.kind l ∧ D.pre l' s
  | _, s => D.idle (D.kind l) s

/-- The code of the machine meets the discipline. -/
structure Sound : Prop where
  rely_refl : ∀ k s, D.rely k s s
  rely_trans : ∀ k s s' s'', D.rely k s s' → D.rely k s' s'' → D.rely k s s''
  guar_refl : ∀ k s, D.guar k s s
  guar_trans : ∀ k s s' s'', D.guar k s s' → D.guar k s' s'' → D.guar k s s''
  compat : ∀ k k', (k = k' → ¬ D.excl k) → ∀ s s', D.guar k s s' → D.rely k' s s'
  pre_stable : ∀ l s s', D.rely (D.kind l) s s' → D.inv s' → D.pre l s → D.pre l s'
  idle_stable : ∀ k s s', D.rely k s s' → D.inv s' → D.idle k s → D.idle k s'
  idle_open : ∀ k s, ¬ D.excl k → D.idle k s
  code : ∀ l s, D.inv s → D.pre l s → wp (D.spec l) (M.code l) (D.post l) s

/-- The events a discipline allows. -/
def Allows : Event M → Sys M → Prop
  | .spawn l, s =>
    (D.excl (D.kind l) → ∀ t ∈ s.tasks, D.kind t.label = D.kind l → t.done = true) ∧
      (D.inv s.st → D.idle (D.kind l) s.st → D.pre l s.st)
  | .perform i c, s =>
    ∀ l op k, s.tasks[i]? = some ⟨l, .await op k⟩ → D.adm l op c s.st
  | .outside x, s =>
    D.inv s.st → D.inv ⟨(M.outside x s.mem s.world).1, (M.outside x s.mem s.world).2⟩ ∧
      (∀ t ∈ s.tasks, t.done = false → D.rely (D.kind t.label) s.st
        ⟨(M.outside x s.mem s.world).1, (M.outside x s.mem s.world).2⟩) ∧
      ∀ k, D.idle k s.st → D.idle k ⟨(M.outside x s.mem s.world).1, (M.outside x s.mem s.world).2⟩
  | .crash, s => D.inv s.st → D.inv ⟨M.boot s.mem, s.world⟩ ∧ ∀ k, D.idle k ⟨M.boot s.mem, s.world⟩
  | _, _ => True

/-- A pending task meets the specification of its kind from here on. -/
def TaskOk (t : Task M) (s : St S W) : Prop :=
  ∀ s', D.rely (D.kind t.label) s s' → D.inv s' →
    wp (D.spec t.label) t.prog (D.post t.label) s'

/-- What the logic knows of a system along a run. -/
structure Ok (s : Sys M) : Prop where
  inv : D.inv s.st
  task : ∀ (i : Nat) t, s.tasks[i]? = some t → t.done = false → D.TaskOk t s.st
  alone : ∀ (i j : Nat) t t', s.tasks[i]? = some t → s.tasks[j]? = some t' → t.done = false →
    t'.done = false → D.kind t.label = D.kind t'.label → D.excl (D.kind t.label) → i = j
  idle : ∀ k, (∀ t ∈ s.tasks, D.kind t.label = k → t.done = true) → D.idle k s.st

variable {D}

/-! ## 4. Soundness -/

/-- A settled task has shown its postcondition. -/
theorem idle_of_done {t : Task M} {s : St S W} (hd : t.done = true)
    (h : wp (D.spec t.label) t.prog (D.post t.label) s) : D.idle (D.kind t.label) s := by
  obtain ⟨l, p⟩ := t
  cases p with
  | ret a =>
    cases a with
    | none => exact h
    | some l' => simp [Task.done] at hd
  | throw e => exact h
  | get k => simp [Task.done] at hd
  | set m p => simp [Task.done] at hd
  | await op k => simp [Task.done] at hd

/-- One task moves: the rest of the system is carried along by compatibility. -/
theorem Ok.move (hs : D.Sound) {s : Sys M} (h : D.Ok s) {i : Nat} {t : Task M}
    (st' : St S W) (t' : Task M) (ht : s.tasks[i]? = some t) (hnd : t.done = false)
    (hk : D.kind t'.label = D.kind t.label) (hi : D.inv st')
    (hg : D.guar (D.kind t.label) s.st st')
    (hok : t'.done = false → D.TaskOk t' st')
    (hidle : t'.done = true → D.idle (D.kind t.label) st') :
    D.Ok ⟨st'.mem, st'.world, s.tasks.set i t'⟩ := by
  have hlt : i < s.tasks.length := (List.getElem?_eq_some_iff.mp ht).1
  have hget : ∀ (j : Nat) u, (s.tasks.set i t')[j]? = some u →
      (j = i ∧ u = t') ∨ (j ≠ i ∧ s.tasks[j]? = some u) := by
    intro j u hu
    rw [List.getElem?_set] at hu
    by_cases hji : i = j
    · subst hji
      simp only [if_true, if_pos hlt, Option.some.injEq] at hu
      exact Or.inl ⟨rfl, hu.symm⟩
    · rw [if_neg hji] at hu
      exact Or.inr ⟨fun e => hji e.symm, hu⟩
  refine ⟨hi, ?_, ?_, ?_⟩
  · intro j u hu hud
    rcases hget j u hu with ⟨-, rfl⟩ | ⟨hji, hu'⟩
    · exact hok hud
    · -- another task: its kind tolerates the step, or it would be the same task
      intro s' hr hi'
      refine h.task j u hu' hud s' (hs.rely_trans _ _ _ _ (hs.compat _ _ ?_ _ _ hg) hr) hi'
      intro hkk hex
      exact hji (h.alone j i u t hu' ht hud hnd hkk.symm (hkk ▸ hex))
  · intro j j' u u' hu hu' hud hud' hkk hex
    rcases hget j u hu with ⟨rfl, rfl⟩ | ⟨hji, hu₁⟩ <;>
      rcases hget j' u' hu' with ⟨rfl, rfl⟩ | ⟨hji', hu₁'⟩
    · rfl
    · exact h.alone _ _ t u' ht hu₁' hnd hud' (hk ▸ hkk) (hk ▸ hex)
    · exact h.alone _ _ u t hu₁ ht hud hnd (hkk.trans hk) hex
    · exact h.alone _ _ u u' hu₁ hu₁' hud hud' hkk hex
  · intro k hall
    by_cases hkk : D.kind t.label = k
    · subst hkk
      exact hidle (hall t' (List.mem_iff_getElem?.mpr ⟨i, by simp [hlt]⟩) hk)
    · refine hs.idle_stable k _ _ (hs.compat _ _ (fun e => absurd e hkk) _ _ hg) hi
        (h.idle k fun u hu huk => ?_)
      obtain ⟨j, hj⟩ := List.mem_iff_getElem?.mp hu
      by_cases hji : j = i
      · subst hji
        rw [ht, Option.some.injEq] at hj
        exact absurd (hj ▸ huk) hkk
      · exact hall u (List.mem_iff_getElem?.mpr ⟨j, by
          rw [List.getElem?_set, if_neg (fun e => hji e.symm)]; exact hj⟩) huk

theorem Ok.spawn (hs : D.Sound) {s : Sys M} (h : D.Ok s) {l : M.Label}
    (ha : D.Allows (.spawn l) s) : D.Ok { s with tasks := s.tasks ++ [Task.start l] } := by
  obtain ⟨hex, hpre⟩ := ha
  have hidle : D.idle (D.kind l) s.st := by
    by_cases he : D.excl (D.kind l)
    · exact h.idle _ (hex he)
    · exact hs.idle_open _ _ he
  have hget : ∀ (j : Nat) u, (s.tasks ++ [Task.start l])[j]? = some u →
      (j = s.tasks.length ∧ u = Task.start l) ∨ (j < s.tasks.length ∧ s.tasks[j]? = some u) := by
    intro j u hu
    rcases Nat.lt_trichotomy j s.tasks.length with hj | hj | hj
    · rw [List.getElem?_append_left hj] at hu
      exact Or.inr ⟨hj, hu⟩
    · subst hj
      simp only [List.getElem?_concat_length, Option.some.injEq] at hu
      exact Or.inl ⟨rfl, hu.symm⟩
    · rw [List.getElem?_append_right (by omega)] at hu
      rw [List.getElem?_singleton, if_neg (by omega)] at hu
      exact absurd hu (by simp)
  refine ⟨h.inv, ?_, ?_, ?_⟩
  · intro j u hu hud
    rcases hget j u hu with ⟨-, rfl⟩ | ⟨-, hu'⟩
    · intro s' hr hi'
      exact hs.code l s' hi' (hs.pre_stable l _ _ hr hi' (hpre h.inv hidle))
    · exact h.task j u hu' hud
  · intro j j' u u' hu hu' hud hud' hkk hexk
    rcases hget j u hu with ⟨rfl, rfl⟩ | ⟨-, hu₁⟩ <;>
      rcases hget j' u' hu' with ⟨rfl, rfl⟩ | ⟨-, hu₁'⟩
    · rfl
    · have := hex hexk u' (List.mem_of_getElem? hu₁') hkk.symm
      rw [this] at hud'
      exact absurd hud' (by simp)
    · have := hex (hkk ▸ hexk) u (List.mem_of_getElem? hu₁) hkk
      rw [this] at hud
      exact absurd hud (by simp)
    · exact h.alone _ _ u u' hu₁ hu₁' hud hud' hkk hexk
  · intro k hall
    exact h.idle k fun u hu huk => hall u (List.mem_append_left _ hu) huk

theorem Ok.perform (hs : D.Sound) {s s' : Sys M} {i : Nat} {c : W.Choice} (h : D.Ok s)
    (ha : D.Allows (.perform i c) s) (hst : s.step (.perform i c) = some s') : D.Ok s' := by
  simp only [Sys.step] at hst
  split at hst
  case h_2 => cases hst
  case h_1 l op k ht =>
    simp only [Option.map_eq_some_iff] at hst
    obtain ⟨⟨r, w⟩, hpf, rfl⟩ := hst
    have hnd : (⟨l, .await op k⟩ : Task M).done = false := rfl
    have hwp := h.task i _ ht hnd s.st (hs.rely_refl _ _) h.inv
    obtain ⟨-, hper⟩ := hwp s.st (.refl _) h.inv
    obtain ⟨hi, hg, hcont⟩ := hper c r w (ha l op k ht) hpf
    refine h.move hs ⟨s.mem, w⟩ ⟨l, k r⟩ ht hnd rfl hi hg (fun _ => hcont) ?_
    intro hd
    exact idle_of_done (t := ⟨l, k r⟩) hd (hcont _ (hs.rely_refl _ _) hi)

/-- The task that waits is the same; only the world has moved. -/
theorem Ok.disturb (hs : D.Sound) {s s' : Sys M} {i : Nat} (h : D.Ok s)
    (hst : s.step (.disturb i) = some s') : D.Ok s' := by
  simp only [Sys.step] at hst
  split at hst
  case h_2 => cases hst
  case h_1 l op k ht =>
    simp only [Option.map_eq_some_iff] at hst
    obtain ⟨w, hdis, rfl⟩ := hst
    have hnd : (⟨l, .await op k⟩ : Task M).done = false := rfl
    have hwp := h.task i _ ht hnd s.st (hs.rely_refl _ _) h.inv
    obtain ⟨hi, hg⟩ := (hwp s.st (.refl _) h.inv).1 w hdis
    have hmv := h.move hs ⟨s.mem, w⟩ ⟨l, .await op k⟩ ht hnd rfl hi hg
      (fun _ s' hr' hi' => wp_await_stable hwp (.rely (.disturb (.refl _) hdis) hr' hi'))
      (fun hd => by cases hd)
    rw [Sys.set_task ht] at hmv
    exact hmv

/-- A task that goes on comes to its end, to a jump or to its next `await`. -/
theorem Ok.resumed (hs : D.Sound) {s : Sys M} {i : Nat} {l : M.Label}
    {p p' : Prog S (Option M.Label)} {m' : S.Mem} (h : D.Ok s) (ht : s.tasks[i]? = some ⟨l, p⟩)
    (hnd : (⟨l, p⟩ : Task M).done = false) (hi : D.inv ⟨m', s.world⟩)
    (hg : D.guar (D.kind l) s.st ⟨m', s.world⟩)
    (hq : wp (D.spec l) p' (D.post l) ⟨m', s.world⟩) (hstop : p'.stopped = true) :
    D.Ok ⟨m', s.world, s.tasks.set i (Task.next l p')⟩ := by
  cases p' with
  | ret a =>
    cases a with
    | none =>
      refine h.move hs ⟨m', s.world⟩ ⟨l, .ret none⟩ ht hnd rfl hi hg ?_ (fun _ => hq)
      intro hd
      cases hd
    | some l' =>
      refine h.move hs ⟨m', s.world⟩ (Task.start l') ht hnd hq.1 hi hg ?_ ?_
      · intro _ s₂ hr hi₂
        exact hs.code l' s₂ hi₂ (hs.pre_stable l' _ _ hr hi₂ hq.2)
      · intro hd
        have hcode := hs.code l' ⟨m', s.world⟩ hi hq.2
        have hidle := idle_of_done (t := Task.start l') hd hcode
        exact hq.1 ▸ hidle
  | throw e =>
    refine h.move hs ⟨m', s.world⟩ ⟨l, .throw e⟩ ht hnd rfl hi hg ?_ (fun _ => hq)
    intro hd
    cases hd
  | await op k =>
    refine h.move hs ⟨m', s.world⟩ ⟨l, .await op k⟩ ht hnd rfl hi hg ?_ ?_
    · intro _ s₂ hr hi₂
      exact wp_await_stable hq (.rely (.refl _) hr hi₂)
    · intro hd
      cases hd
  | get k => cases hstop
  | set m p => cases hstop

theorem Ok.resume (hs : D.Sound) {s s' : Sys M} {i : Nat} (h : D.Ok s)
    (hst : s.step (.resume i) = some s') : D.Ok s' := by
  have hres := hst
  simp only [Sys.step] at hst
  split at hst
  case h_2 => cases hst
  case h_1 l p ht =>
    cases hst
    cases hnd : (⟨l, p⟩ : Task M).done with
    | true =>
      rw [Sys.step_resume_done ht hnd hres]
      exact h
    | false =>
      have hwp := h.task i _ ht hnd s.st (hs.rely_refl _ _) h.inv
      obtain ⟨hi, hg, hq⟩ := wp_advance (hs.guar_refl _) (hs.guar_trans _) h.inv hwp
      exact h.resumed hs ht hnd hi hg hq (p.advance_stopped s.mem)

/-- **Every allowed event keeps what the logic knows**: the invariant, the assertion each task
waits with, and that tasks of one kind are not at work together. -/
theorem Ok.step (hs : D.Sound) {s s' : Sys M} {e : Event M} (h : D.Ok s) (ha : D.Allows e s)
    (hst : s.step e = some s') : D.Ok s' := by
  cases e with
  | spawn l =>
    cases hst
    exact h.spawn hs ha
  | perform i c => exact h.perform hs ha hst
  | disturb i => exact h.disturb hs hst
  | resume i => exact h.resume hs hst
  | outside x =>
    cases hst
    obtain ⟨hi, hr, hidle⟩ := ha h.inv
    exact ⟨hi, fun j t ht htd s' hr' hi' =>
        h.task j t ht htd s' (hs.rely_trans _ _ _ _ (hr t (List.mem_of_getElem? ht) htd) hr') hi',
      h.alone, fun k hall => hidle k (h.idle k hall)⟩
  | crash =>
    cases hst
    obtain ⟨hi, hidle⟩ := ha h.inv
    exact ⟨hi, by simp, by simp, fun k _ => hidle k⟩

/-- **Soundness.**  Along every allowed run the invariant holds, and the idle assertion of
every kind with no pending task. -/
theorem Sound.run (hs : D.Sound) {s s' : Sys M} (h : D.Ok s) (hrun : Run D.Allows s s') :
    D.Ok s' :=
  hrun.invariant h fun _ _ _ hok ha hst => hok.step hs ha hst

/-- What the steps of every kind guarantee is guaranteed by every event but a crash. -/
theorem Ok.step_rel (hs : D.Sound) {T : St S W → St S W → Prop} (hrefl : ∀ s, T s s)
    (hguar : ∀ k s s', D.guar k s s' → T s s')
    (hout : ∀ x m w, T ⟨m, w⟩ ⟨(M.outside x m w).1, (M.outside x m w).2⟩)
    {s s' : Sys M} {e : Event M} (h : D.Ok s) (ha : D.Allows e s) (hne : e ≠ .crash)
    (hst : s.step e = some s') : T s.st s'.st := by
  have hwp : ∀ (i : Nat) l p, s.tasks[i]? = some ⟨l, p⟩ → (⟨l, p⟩ : Task M).done = false →
      wp (D.spec l) p (D.post l) s.st := fun i l p ht hnd =>
    h.task i _ ht hnd s.st (hs.rely_refl _ _) h.inv
  cases e with
  | spawn l =>
    simp only [Sys.step, Option.some.injEq] at hst
    subst hst
    exact hrefl _
  | perform i c =>
    simp only [Sys.step] at hst
    split at hst
    case h_2 => simp at hst
    case h_1 l op k ht =>
      simp only [Option.map_eq_some_iff] at hst
      obtain ⟨⟨r, w⟩, hpf, rfl⟩ := hst
      obtain ⟨-, hper⟩ := hwp i l _ ht rfl s.st (.refl _) h.inv
      exact hguar _ _ _ (hper c r w (ha l op k ht) hpf).2.1
  | disturb i =>
    simp only [Sys.step] at hst
    split at hst
    case h_2 => simp at hst
    case h_1 l op k ht =>
      simp only [Option.map_eq_some_iff] at hst
      obtain ⟨w, hdis, rfl⟩ := hst
      exact hguar _ _ _ ((hwp i l _ ht rfl s.st (.refl _) h.inv).1 w hdis).2
  | resume i =>
    simp only [Sys.step] at hst
    split at hst
    case h_2 => simp at hst
    case h_1 l p ht =>
      simp only [Option.some.injEq] at hst
      subst hst
      cases hnd : (⟨l, p⟩ : Task M).done with
      | true =>
        have hsame : (p.advance s.mem).1 = s.mem := by
          cases p <;> first | rfl | simp [Task.done] at hnd
        rw [Sys.st, Sys.st, hsame]
        exact hrefl _
      | false =>
        exact hguar _ _ _ (wp_advance (hs.guar_refl _) (hs.guar_trans _) h.inv
          (hwp i l p ht hnd)).2.1
  | outside x =>
    simp only [Sys.step, Option.some.injEq] at hst
    subst hst
    exact hout x _ _
  | crash => exact absurd rfl hne

/-- **What every step guarantees, every run without a crash guarantees**, when it is reflexive and
transitive and what happens outside guarantees it too. -/
theorem Sound.run_rel (hs : D.Sound) {T : St S W → St S W → Prop} (hrefl : ∀ s, T s s)
    (htrans : ∀ s s' s'', T s s' → T s' s'' → T s s'')
    (hguar : ∀ k s s', D.guar k s s' → T s s')
    (hout : ∀ x m w, T ⟨m, w⟩ ⟨(M.outside x m w).1, (M.outside x m w).2⟩)
    {ok : Event M → Sys M → Prop} (hallow : ∀ e s, ok e s → D.Allows e s ∧ e ≠ .crash)
    {s s' : Sys M} (h : D.Ok s) (hrun : Run ok s s') : T s.st s'.st := by
  induction hrun with
  | refl => exact hrefl _
  | tail e hr hok hst ih =>
    have hmid := hs.run h (hr.mono fun e s hok => (hallow e s hok).1)
    obtain ⟨ha, hne⟩ := hallow _ _ hok
    exact htrans _ _ _ ih (hmid.step_rel hs hrefl hguar hout ha hne hst)

/-- A system with no task is fine as soon as its invariant and idle assertions hold. -/
theorem Ok.init {m : S.Mem} {w : W.State} (hi : D.inv ⟨m, w⟩) (hidle : ∀ k, D.idle k ⟨m, w⟩) :
    D.Ok ⟨m, w, []⟩ :=
  ⟨hi, by simp, by simp, fun k _ => hidle k⟩

end Discipline

/-! ## 5. Invariants alone

When what is to be shown of a program is an invariant that every step keeps by itself, nothing has to
be known of the other tasks.  `Keeps` is `wp` for that case: whatever the state, as long as the
invariant holds, the program keeps it, and its result satisfies a condition on values. -/

section Keeps

/-- The specification that relies on the invariant only. -/
def Spec.ofInv (inv : St S W → Prop) (adm : S.Op → W.Choice → St S W → Prop) : Spec S W :=
  ⟨inv, fun _ _ => True, fun _ _ => True, adm⟩

variable {sp : Spec S W}

/-- The program keeps the invariant, and returns values that satisfy `R`. -/
def Keeps (sp : Spec S W) (p : Prog S α) (R : α → Prop) : Prop :=
  ∀ s, sp.inv s → wp sp p (fun r s' => sp.inv s' ∧ ∀ a, r = .ok a → R a) s

variable {R R' : α → Prop} {T : β → Prop}

theorem keeps_ret {a : α} (h : R a) : Keeps sp (.ret a) R := by
  intro s hi
  refine ⟨hi, fun b hb => ?_⟩
  cases hb
  exact h

theorem keeps_pure {a : α} (h : R a) : Keeps sp (pure a) R := keeps_ret h

theorem keeps_lift {x : Except S.Err α} (h : ∀ a, x = .ok a → R a) : Keeps sp (.lift x) R := by
  intro s hi
  exact wp_lift ⟨hi, h⟩

theorem keeps_bind {p : Prog S α} {f : α → Prog S β} (hp : Keeps sp p R)
    (hf : ∀ a, R a → Keeps sp (f a) T) : Keeps sp (p >>= f) T := by
  intro s hi
  refine wp_seq (hp s hi) ?_ ?_
  · rintro a s' ⟨hi', hR⟩
    exact hf a (hR a rfl) s' hi'
  · rintro e s' ⟨hi', -⟩
    exact ⟨hi', by simp⟩

theorem keeps_tryCatch {p : Prog S α} {h : S.Err → Prog S α} (hp : Keeps sp p R)
    (hh : ∀ e, Keeps sp (h e) R) : Keeps sp (p.tryCatch h) R := by
  intro s hi
  refine wp_tryCatch (wp_mono (hp s hi) ?_)
  rintro r s' ⟨hi', hR⟩
  cases r with
  | ok a => exact ⟨hi', hR⟩
  | error e => exact hh e s' hi'

theorem keeps_gets {f : S.Mem → α} (h : ∀ s, sp.inv s → R (f s.mem)) : Keeps sp (.gets f) R := by
  intro s hi
  refine ⟨hi, fun a ha => ?_⟩
  cases ha
  exact h s hi

theorem keeps_modify {f : S.Mem → S.Mem}
    (h : ∀ s, sp.inv s → sp.inv ⟨f s.mem, s.world⟩ ∧ sp.guar s ⟨f s.mem, s.world⟩) :
    Keeps sp (.modify f) fun _ => True := by
  intro s hi
  obtain ⟨hi', hg⟩ := h s hi
  exact ⟨hi', hg, hi', fun _ _ => trivial⟩

theorem keeps_call {op : S.Op} {R : S.Res op → Prop}
    (hd : ∀ s w, sp.inv s → W.disturb op s.world = some w →
      sp.inv ⟨s.mem, w⟩ ∧ sp.guar s ⟨s.mem, w⟩)
    (hp : ∀ s c r w, sp.inv s → sp.adm op c s → W.perform op c s.world = some (r, w) →
      sp.inv ⟨s.mem, w⟩ ∧ sp.guar s ⟨s.mem, w⟩ ∧ ∀ a, r = .ok a → R a) :
    Keeps sp (.call op) R := by
  intro s _
  refine wp_call (fun s₁ w _ hi₁ hw => hd s₁ w hi₁ hw) ?_
  intro s₁ c r w _ hi₁ hc hper
  obtain ⟨hi₂, hg, hR⟩ := hp s₁ c r w hi₁ hc hper
  exact ⟨hi₂, hg, fun s₂ _ hi => ⟨hi, hR⟩⟩

theorem keeps_mono {p : Prog S α} (hp : Keeps sp p R) (h : ∀ a, R a → R' a) :
    Keeps sp p R' := by
  intro s hi
  refine wp_mono (hp s hi) ?_
  rintro r s' ⟨hi', hR⟩
  exact ⟨hi', fun a ha => h a (hR a ha)⟩

end Keeps

namespace Discipline

variable {M : Machine S W}

/-- The discipline of an invariant, over the labels of a kind. -/
def ofInv (inv : St S W → Prop) (adm : S.Op → W.Choice → St S W → Prop)
    (P : M.Label → Prop) : Discipline M Unit where
  kind := fun _ => ()
  excl := fun _ => False
  inv := inv
  rely := fun _ _ _ => True
  guar := fun _ _ _ => True
  adm := fun _ => adm
  pre := fun l _ => P l
  idle := fun _ _ => True

theorem ofInv_sound {inv : St S W → Prop} {adm : S.Op → W.Choice → St S W → Prop}
    {P : M.Label → Prop}
    (hcode : ∀ l, P l → Keeps (.ofInv inv adm) (M.code l) fun o => ∀ l', o = some l' → P l') :
    (ofInv inv adm P).Sound where
  rely_refl := fun _ _ => trivial
  rely_trans := fun _ _ _ _ _ _ => trivial
  guar_refl := fun _ _ => trivial
  guar_trans := fun _ _ _ _ _ _ => trivial
  compat := fun _ _ _ _ _ _ => trivial
  pre_stable := fun _ _ _ _ _ h => h
  idle_stable := fun _ _ _ _ _ h => h
  idle_open := fun _ _ _ => trivial
  code := by
    intro l s hi hl
    refine wp_mono (hcode l hl s hi) ?_
    rintro r s' ⟨-, hR⟩
    match r with
    | .ok (some l') => exact ⟨rfl, hR _ rfl l' rfl⟩
    | .ok none => trivial
    | .error e => trivial

/-- **An invariant of the code is an invariant of the process**: when every piece of code keeps
it, with the answers that are admitted, so does every run. -/
theorem ofInv_run {inv : St S W → Prop} {adm : S.Op → W.Choice → St S W → Prop}
    {P : M.Label → Prop} {ok : Event M → Sys M → Prop} {s₀ s : Sys M}
    (hcode : ∀ l, P l → Keeps (.ofInv inv adm) (M.code l) fun o => ∀ l', o = some l' → P l')
    (hallow : ∀ e s, ok e s → (ofInv inv adm P).Allows e s)
    (h₀ : s₀.tasks = []) (hi : inv s₀.st) (hrun : Run ok s₀ s) : inv s.st := by
  obtain ⟨m, w, ts⟩ := s₀
  subst h₀
  exact ((ofInv_sound hcode).run (Ok.init hi fun _ => trivial) (hrun.mono hallow)).inv

end Discipline

end Async
