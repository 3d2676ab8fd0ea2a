/-
# A program on its own

When a process runs one program at a time nothing interferes with it between its `await`s, and
what it does is a function of the answers it gets.  `exec` computes this function, together with
the calls the program makes and the state each call is made in.  An answer also says what has
happened in memory while the program waited (the clock has moved on): that is its drift.  A run
for which the answers do not suffice, or with an answer that does not fit its call, has no
outcome; the answers that are left over are part of the outcome, so the runs of two programs in a
row can be cut apart.

Two ways to reason about such a run follow.

* `Alone` is a Hoare triple over all answers, whose postcondition sees the calls that were made.
  It has one rule for each form of program, like `wp`: `alone_call` for a call, with the drift
  while it waits, `alone_seq` and `alone_tryCatch` for the two ways of putting programs together.
  `adm` restricts the answers that are looked at, and `exec_total` says that where every call has
  an admitted answer the program can be run to its end, so that a triple is never about nothing.
* `Alike` compares two programs that are given the same answers: as far as a `view` of the calls
  shows, they make the same calls, and they end the same way, with related values in related
  states.  The relation is arbitrary, so the two programs may be one function applied to two data,
  or two functions of which the one abstracts from the other.

`exec_bind` and `exec_tryCatch` are the equations behind both.  A program is proved about once,
along its own text, and its runs on fixed answers are computed from the same definition.
-/
import OneSig.Lib.Async.Twin

namespace Async

variable {S : Sig} {W : World S} {D : Type} {α β : Type}

/-! ## 1. Execution -/

/-- A call and its answer: the operation, the state it was made in, and what came back. -/
structure Exchange (S : Sig) (W : World S) (D : Type) where
  op : S.Op
  before : St S W
  choice : W.Choice
  drift : D

/-- How a program ended, and the answers it has left over. -/
structure Outcome (S : Sig) (W : World S) (D : Type) (α : Type) where
  res : Except S.Err α
  st : St S W
  calls : List (Exchange S W D)
  rest : List (W.Choice × D)

/-- The outcome of a program that has made some calls before. -/
def Outcome.after (calls : List (Exchange S W D)) (out : Outcome S W D α) : Outcome S W D α :=
  { out with calls := calls ++ out.calls }

/-- Run a program with these answers.  `none` when they run out, or one does not fit its call. -/
def exec (drift : D → S.Mem → S.Mem) :
    Prog S α → List (W.Choice × D) → St S W → Option (Outcome S W D α)
  | .ret a, answers, s => some ⟨.ok a, s, [], answers⟩
  | .throw e, answers, s => some ⟨.error e, s, [], answers⟩
  | .get k, answers, s => exec drift (k s.mem) answers s
  | .set m p, answers, s => exec drift p answers ⟨m, s.world⟩
  | .await _ _, [], _ => none
  | .await op k, (c, d) :: answers, s =>
    (W.perform op c s.world).bind fun rw =>
      (exec drift (k rw.1) answers ⟨drift d s.mem, rw.2⟩).map (Outcome.after [⟨op, s, c, d⟩])

variable {drift : D → S.Mem → S.Mem}

@[simp] theorem Outcome.after_nil (out : Outcome S W D α) : out.after [] = out := rfl

theorem Outcome.after_after (h h' : List (Exchange S W D)) (out : Outcome S W D α) :
    (out.after h').after h = out.after (h ++ h') := by
  simp only [Outcome.after, List.append_assoc]

/-- What `exec` makes of `p >>= f` once `p` has ended. -/
def thenExec (drift : D → S.Mem → S.Mem) (f : α → Prog S β) (out : Outcome S W D α) :
    Option (Outcome S W D β) :=
  match out.res with
  | .ok a => (exec drift (f a) out.rest out.st).map (Outcome.after out.calls)
  | .error e => some ⟨.error e, out.st, out.calls, out.rest⟩

/-- What `exec` makes of `p.tryCatch h` once `p` has ended. -/
def catchExec (drift : D → S.Mem → S.Mem) (h : S.Err → Prog S α) (out : Outcome S W D α) :
    Option (Outcome S W D α) :=
  match out.res with
  | .ok a => some ⟨.ok a, out.st, out.calls, out.rest⟩
  | .error e => (exec drift (h e) out.rest out.st).map (Outcome.after out.calls)

theorem thenExec_after (f : α → Prog S β) (calls : List (Exchange S W D)) (out : Outcome S W D α) :
    thenExec drift f (out.after calls) = (thenExec drift f out).map (Outcome.after calls) := by
  obtain ⟨res, st, calls', rest⟩ := out
  cases res with
  | ok a =>
    simp only [thenExec, Outcome.after, Option.map_map]
    refine congrArg (fun g => Option.map g _) (funext fun out => ?_)
    exact (Outcome.after_after calls calls' out).symm
  | error e => rfl

theorem catchExec_after (h : S.Err → Prog S α) (calls : List (Exchange S W D))
    (out : Outcome S W D α) :
    catchExec drift h (out.after calls) = (catchExec drift h out).map (Outcome.after calls) := by
  obtain ⟨res, st, calls', rest⟩ := out
  cases res with
  | ok a => rfl
  | error e =>
    simp only [catchExec, Outcome.after, Option.map_map]
    refine congrArg (fun g => Option.map g _) (funext fun out => ?_)
    exact (Outcome.after_after calls calls' out).symm

theorem exec_bind (p : Prog S α) (f : α → Prog S β) (answers : List (W.Choice × D))
    (s : St S W) :
    exec drift (p >>= f) answers s = (exec drift p answers s).bind (thenExec drift f) := by
  rw [Prog.bind_eq]
  induction p generalizing answers s with
  | ret a =>
    simp only [Prog.bind, exec, Option.bind_some, thenExec]
    exact (Option.map_id' ..).symm
  | throw e => rfl
  | get k ih => exact ih _ _ _
  | set m p ih => exact ih _ _
  | await op k ih =>
    cases answers with
    | nil => rfl
    | cons answer answers =>
      obtain ⟨c, d⟩ := answer
      simp only [Prog.bind, exec]
      cases hper : W.perform op c s.world with
      | none => rfl
      | some rw =>
        simp only [Option.bind_some, ih]
        cases exec drift (k rw.1) answers ⟨drift d s.mem, rw.2⟩ with
        | none => rfl
        | some out => exact (thenExec_after f _ out).symm

theorem exec_tryCatch (p : Prog S α) (h : S.Err → Prog S α) (answers : List (W.Choice × D))
    (s : St S W) :
    exec drift (p.tryCatch h) answers s = (exec drift p answers s).bind (catchExec drift h) := by
  induction p generalizing answers s with
  | ret a => rfl
  | throw e =>
    simp only [Prog.tryCatch, exec, Option.bind_some, catchExec]
    exact (Option.map_id' ..).symm
  | get k ih => exact ih _ _ _
  | set m p ih => exact ih _ _
  | await op k ih =>
    cases answers with
    | nil => rfl
    | cons answer answers =>
      obtain ⟨c, d⟩ := answer
      simp only [Prog.tryCatch, exec]
      cases hper : W.perform op c s.world with
      | none => rfl
      | some rw =>
        simp only [Option.bind_some, ih]
        cases exec drift (k rw.1) answers ⟨drift d s.mem, rw.2⟩ with
        | none => rfl
        | some out => exact (catchExec_after h _ out).symm

/-- A call on its own: one answer, which has to fit. -/
theorem exec_call (op : S.Op) (answers : List (W.Choice × D)) (s : St S W) :
    exec drift (Prog.call op) answers s = match answers with
      | [] => none
      | (c, d) :: answers => (W.perform op c s.world).map fun rw =>
          ⟨rw.1, ⟨drift d s.mem, rw.2⟩, [⟨op, s, c, d⟩], answers⟩ := by
  cases answers with
  | nil => rfl
  | cons answer answers =>
    obtain ⟨c, d⟩ := answer
    simp only [Prog.call, exec]
    cases W.perform op c s.world with
    | none => rfl
    | some rw =>
      obtain ⟨r, w⟩ := rw
      cases r <;> rfl

/-- The answers are those of the calls, and what is left over. -/
theorem exec_answers {p : Prog S α} {answers : List (W.Choice × D)} {s : St S W}
    {out : Outcome S W D α} (h : exec drift p answers s = some out) :
    answers = out.calls.map (fun x => (x.choice, x.drift)) ++ out.rest := by
  induction p generalizing answers s out with
  | ret a =>
    cases h
    rfl
  | throw e =>
    cases h
    rfl
  | get k ih => exact ih _ h
  | set m p ih => exact ih h
  | await op k ih =>
    cases answers with
    | nil => cases h
    | cons answer answers =>
      obtain ⟨c, d⟩ := answer
      obtain ⟨rw, -, hk⟩ := Option.bind_eq_some_iff.mp h
      obtain ⟨out', hout', rfl⟩ := Option.map_eq_some_iff.mp hk
      rw [ih _ hout']
      rfl

theorem exec_lift (x : Except S.Err α) (answers : List (W.Choice × D)) (s : St S W) :
    exec drift (Prog.lift x) answers s = some ⟨x, s, [], answers⟩ := by
  cases x <;> rfl

/-- Where every call has an answer that is admitted, a program can be run to its end. -/
theorem exec_total {adm : Exchange S W D → Prop}
    (hadm : ∀ op s, ∃ c d r w, adm ⟨op, s, c, d⟩ ∧ W.perform op c s.world = some (r, w))
    (p : Prog S α) (s : St S W) :
    ∃ answers out, exec drift p answers s = some out ∧ ∀ x ∈ out.calls, adm x := by
  induction p generalizing s with
  | ret a => exact ⟨[], _, rfl, fun x hx => absurd hx List.not_mem_nil⟩
  | throw e => exact ⟨[], _, rfl, fun x hx => absurd hx List.not_mem_nil⟩
  | get k ih => exact ih s.mem s
  | set m p ih => exact ih ⟨m, s.world⟩
  | await op k ih =>
    obtain ⟨c, d, r, w, hfirst, hper⟩ := hadm op s
    obtain ⟨answers, out, hexec, hrest⟩ := ih r ⟨drift d s.mem, w⟩
    refine ⟨(c, d) :: answers, out.after [⟨op, s, c, d⟩], ?_, ?_⟩
    · rw [exec, hper, Option.bind_some, hexec, Option.map_some]
    · intro x hx
      rcases List.mem_cons.mp hx with rfl | hx
      · exact hfirst
      · exact hrest x hx

/-! ## 2. Triples -/

/-- However its calls are answered, within what is admitted, the program ends as `Q` says. -/
def Alone (drift : D → S.Mem → S.Mem) (adm : Exchange S W D → Prop) (p : Prog S α)
    (Q : List (Exchange S W D) → Except S.Err α → St S W → Prop) (s : St S W) : Prop :=
  ∀ answers out, exec drift p answers s = some out → (∀ c ∈ out.calls, adm c) →
    Q out.calls out.res out.st

section Rules

variable {adm : Exchange S W D → Prop} {s : St S W}
  {Q Q' : List (Exchange S W D) → Except S.Err α → St S W → Prop}

theorem alone_mono {p : Prog S α} (h : Alone drift adm p Q s)
    (himp : ∀ calls r s', Q calls r s' → Q' calls r s') : Alone drift adm p Q' s :=
  fun answers out hexec hadm => himp _ _ _ (h answers out hexec hadm)

theorem alone_pure {a : α} (h : Q [] (.ok a) s) : Alone drift adm (pure a) Q s := by
  intro answers out hexec _
  cases hexec
  exact h

theorem alone_lift {x : Except S.Err α} (h : Q [] x s) : Alone drift adm (.lift x) Q s := by
  intro answers out hexec _
  rw [exec_lift] at hexec
  cases hexec
  exact h

theorem alone_gets {f : S.Mem → α} (h : Q [] (.ok (f s.mem)) s) :
    Alone drift adm (.gets f) Q s := by
  intro answers out hexec _
  cases hexec
  exact h

theorem alone_modify {f : S.Mem → S.Mem}
    {Q : List (Exchange S W D) → Except S.Err Unit → St S W → Prop}
    (h : Q [] (.ok ()) ⟨f s.mem, s.world⟩) : Alone drift adm (.modify f) Q s := by
  intro answers out hexec _
  cases hexec
  exact h

/-- The rule of a call: it is answered, and the state drifts while it waits. -/
theorem alone_call {op : S.Op} {Q : List (Exchange S W D) → Except S.Err (S.Res op) → St S W → Prop}
    (h : ∀ c d r w, adm ⟨op, s, c, d⟩ → W.perform op c s.world = some (r, w) →
      Q [⟨op, s, c, d⟩] r ⟨drift d s.mem, w⟩) : Alone drift adm (.call op) Q s := by
  intro answers out hexec hadm
  rw [exec_call] at hexec
  split at hexec
  case h_1 => cases hexec
  case h_2 c d answers =>
    obtain ⟨⟨r, w⟩, hper, rfl⟩ := Option.map_eq_some_iff.mp hexec
    exact h c d r w (hadm _ (List.mem_singleton.mpr rfl)) hper

/-- Sequencing: the calls of the second program follow those of the first. -/
theorem alone_seq {p : Prog S α} {f : α → Prog S β}
    {R : List (Exchange S W D) → Except S.Err α → St S W → Prop}
    {Q : List (Exchange S W D) → Except S.Err β → St S W → Prop} (hp : Alone drift adm p R s)
    (hok : ∀ calls a s', R calls (.ok a) s' →
      Alone drift adm (f a) (fun calls' => Q (calls ++ calls')) s')
    (herr : ∀ calls e s', R calls (.error e) s' → Q calls (.error e) s') :
    Alone drift adm (p >>= f) Q s := by
  intro answers out hexec hadm
  rw [exec_bind] at hexec
  obtain ⟨mid, hmid, hthen⟩ := Option.bind_eq_some_iff.mp hexec
  obtain ⟨res, st, calls, rest⟩ := mid
  cases res with
  | ok a =>
    obtain ⟨last, hlast, rfl⟩ := Option.map_eq_some_iff.mp hthen
    have hfirst := hp _ _ hmid fun c hc => hadm c (List.mem_append_left _ hc)
    exact hok calls a st hfirst _ _ hlast fun c hc => hadm c (List.mem_append_right _ hc)
  | error e =>
    cases hthen
    exact herr calls e st (hp _ _ hmid hadm)

/-- A program that makes no call of its own before `f`. -/
theorem alone_then {p : Prog S α} {f : α → Prog S β}
    {Q : List (Exchange S W D) → Except S.Err β → St S W → Prop}
    (hp : Alone drift adm p (fun calls r s' => calls = [] ∧ ∃ a, r = .ok a ∧
      Alone drift adm (f a) Q s') s) : Alone drift adm (p >>= f) Q s := by
  refine alone_seq hp ?_ ?_
  · rintro calls a s' ⟨rfl, a', ha, hf⟩
    cases ha
    exact hf
  · rintro calls e s' ⟨-, a', ha, -⟩
    cases ha

/-- A synchronous computation first. -/
theorem alone_lift_seq {x : Except S.Err α} {f : α → Prog S β}
    {Q : List (Exchange S W D) → Except S.Err β → St S W → Prop}
    (hok : ∀ a, x = .ok a → Alone drift adm (f a) Q s)
    (herr : ∀ e, x = .error e → Q [] (.error e) s) :
    Alone drift adm (Prog.lift x >>= f) Q s := by
  cases x with
  | ok a => exact hok a rfl
  | error e =>
    intro answers out hexec _
    cases hexec
    exact herr e rfl

/-- `tryCatch`: the calls of the handler follow those of the program that threw. -/
theorem alone_tryCatch {p : Prog S α} {h : S.Err → Prog S α}
    {R : List (Exchange S W D) → Except S.Err α → St S W → Prop} (hp : Alone drift adm p R s)
    (hok : ∀ calls a s', R calls (.ok a) s' → Q calls (.ok a) s')
    (herr : ∀ calls e s', R calls (.error e) s' →
      Alone drift adm (h e) (fun calls' => Q (calls ++ calls')) s') :
    Alone drift adm (p.tryCatch h) Q s := by
  intro answers out hexec hadm
  rw [exec_tryCatch] at hexec
  obtain ⟨mid, hmid, hcatch⟩ := Option.bind_eq_some_iff.mp hexec
  obtain ⟨res, st, calls, rest⟩ := mid
  cases res with
  | ok a =>
    cases hcatch
    exact hok calls a st (hp _ _ hmid hadm)
  | error e =>
    obtain ⟨last, hlast, rfl⟩ := Option.map_eq_some_iff.mp hcatch
    have hfirst := hp _ _ hmid fun c hc => hadm c (List.mem_append_left _ hc)
    exact herr calls e st hfirst _ _ hlast fun c hc => hadm c (List.mem_append_right _ hc)

end Rules

/-! ## 3. Two programs with the same answers -/

variable {O γ δ : Type}

/-- What an exchange says outside: what can be seen of the question, and what was answered. -/
def Exchange.said (view : S.Op → O) (x : Exchange S W D) : O × W.Choice × D :=
  (view x.op, x.choice, x.drift)

/-- Two outcomes that cannot be told apart from outside. -/
structure Matching (view : S.Op → O) (R : St S W → St S W → Prop) (T : α → β → Prop)
    (out : Outcome S W D α) (out' : Outcome S W D β) : Prop where
  res : ExceptRel Eq T out.res out'.res
  st : R out.st out'.st
  calls : out'.calls.map (Exchange.said view) = out.calls.map (Exchange.said view)
  rest : out'.rest = out.rest

/-- From related states and with the same answers, the programs make calls that look the same and
end the same way, with related values in related states. -/
def Alike (drift : D → S.Mem → S.Mem) (view : S.Op → O) (R : St S W → St S W → Prop)
    (T : α → β → Prop) (p : Prog S α) (p' : Prog S β) : Prop :=
  ∀ s s', R s s' → ∀ answers : List (W.Choice × D),
    Option.Rel (Matching view R T) (exec drift p answers s) (exec drift p' answers s')

section Alike

variable {view : S.Op → O} {R : St S W → St S W → Prop} {T : α → β → Prop} {U : γ → δ → Prop}

theorem Matching.after {out : Outcome S W D α} {out' : Outcome S W D β}
    (h : Matching view R T out out') {calls calls' : List (Exchange S W D)}
    (hcalls : calls'.map (Exchange.said view) = calls.map (Exchange.said view)) :
    Matching view R T (out.after calls) (out'.after calls') := by
  refine ⟨h.res, h.st, ?_, h.rest⟩
  simp only [Outcome.after, List.map_append, hcalls, h.calls]

theorem Matching.map {x : Option (Outcome S W D α)} {x' : Option (Outcome S W D β)}
    (h : Option.Rel (Matching view R T) x x') {calls calls' : List (Exchange S W D)}
    (hcalls : calls'.map (Exchange.said view) = calls.map (Exchange.said view)) :
    Option.Rel (Matching view R T) (x.map (Outcome.after calls)) (x'.map (Outcome.after calls')) := by
  cases h with
  | none => exact .none
  | some hm => exact .some (hm.after hcalls)

theorem alike_pure {a : α} {b : β} (h : T a b) :
    Alike (D := D) drift view R T (pure a) (pure b) :=
  fun _ _ hR _ => .some ⟨.ok h, hR, rfl, rfl⟩

theorem alike_lift (x : Except S.Err α) :
    Alike (D := D) drift view R Eq (.lift x) (.lift x) := by
  intro s s' hR answers
  rw [exec_lift, exec_lift]
  exact .some ⟨.refl x, hR, rfl, rfl⟩

theorem alike_gets {f : S.Mem → α} {f' : S.Mem → β} (h : ∀ s s', R s s' → T (f s.mem) (f' s'.mem)) :
    Alike (D := D) drift view R T (.gets f) (.gets f') :=
  fun s s' hR _ => .some ⟨.ok (h s s' hR), hR, rfl, rfl⟩

theorem alike_modify {f f' : S.Mem → S.Mem}
    (h : ∀ s s', R s s' → R ⟨f s.mem, s.world⟩ ⟨f' s'.mem, s'.world⟩) :
    Alike (D := D) drift view R Eq (.modify f) (.modify f') :=
  fun s s' hR _ => .some ⟨.ok rfl, h s s' hR, rfl, rfl⟩

/-- Calls that look the same, answered the same way, from related states. -/
theorem alike_call {op op' : S.Op} (hop : view op' = view op) {T : S.Res op → S.Res op' → Prop}
    (hper : ∀ s s' c, R s s' → Option.Rel (fun rw rw' => ExceptRel Eq T rw.1 rw'.1 ∧
      ∀ d, R ⟨drift d s.mem, rw.2⟩ ⟨drift d s'.mem, rw'.2⟩)
        (W.perform op c s.world) (W.perform op' c s'.world)) :
    Alike (D := D) drift view R T (.call op) (.call op') := by
  intro s s' hR answers
  rw [exec_call, exec_call]
  cases answers with
  | nil => exact .none
  | cons answer answers =>
    obtain ⟨c, d⟩ := answer
    have h := hper s s' c hR
    have hsaid : [Exchange.mk op' s' c d].map (Exchange.said view) =
        [Exchange.mk op s c d].map (Exchange.said view) := by
      simp only [List.map_cons, List.map_nil, Exchange.said, hop]
    dsimp only
    generalize W.perform op c s.world = x at h ⊢
    generalize W.perform op' c s'.world = x' at h ⊢
    cases h with
    | none => exact .none
    | some h => exact .some ⟨h.1, h.2 d, hsaid, rfl⟩

theorem alike_bind {p : Prog S α} {p' : Prog S β} {f : α → Prog S γ} {f' : β → Prog S δ}
    (hp : Alike (D := D) drift view R T p p')
    (hf : ∀ a b, T a b → Alike (D := D) drift view R U (f a) (f' b)) :
    Alike (D := D) drift view R U (p >>= f) (p' >>= f') := by
  intro s s' hR answers
  rw [exec_bind, exec_bind]
  have h := hp s s' hR answers
  generalize exec drift p answers s = x at h ⊢
  generalize exec drift p' answers s' = x' at h ⊢
  cases h with
  | none => exact .none
  | @some out out' hm =>
    obtain ⟨res, st, calls, rest⟩ := out
    obtain ⟨res', st', calls', rest'⟩ := out'
    obtain ⟨hres, hst, hcalls, rfl⟩ := hm
    cases hres with
    | ok hT => exact Matching.map (hf _ _ hT st st' hst rest') hcalls
    | error he => exact .some ⟨.error he, hst, hcalls, rfl⟩

/-- `alike_bind` where the first programs end with the same value. -/
theorem alike_then {p p' : Prog S α} {f : α → Prog S γ} {f' : α → Prog S δ}
    (hp : Alike (D := D) drift view R Eq p p')
    (hf : ∀ a, Alike (D := D) drift view R U (f a) (f' a)) :
    Alike (D := D) drift view R U (p >>= f) (p' >>= f') :=
  alike_bind hp fun a _ hab => hab ▸ hf a

theorem alike_tryCatch {p : Prog S α} {p' : Prog S β} {h : S.Err → Prog S α} {h' : S.Err → Prog S β}
    (hp : Alike (D := D) drift view R T p p')
    (hh : ∀ e, Alike (D := D) drift view R T (h e) (h' e)) :
    Alike (D := D) drift view R T (p.tryCatch h) (p'.tryCatch h') := by
  intro s s' hR answers
  rw [exec_tryCatch, exec_tryCatch]
  have hrel := hp s s' hR answers
  generalize exec drift p answers s = x at hrel ⊢
  generalize exec drift p' answers s' = x' at hrel ⊢
  cases hrel with
  | none => exact .none
  | @some out out' hm =>
    obtain ⟨res, st, calls, rest⟩ := out
    obtain ⟨res', st', calls', rest'⟩ := out'
    obtain ⟨hres, hst, hcalls, rfl⟩ := hm
    cases hres with
    | ok hT => exact .some ⟨.ok hT, hst, hcalls, rfl⟩
    | error he => exact Matching.map (he ▸ hh _ st st' hst rest') hcalls

end Alike

end Async
