/-
# Calls under a readers-writer lock

A server answers every call in a thread of its own.  A call enters the lock at most once, works on
the shared state in small steps while it is inside, gives the lock back and replies.  Between two
steps of one call any other call may take steps.  The lock forbids one thing only: that two calls
are inside together and one of them is a writer.  Which of the calls that wait comes in next is
left open, and so is whether a call ever comes in; a call that needs no lock (`Mode.free`) touches
nothing that is shared.

`Program` is a call: how it enters, the variables it starts with, its moves and its reply.  That a
reader writes nothing, and that a call outside has no moves, are fields of the type.  A move reads
and writes the shared state and the variables at once, so a statement like `n++` is two of them
when another thread could come between.  `Program.run` is what a call does when nobody else is
there.

The main result is `linearizable`: in every state that can be reached there is one order of the
calls that have come in (the order in which they came in) such that every reply is the one the
call would have made had the calls been run one after another, each alone, in that order; and a
call that had replied before another was made stands before it (`Linear.lt_of_replied`).  With no
writer inside, the shared state is the one that the calls in that order leave.

The invariant behind it, `Inv`, keeps the state that the calls so far would have left and says of
each call inside what its remaining moves still have to do to it.

A schedule (`after`) is a list of requests to a scheduler, which computes a run; what cannot be
done is not done, so every schedule is a run (`reachable_after`).
-/
import Mathlib.Logic.Relation

namespace RwLock

/-! ## 1. Programs -/

/-- How a call enters: without the lock, as one of several readers, or as the only writer. -/
inductive Mode
  | free
  | read
  | write
  deriving DecidableEq

/-- A step inside, on the shared state and the variables of the call. -/
abbrev Move (σ ℓ : Type) := σ → ℓ → σ × ℓ

/-- The moves of a call with nobody else there. -/
def exec {σ ℓ : Type} : List (Move σ ℓ) → σ → ℓ → σ × ℓ
  | [], s, l => (s, l)
  | f :: rest, s, l => exec rest (f s l).1 (f s l).2

/-- A call: the variables it starts with, what it does inside, and what it replies.  Who is not
inside touches nothing, and who is inside as a reader writes nothing. -/
structure Program (σ ℓ ρ : Type) where
  mode : Mode
  start : ℓ
  body : List (Move σ ℓ)
  reply : ℓ → ρ
  outside : mode = .free → body = []
  readOnly : mode = .read → ∀ f ∈ body, ∀ s l, (f s l).1 = s

variable {σ ℓ ρ Q : Type}

namespace Program

/-- A reply that needs nothing of the shared state. -/
def pure (l : ℓ) (r : ρ) : Program σ ℓ ρ where
  mode := .free
  start := l
  body := []
  reply _ := r
  outside _ := rfl
  readOnly := by simp

/-- The same call with another reply. -/
def map {ρ' : Type} (g : ρ → ρ') (p : Program σ ℓ ρ) : Program σ ℓ ρ' :=
  { p with reply := fun l => g (p.reply l) }

/-- The call when nobody else is there: the state it leaves and its reply. -/
def run (p : Program σ ℓ ρ) (s : σ) : σ × ρ :=
  ((exec p.body s p.start).1, p.reply (exec p.body s p.start).2)

@[simp] theorem run_pure (l : ℓ) (r : ρ) (s : σ) : (pure l r : Program σ ℓ ρ).run s = (s, r) := rfl

@[simp] theorem run_map {ρ' : Type} (g : ρ → ρ') (p : Program σ ℓ ρ) (s : σ) :
    (p.map g).run s = ((p.run s).1, g (p.run s).2) := rfl

end Program

/-- Calls one after another, each alone: the state they leave and their replies. -/
def serial (program : Q → Program σ ℓ ρ) : List Q → σ → σ × List ρ
  | [], s => (s, [])
  | q :: rest, s =>
    ((serial program rest ((program q).run s).1).1,
      ((program q).run s).2 :: (serial program rest ((program q).run s).1).2)

theorem serial_append (program : Q → Program σ ℓ ρ) (qs : List Q) (q : Q) (s : σ) :
    serial program (qs ++ [q]) s =
      (((program q).run (serial program qs s).1).1,
        (serial program qs s).2 ++ [((program q).run (serial program qs s).1).2]) := by
  induction qs generalizing s with
  | nil => rfl
  | cons q' qs ih =>
    rw [List.cons_append, serial, ih]
    rfl

/-- The reply at a place is that of the call there, after those before it. -/
theorem serial_getElem? (program : Q → Program σ ℓ ρ) (qs : List Q) (s : σ) (k : Nat) :
    (serial program qs s).2[k]? =
      qs[k]?.map fun q => ((program q).run (serial program (qs.take k) s).1).2 := by
  induction qs generalizing s k with
  | nil => rfl
  | cons q qs ih =>
    cases k with
    | zero => rfl
    | succ k =>
      rw [serial, List.getElem?_cons_succ, List.getElem?_cons_succ, List.take_succ_cons, serial]
      exact ih _ k

/-! ## 2. The calls in progress -/

/-- Where a call stands. -/
inductive Phase (σ ℓ ρ : Type)
  | waiting
  | inside (l : ℓ) (rest : List (Move σ ℓ))
  | leaving (l : ℓ)
  /-- It has replied, and so many calls had been made by then. -/
  | replied (r : ρ) (made : Nat)

structure Call (Q σ ℓ ρ : Type) where
  request : Q
  phase : Phase σ ℓ ρ

/-- The calls stand in the order in which they were made. -/
structure State (Q σ ℓ ρ : Type) where
  shared : σ
  calls : List (Call Q σ ℓ ρ)

namespace Phase

def isInside : Phase σ ℓ ρ → Prop
  | inside _ _ => True
  | _ => False

end Phase

variable (program : Q → Program σ ℓ ρ)

/-- The call is inside with the lock. -/
def Holds (c : Call Q σ ℓ ρ) : Prop := c.phase.isInside ∧ (program c.request).mode ≠ .free

/-- The call is inside as the writer. -/
def Writes (c : Call Q σ ℓ ρ) : Prop := c.phase.isInside ∧ (program c.request).mode = .write

/-- A call may come in. -/
def Admits (s : State Q σ ℓ ρ) : Mode → Prop
  | .free => True
  | .read => ∀ c ∈ s.calls, ¬ Writes program c
  | .write => ∀ c ∈ s.calls, ¬ Holds program c

/-- A call goes on to a phase. -/
def State.put (s : State Q σ ℓ ρ) (i : Nat) (q : Q) (ph : Phase σ ℓ ρ) : State Q σ ℓ ρ :=
  { s with calls := s.calls.set i ⟨q, ph⟩ }

/-- What can happen next. -/
inductive Step : State Q σ ℓ ρ → State Q σ ℓ ρ → Prop
  | call (s : State Q σ ℓ ρ) (q : Q) : Step s { s with calls := s.calls ++ [⟨q, .waiting⟩] }
  | enter (s : State Q σ ℓ ρ) (i : Nat) (q : Q) (h : s.calls[i]? = some ⟨q, .waiting⟩)
      (hfree : Admits program s (program q).mode) :
      Step s (s.put i q (.inside (program q).start (program q).body))
  | move (s : State Q σ ℓ ρ) (i : Nat) (q : Q) (l : ℓ) (f : Move σ ℓ) (rest : List (Move σ ℓ))
      (h : s.calls[i]? = some ⟨q, .inside l (f :: rest)⟩) :
      Step s { s.put i q (.inside (f s.shared l).2 rest) with shared := (f s.shared l).1 }
  | leave (s : State Q σ ℓ ρ) (i : Nat) (q : Q) (l : ℓ)
      (h : s.calls[i]? = some ⟨q, .inside l []⟩) : Step s (s.put i q (.leaving l))
  | reply (s : State Q σ ℓ ρ) (i : Nat) (q : Q) (l : ℓ)
      (h : s.calls[i]? = some ⟨q, .leaving l⟩) :
      Step s (s.put i q (.replied ((program q).reply l) s.calls.length))

/-- What a server that starts with `σ₀` can come to. -/
def Reachable (σ₀ : σ) (s : State Q σ ℓ ρ) : Prop :=
  Relation.ReflTransGen (Step program) ⟨σ₀, []⟩ s

/-! ### A schedule -/

instance : DecidablePred (Phase.isInside : Phase σ ℓ ρ → Prop)
  | .waiting => isFalse id
  | .inside _ _ => isTrue trivial
  | .leaving _ => isFalse id
  | .replied _ _ => isFalse id

instance : DecidablePred (Holds program) := fun _ => inferInstanceAs (Decidable (_ ∧ _))

instance : DecidablePred (Writes program) := fun _ => inferInstanceAs (Decidable (_ ∧ _))

instance (s : State Q σ ℓ ρ) (m : Mode) : Decidable (Admits program s m) :=
  match m with
  | .free => isTrue trivial
  | .read => inferInstanceAs (Decidable (∀ c ∈ s.calls, ¬ Writes program c))
  | .write => inferInstanceAs (Decidable (∀ c ∈ s.calls, ¬ Holds program c))

/-- What a scheduler asks for. -/
inductive Event (Q : Type)
  | call (q : Q)
  | enter (i : Nat)
  | go (i : Nat)

/-- A call inside, or one that is leaving, goes on. -/
def State.go (s : State Q σ ℓ ρ) (i : Nat) : State Q σ ℓ ρ :=
  match s.calls[i]? with
  | some ⟨q, .inside l (f :: rest)⟩ =>
    { s.put i q (.inside (f s.shared l).2 rest) with shared := (f s.shared l).1 }
  | some ⟨q, .inside l []⟩ => s.put i q (.leaving l)
  | some ⟨q, .leaving l⟩ => s.put i q (.replied ((program q).reply l) s.calls.length)
  | _ => s

/-- What cannot be done is not done. -/
def State.next (s : State Q σ ℓ ρ) : Event Q → State Q σ ℓ ρ
  | .call q => { s with calls := s.calls ++ [⟨q, .waiting⟩] }
  | .enter i =>
    match s.calls[i]? with
    | some ⟨q, .waiting⟩ =>
      if Admits program s (program q).mode then
        s.put i q (.inside (program q).start (program q).body)
      else s
    | _ => s
  | .go i => s.go program i

/-- The state after a schedule. -/
def after (σ₀ : σ) (events : List (Event Q)) : State Q σ ℓ ρ :=
  events.foldl (State.next program) ⟨σ₀, []⟩

theorem go_cases (s : State Q σ ℓ ρ) (i : Nat) :
    s.go program i = s ∨ Step program s (s.go program i) := by
  unfold State.go
  split
  case h_1 q l f rest h => exact Or.inr (.move s i q l f rest h)
  case h_2 q l h => exact Or.inr (.leave s i q l h)
  case h_3 q l h => exact Or.inr (.reply s i q l h)
  case h_4 => exact Or.inl rfl

theorem next_cases (s : State Q σ ℓ ρ) (ev : Event Q) :
    s.next program ev = s ∨ Step program s (s.next program ev) := by
  cases ev with
  | call q => exact Or.inr (.call s q)
  | enter i =>
    unfold State.next
    dsimp only
    split
    case h_1 q h =>
      split
      case isTrue hfree => exact Or.inr (.enter s i q h hfree)
      case isFalse => exact Or.inl rfl
    case h_2 => exact Or.inl rfl
  | go i => exact go_cases program s i

/-- Every schedule is a run. -/
theorem reachable_after (σ₀ : σ) (events : List (Event Q)) :
    Reachable program σ₀ (after program σ₀ events) := by
  have hrun : ∀ (events : List (Event Q)) (s : State Q σ ℓ ρ), Reachable program σ₀ s →
      Reachable program σ₀ (events.foldl (State.next program) s) := by
    intro events
    induction events with
    | nil => exact fun s hs => hs
    | cons ev events ih =>
      intro s hs
      rcases next_cases program s ev with hsame | hstep
      · rw [List.foldl_cons, hsame]
        exact ih s hs
      · exact ih _ (hs.tail hstep)
  exact hrun events _ .refl

/-- Who goes on keeps the request. -/
theorem request_put {s : State Q σ ℓ ρ} {i : Nat} {q : Q} {ph ph' : Phase σ ℓ ρ}
    (h : s.calls[i]? = some ⟨q, ph⟩) {c : Call Q σ ℓ ρ} (hc : c ∈ (s.put i q ph').calls) :
    ∃ d ∈ s.calls, d.request = c.request := by
  rcases List.mem_or_eq_of_mem_set hc with hold | rfl
  · exact ⟨c, hold, rfl⟩
  · exact ⟨_, List.mem_of_getElem? h, rfl⟩

theorem go_request (s : State Q σ ℓ ρ) (i : Nat) :
    (s.go program i).calls.length = s.calls.length ∧
      ∀ c ∈ (s.go program i).calls, ∃ d ∈ s.calls, d.request = c.request := by
  unfold State.go
  split
  case h_1 h => exact ⟨List.length_set, fun c hc => request_put h hc⟩
  case h_2 h => exact ⟨List.length_set, fun c hc => request_put h hc⟩
  case h_3 h => exact ⟨List.length_set, fun c hc => request_put h hc⟩
  case h_4 => exact ⟨rfl, fun c hc => ⟨c, hc, rfl⟩⟩

theorem next_request (s : State Q σ ℓ ρ) (ev : Event Q) :
    (s.next program ev).calls.length ≤ s.calls.length + 1 ∧
      ∀ c ∈ (s.next program ev).calls,
        ev = .call c.request ∨ ∃ d ∈ s.calls, d.request = c.request := by
  cases ev with
  | call q =>
    refine ⟨by simp [State.next], fun c hc => ?_⟩
    rcases List.mem_append.mp hc with hc | hc
    · exact Or.inr ⟨c, hc, rfl⟩
    · rw [List.mem_singleton.mp hc]
      exact Or.inl rfl
  | enter i =>
    unfold State.next
    dsimp only
    split
    case h_1 h =>
      split
      case isTrue =>
        exact ⟨by simp [State.put], fun c hc => Or.inr (request_put h hc)⟩
      case isFalse => exact ⟨Nat.le_succ _, fun c hc => Or.inr ⟨c, hc, rfl⟩⟩
    case h_2 => exact ⟨Nat.le_succ _, fun c hc => Or.inr ⟨c, hc, rfl⟩⟩
  | go i =>
    obtain ⟨hlen, hmem⟩ := go_request program s i
    exact ⟨by rw [State.next, hlen]; exact Nat.le_succ _, fun c hc => Or.inr (hmem c hc)⟩

/-- The calls are those that the schedule asked for. -/
theorem calls_after (σ₀ : σ) (events : List (Event Q)) :
    (after program σ₀ events).calls.length ≤ events.length ∧
      ∀ c ∈ (after program σ₀ events).calls, .call c.request ∈ events := by
  have hrun : ∀ (events : List (Event Q)) (s : State Q σ ℓ ρ),
      (events.foldl (State.next program) s).calls.length ≤ s.calls.length + events.length ∧
        ∀ c ∈ (events.foldl (State.next program) s).calls,
          .call c.request ∈ events ∨ ∃ d ∈ s.calls, d.request = c.request := by
    intro events
    induction events with
    | nil => exact fun s => ⟨Nat.le_refl _, fun c hc => Or.inr ⟨c, hc, rfl⟩⟩
    | cons ev events ih =>
      intro s
      obtain ⟨hlen, hmem⟩ := ih (s.next program ev)
      obtain ⟨hlen', hmem'⟩ := next_request program s ev
      rw [List.foldl_cons, List.length_cons]
      refine ⟨by omega, fun c hc => ?_⟩
      rcases hmem c hc with hlater | ⟨d, hd, hdc⟩
      · exact Or.inl (List.mem_cons_of_mem _ hlater)
      · rcases hmem' d hd with hev | hold
        · exact Or.inl (by rw [← hdc, ← hev]; exact List.mem_cons_self)
        · exact Or.inr (by rw [← hdc]; exact hold)
  obtain ⟨hlen, hmem⟩ := hrun events ⟨σ₀, []⟩
  refine ⟨by simpa [after] using hlen, fun c hc => ?_⟩
  rcases hmem c hc with h | ⟨d, hd, -⟩
  · exact h
  · cases hd

/-! ## 3. The order of the calls -/

/-- A call that has come in, and what it replies or will reply. -/
structure Entry (Q ρ : Type) where
  call : Nat
  request : Q
  reply : ρ

/-- The reply that a phase leads to, as long as nobody writes in between. -/
def Due (p : Program σ ℓ ρ) (s : σ) (r : ρ) : Phase σ ℓ ρ → Prop
  | .waiting => False
  | .inside l rest => p.reply (exec rest s l).2 = r
  | .leaving l => p.reply l = r
  | .replied r' _ => r' = r

/-- What is left to do inside is the end of the body. -/
def Fits (c : Call Q σ ℓ ρ) : Prop :=
  ∀ l rest, c.phase = .inside l rest → rest <:+ (program c.request).body

/-- Where the calls stand, against the calls that have come in run one after another. -/
structure Inv (σ₀ : σ) (s : State Q σ ℓ ρ) (log : List (Entry Q ρ)) (ghost : σ) : Prop where
  serial : serial program (log.map Entry.request) σ₀ = (ghost, log.map Entry.reply)
  due : ∀ e ∈ log, ∃ ph, s.calls[e.call]? = some ⟨e.request, ph⟩ ∧
    Due (program e.request) s.shared e.reply ph
  entered : ∀ (i : Nat) (c : Call Q σ ℓ ρ), s.calls[i]? = some c → c.phase = .waiting ∨ ∃ e ∈ log, e.call = i
  nodup : (log.map Entry.call).Nodup
  fits : ∀ c ∈ s.calls, Fits program c
  alone : ∀ (i j : Nat) (c d : Call Q σ ℓ ρ), i ≠ j → s.calls[i]? = some c → s.calls[j]? = some d → Writes program c →
    ¬ Holds program d
  settled : (∀ c ∈ s.calls, ¬ Writes program c) → s.shared = ghost
  pending : ∀ q l rest, ⟨q, .inside l rest⟩ ∈ s.calls → (program q).mode = .write →
    (exec rest s.shared l).1 = ghost
  made : ∀ (i : Nat) (q : Q) (r : ρ) (n : Nat), s.calls[i]? = some ⟨q, .replied r n⟩ → i < n
  order : log.Pairwise fun a b => ∀ q r n, s.calls[b.call]? = some ⟨q, .replied r n⟩ → a.call < n

/-! ### Lists of calls -/

theorem put_self {s : State Q σ ℓ ρ} {i : Nat} {c : Call Q σ ℓ ρ} (h : s.calls[i]? = some c) (q : Q)
    (ph : Phase σ ℓ ρ) : (s.put i q ph).calls[i]? = some ⟨q, ph⟩ := by
  obtain ⟨hlt, -⟩ := List.getElem?_eq_some_iff.mp h
  simp [State.put, hlt]

theorem put_other (s : State Q σ ℓ ρ) {i j : Nat} (h : i ≠ j) (q : Q) (ph : Phase σ ℓ ρ) :
    (s.put i q ph).calls[j]? = s.calls[j]? := by
  simp [State.put, h]

theorem mem_put {s : State Q σ ℓ ρ} {i : Nat} {q : Q} {ph : Phase σ ℓ ρ} {c : Call Q σ ℓ ρ}
    (h : c ∈ (s.put i q ph).calls) : c = ⟨q, ph⟩ ∨ ∃ j, i ≠ j ∧ s.calls[j]? = some c := by
  obtain ⟨j, hj⟩ := List.mem_iff_getElem?.mp h
  by_cases hij : i = j
  · subst hij
    left
    rw [State.put, List.getElem?_set_self'] at hj
    cases hc : s.calls[i]? with
    | none => rw [hc] at hj; cases hj
    | some d => rw [hc] at hj; exact (Option.some.inj hj).symm
  · exact Or.inr ⟨j, hij, by rw [← put_other s hij q ph]; exact hj⟩

theorem mem_of_getElem? {s : State Q σ ℓ ρ} {i : Nat} {c : Call Q σ ℓ ρ}
    (h : s.calls[i]? = some c) : c ∈ s.calls := List.mem_of_getElem? h

/-! ### Programs that do not write -/

theorem exec_readOnly {body : List (Move σ ℓ)} (h : ∀ f ∈ body, ∀ s l, (f s l).1 = s) (s : σ)
    (l : ℓ) : (exec body s l).1 = s := by
  induction body generalizing l with
  | nil => rfl
  | cons f rest ih =>
    have hf := h f List.mem_cons_self s l
    rw [exec, hf]
    exact ih (fun g hg => h g (List.mem_cons_of_mem _ hg)) _

namespace Program

theorem readOnly_of_not_write (p : Program σ ℓ ρ) (h : p.mode ≠ .write) :
    ∀ f ∈ p.body, ∀ s l, (f s l).1 = s := by
  cases hm : p.mode with
  | free =>
    intro f hf
    rw [p.outside hm] at hf
    cases hf
  | read => exact p.readOnly hm
  | write => exact absurd hm h

theorem run_state (p : Program σ ℓ ρ) (h : p.mode ≠ .write) (s : σ) : (p.run s).1 = s :=
  exec_readOnly (p.readOnly_of_not_write h) s p.start

end Program

theorem Fits.free {c : Call Q σ ℓ ρ} (h : Fits program c) {l : ℓ} {rest : List (Move σ ℓ)}
    (hph : c.phase = .inside l rest) (hm : (program c.request).mode = .free) : rest = [] := by
  have hs := h l rest hph
  rw [(program c.request).outside hm] at hs
  exact List.suffix_nil.mp hs

variable {program} {σ₀ : σ} {s : State Q σ ℓ ρ} {log : List (Entry Q ρ)} {ghost : σ}

/-- The lock is not given while another writes. -/
theorem not_writes_of_admits {m : Mode} (ha : Admits program s m) (hm : m ≠ .free)
    {c : Call Q σ ℓ ρ} (hc : c ∈ s.calls) : ¬ Writes program c := by
  intro hw
  cases m with
  | free => exact hm rfl
  | read => exact ha c hc hw
  | write => exact ha c hc ⟨hw.1, by rw [hw.2]; decide⟩

namespace Inv

/-- A call that has come in waits no longer. -/
theorem not_waiting (h : Inv program σ₀ s log ghost) {e : Entry Q ρ} (he : e ∈ log) {q : Q} :
    s.calls[e.call]? ≠ some ⟨q, .waiting⟩ := by
  intro hw
  obtain ⟨ph, hc, hdue⟩ := h.due e he
  rw [hc] at hw
  cases hw
  exact hdue

/-- Who is inside with the lock has the state to itself, up to readers. -/
theorem settled_of_admits (h : Inv program σ₀ s log ghost) {m : Mode} (hm : m ≠ .free)
    (ha : Admits program s m) : s.shared = ghost :=
  h.settled fun _ hc => not_writes_of_admits ha hm hc

/-- Nobody has come in yet. -/
theorem initial : Inv program σ₀ ⟨σ₀, []⟩ [] σ₀ where
  serial := rfl
  due _ he := absurd he List.not_mem_nil
  entered i c h := by simp at h
  nodup := List.nodup_nil
  fits _ hc := absurd hc List.not_mem_nil
  alone i j c d _ h := by simp at h
  settled _ := rfl
  pending _ _ _ hc := absurd hc List.not_mem_nil
  made i q r n h := by simp at h
  order := List.Pairwise.nil

/-! ### One step

A call that goes on leaves the others where they are.  What has to be said anew is what it is due,
that it is not inside with another, and what the state has to do with the calls run alone. -/

theorem call (h : Inv program σ₀ s log ghost) (q : Q) :
    Inv program σ₀ { s with calls := s.calls ++ [⟨q, .waiting⟩] } log ghost := by
  have hold : ∀ {i : Nat} {c : Call Q σ ℓ ρ}, (s.calls ++ [⟨q, .waiting⟩])[i]? = some c →
      s.calls[i]? = some c ∨ c = ⟨q, .waiting⟩ := by
    intro i c hc
    rw [List.getElem?_append] at hc
    split at hc
    · exact Or.inl hc
    · exact Or.inr (List.mem_singleton.mp (List.mem_of_getElem? hc))
  have hkeep : ∀ {i : Nat} {c : Call Q σ ℓ ρ}, s.calls[i]? = some c →
      (s.calls ++ [⟨q, .waiting⟩])[i]? = some c := by
    intro i c hc
    obtain ⟨hlt, -⟩ := List.getElem?_eq_some_iff.mp hc
    rw [List.getElem?_append_left hlt]
    exact hc
  have houtside : ¬ Holds program (⟨q, .waiting⟩ : Call Q σ ℓ ρ) := fun hh => hh.1
  refine ⟨h.serial, ?_, ?_, h.nodup, ?_, ?_, ?_, ?_, ?_, ?_⟩
  · intro e he
    obtain ⟨ph, hc, hdue⟩ := h.due e he
    exact ⟨ph, hkeep hc, hdue⟩
  · intro i c hc
    rcases hold hc with hc | rfl
    · exact h.entered i c hc
    · exact Or.inl rfl
  · intro c hc
    rcases List.mem_append.mp hc with hc | hc
    · exact h.fits c hc
    · rw [List.mem_singleton.mp hc]
      intro l rest hph
      cases hph
  · intro i j c d hij hc hd hw hh
    rcases hold hc with hc | rfl
    · rcases hold hd with hd | rfl
      · exact h.alone i j c d hij hc hd hw hh
      · exact houtside hh
    · exact hw.1
  · exact fun hnone => h.settled fun c hc => hnone c (List.mem_append_left _ hc)
  · intro q' l rest hc hm
    rcases List.mem_append.mp hc with hc | hc
    · exact h.pending q' l rest hc hm
    · cases List.mem_singleton.mp hc
  · intro i q' r n hc
    rcases hold hc with hc | hc
    · exact h.made i q' r n hc
    · cases hc
  · refine h.order.imp fun {a b} hab q' r n hb => ?_
    rcases hold hb with hb | hb
    · exact hab q' r n hb
    · cases hb

/-- Who replies last has been made before. -/
theorem made_put (h : Inv program σ₀ s log ghost) {i : Nat} {c : Call Q σ ℓ ρ}
    (hi : s.calls[i]? = some c) {q : Q} {ph : Phase σ ℓ ρ}
    (hlast : ∀ r n, ph = .replied r n → n = s.calls.length) (j : Nat) (q' : Q) (r : ρ) (n : Nat)
    (hj : (s.put i q ph).calls[j]? = some ⟨q', .replied r n⟩) : j < n := by
  by_cases hij : i = j
  · subst hij
    rw [put_self hi] at hj
    obtain ⟨hlt, -⟩ := List.getElem?_eq_some_iff.mp hi
    cases hj
    rw [hlast r n rfl]
    exact hlt
  · rw [put_other s hij] at hj
    exact h.made j q' r n hj

theorem enter (h : Inv program σ₀ s log ghost) {i : Nat} {q : Q}
    (hi : s.calls[i]? = some ⟨q, .waiting⟩) (hfree : Admits program s (program q).mode) :
    Inv program σ₀ (s.put i q (.inside (program q).start (program q).body))
      (log ++ [⟨i, q, ((program q).run ghost).2⟩]) ((program q).run ghost).1 := by
  have hself := put_self hi q (.inside (program q).start (program q).body)
  have hne : ∀ e ∈ log, i ≠ e.call := by
    rintro e he rfl
    exact h.not_waiting he hi
  have hstate : (program q).mode ≠ .free → s.shared = ghost := fun hm => h.settled_of_admits hm hfree
  refine ⟨?_, ?_, ?_, ?_, ?_, ?_, ?_, ?_, h.made_put hi (fun _ _ heq => by cases heq), ?_⟩
  · rw [List.map_append, List.map_append, List.map_singleton, List.map_singleton, serial_append,
      h.serial]
  · intro e he
    rcases List.mem_append.mp he with he | he
    · obtain ⟨ph, hc, hdue⟩ := h.due e he
      exact ⟨ph, by rw [put_other s (hne e he)]; exact hc, hdue⟩
    · rw [List.mem_singleton.mp he]
      refine ⟨_, hself, ?_⟩
      by_cases hm : (program q).mode = .free
      · simp only [Due, Program.run, (program q).outside hm, exec]
      · simp only [Due, Program.run]
        rw [show (s.put i q (.inside (program q).start (program q).body)).shared = ghost from hstate hm]
  · intro j c hc
    by_cases hij : i = j
    · subst hij
      exact Or.inr ⟨_, List.mem_append_right _ (List.mem_singleton_self _), rfl⟩
    · rw [put_other s hij] at hc
      rcases h.entered j c hc with hw | ⟨e, he, rfl⟩
      · exact Or.inl hw
      · exact Or.inr ⟨e, List.mem_append_left _ he, rfl⟩
  · rw [List.map_append, List.map_singleton]
    refine List.nodup_append.mpr ⟨h.nodup, List.pairwise_singleton _ _, ?_⟩
    intro j hj k hk
    obtain ⟨e, he, rfl⟩ := List.mem_map.mp hj
    rw [List.mem_singleton.mp hk]
    exact (hne e he).symm
  · intro c hc
    rcases mem_put hc with rfl | ⟨j, -, hc⟩
    · intro l rest hph
      cases hph
      exact List.suffix_refl _
    · exact h.fits c (mem_of_getElem? hc)
  · intro j k c d hjk hc hd hw hh
    by_cases hj : i = j
    · subst hj
      rw [put_other s hjk] at hd
      rw [hself] at hc
      cases hc
      have hm : (program q).mode = .write := hw.2
      rw [hm] at hfree
      exact hfree d (mem_of_getElem? hd) hh
    · rw [put_other s hj] at hc
      by_cases hk : i = k
      · subst hk
        rw [hself] at hd
        cases hd
        exact not_writes_of_admits hfree hh.2 (mem_of_getElem? hc) hw
      · rw [put_other s hk] at hd
        exact h.alone j k c d hjk hc hd hw hh
  · intro hnone
    have hm : (program q).mode ≠ .write := fun hm => hnone _ (mem_of_getElem? hself) ⟨trivial, hm⟩
    rw [Program.run_state _ hm]
    refine h.settled fun c hc hw => ?_
    obtain ⟨j, hj⟩ := List.mem_iff_getElem?.mp hc
    by_cases hij : i = j
    · subst hij
      rw [hi] at hj
      cases hj
      exact hw.1
    · exact hnone c (mem_of_getElem? (by rw [put_other s hij]; exact hj)) hw
  · intro q' l rest hc hm
    rcases mem_put hc with heq | ⟨j, hij, hc⟩
    · cases heq
      rw [show (s.put i q (.inside (program q).start (program q).body)).shared = ghost from
        hstate (by rw [hm]; decide)]
      rfl
    · have hghost : ((program q).run ghost).1 = ghost := by
        refine Program.run_state _ (fun hq => ?_) ghost
        rw [hq] at hfree
        exact hfree _ (mem_of_getElem? hc) ⟨trivial, by rw [hm]; decide⟩
      rw [hghost]
      exact h.pending q' l rest (mem_of_getElem? hc) hm
  · refine List.pairwise_append.mpr ⟨?_, List.pairwise_singleton _ _, ?_⟩
    · refine List.Pairwise.imp_of_mem ?_ h.order
      intro a b _ hb hab q' r n hc
      rw [put_other s (hne b hb)] at hc
      exact hab q' r n hc
    · intro a _ b hb q' r n hc
      rw [List.mem_singleton.mp hb, hself] at hc
      cases hc

/-- Who moves inside holds the lock. -/
theorem holds_of_moves (h : Inv program σ₀ s log ghost) {i : Nat} {q : Q} {l : ℓ} {f : Move σ ℓ}
    {rest : List (Move σ ℓ)} (hi : s.calls[i]? = some ⟨q, .inside l (f :: rest)⟩) :
    Holds program (⟨q, .inside l (f :: rest)⟩ : Call Q σ ℓ ρ) :=
  ⟨trivial, fun hm => by cases (h.fits _ (mem_of_getElem? hi)).free program rfl hm⟩

/-- A move leaves the state alone, or it is the writer's. -/
theorem move_shared (h : Inv program σ₀ s log ghost) {i : Nat} {q : Q} {l : ℓ} {f : Move σ ℓ}
    {rest : List (Move σ ℓ)} (hi : s.calls[i]? = some ⟨q, .inside l (f :: rest)⟩)
    (hm : (program q).mode ≠ .write) : (f s.shared l).1 = s.shared := by
  have hs : (f :: rest) <:+ (program q).body := h.fits _ (mem_of_getElem? hi) l _ rfl
  exact (program q).readOnly_of_not_write hm f (hs.subset List.mem_cons_self) _ _

/-- What another call is due does not depend on a move. -/
theorem due_other (h : Inv program σ₀ s log ghost) {i j : Nat} {q q' : Q} {l : ℓ} {f : Move σ ℓ}
    {rest : List (Move σ ℓ)} (hi : s.calls[i]? = some ⟨q, .inside l (f :: rest)⟩) (hij : i ≠ j)
    {ph : Phase σ ℓ ρ} (hj : s.calls[j]? = some ⟨q', ph⟩) {r : ρ}
    (hdue : Due (program q') s.shared r ph) : Due (program q') (f s.shared l).1 r ph := by
  by_cases hm : (program q).mode = .write
  · cases ph with
    | waiting => exact hdue
    | inside l' rest' =>
      have hfree : (program q').mode = .free := Decidable.byContradiction fun hne =>
        h.alone i j _ _ hij hi hj ⟨trivial, hm⟩ ⟨trivial, hne⟩
      have hnil := (h.fits _ (mem_of_getElem? hj)).free program rfl hfree
      subst hnil
      exact hdue
    | leaving l' => exact hdue
    | replied r' n => exact hdue
  · rw [h.move_shared hi hm]
    exact hdue

/-- A call that is inside goes on to a phase in which it holds no more than before. -/
theorem alone_put (h : Inv program σ₀ s log ghost) {i : Nat} {q : Q} {l : ℓ}
    {rest : List (Move σ ℓ)} (hi : s.calls[i]? = some ⟨q, .inside l rest⟩) (ph : Phase σ ℓ ρ)
    (j k : Nat) (c d : Call Q σ ℓ ρ) (hjk : j ≠ k) (hc : (s.put i q ph).calls[j]? = some c)
    (hd : (s.put i q ph).calls[k]? = some d) (hw : Writes program c) : ¬ Holds program d := by
  intro hh
  have hself := put_self hi q ph
  by_cases hj : i = j
  · subst hj
    rw [hself] at hc
    rw [put_other s hjk] at hd
    cases hc
    exact h.alone i k _ d hjk hi hd ⟨trivial, hw.2⟩ hh
  · rw [put_other s hj] at hc
    by_cases hk : i = k
    · subst hk
      rw [hself] at hd
      cases hd
      exact h.alone j i c _ hjk hc hi hw ⟨trivial, hh.2⟩
    · rw [put_other s hk] at hd
      exact h.alone j k c d hjk hc hd hw hh

/-- A call that has come in goes on, and with it nothing else in the list of those that have. -/
theorem entered_put (h : Inv program σ₀ s log ghost) {i : Nat} {c : Call Q σ ℓ ρ}
    (hi : s.calls[i]? = some c) (hc : c.phase ≠ .waiting) (q : Q) (ph : Phase σ ℓ ρ) (j : Nat)
    (d : Call Q σ ℓ ρ) (hd : (s.put i q ph).calls[j]? = some d) :
    d.phase = .waiting ∨ ∃ e ∈ log, e.call = j := by
  by_cases hij : i = j
  · subst hij
    rcases h.entered i c hi with hw | he
    · exact absurd hw hc
    · exact Or.inr he
  · rw [put_other s hij] at hd
    exact h.entered j d hd

theorem move (h : Inv program σ₀ s log ghost) {i : Nat} {q : Q} {l : ℓ} {f : Move σ ℓ}
    {rest : List (Move σ ℓ)} (hi : s.calls[i]? = some ⟨q, .inside l (f :: rest)⟩) :
    Inv program σ₀ { s.put i q (.inside (f s.shared l).2 rest) with shared := (f s.shared l).1 }
      log ghost := by
  have hself := put_self hi q (.inside (f s.shared l).2 rest)
  refine ⟨h.serial, ?_, h.entered_put hi (by simp) q _, h.nodup, ?_, h.alone_put hi _, ?_, ?_,
    h.made_put hi (fun _ _ heq => by cases heq), ?_⟩
  · intro e he
    obtain ⟨ph, hc, hdue⟩ := h.due e he
    by_cases hie : i = e.call
    · rw [← hie, hi] at hc
      obtain ⟨rfl, rfl⟩ : q = e.request ∧ .inside l (f :: rest) = ph := by simpa using hc
      refine ⟨.inside (f s.shared l).2 rest, ?_, hdue⟩
      rw [← hie]
      exact hself
    · exact ⟨ph, (put_other s hie q _).trans hc, h.due_other hi hie hc hdue⟩
  · intro c hc
    rcases mem_put hc with rfl | ⟨j, -, hc⟩
    · intro l' rest' hph
      cases hph
      exact (List.suffix_cons f rest).trans (h.fits _ (mem_of_getElem? hi) l _ rfl)
    · exact h.fits c (mem_of_getElem? hc)
  · intro hnone
    have hm : (program q).mode ≠ .write := fun hm => hnone _ (mem_of_getElem? hself) ⟨trivial, hm⟩
    refine (h.move_shared hi hm).trans (h.settled fun c hc hw => ?_)
    obtain ⟨j, hj⟩ := List.mem_iff_getElem?.mp hc
    by_cases hij : i = j
    · subst hij
      rw [hi] at hj
      cases hj
      exact hm hw.2
    · exact hnone c (mem_of_getElem? ((put_other s hij q _).trans hj)) hw
  · intro q' l' rest' hc hm
    rcases mem_put hc with heq | ⟨j, hij, hc⟩
    · cases heq
      exact h.pending q l _ (mem_of_getElem? hi) hm
    · exact absurd (h.holds_of_moves hi) (h.alone j i _ _ (Ne.symm hij) hc hi ⟨trivial, hm⟩)
  · refine h.order.imp fun {a b} hab q' r n hb => ?_
    by_cases hib : i = b.call
    · rw [← hib] at hb
      rw [show _ = _ from hself] at hb
      cases hb
    · exact hab q' r n ((put_other s hib q _).symm.trans hb)

/-- A call goes on after its body. -/
theorem put_after (h : Inv program σ₀ s log ghost) {i : Nat} {q : Q} {ph ph' : Phase σ ℓ ρ}
    (hi : s.calls[i]? = some ⟨q, ph⟩) (hin : ∀ l rest, ph = .inside l rest → rest = [])
    (hout : ¬ ph'.isInside) (hdue : ∀ r, Due (program q) s.shared r ph → Due (program q) s.shared r ph')
    (hwait : ph ≠ .waiting) (hlast : ∀ r n, ph' = .replied r n → n = s.calls.length) :
    Inv program σ₀ (s.put i q ph') log ghost := by
  have hself := put_self hi q ph'
  refine ⟨h.serial, ?_, h.entered_put hi hwait q _, h.nodup, ?_, ?_, ?_, ?_, h.made_put hi hlast,
    ?_⟩
  · intro e he
    obtain ⟨ph₁, hc, hdue₁⟩ := h.due e he
    by_cases hie : i = e.call
    · rw [← hie, hi] at hc
      obtain ⟨rfl, rfl⟩ : q = e.request ∧ ph = ph₁ := by simpa using hc
      exact ⟨ph', by rw [← hie]; exact hself, hdue _ hdue₁⟩
    · exact ⟨ph₁, (put_other s hie q _).trans hc, hdue₁⟩
  · intro c hc
    rcases mem_put hc with rfl | ⟨j, -, hc⟩
    · intro l rest hph
      rw [show ph' = .inside l rest from hph] at hout
      exact absurd trivial hout
    · exact h.fits c (mem_of_getElem? hc)
  · intro j k c d hjk hc hd hw hh
    by_cases hj : i = j
    · subst hj
      rw [hself] at hc
      cases hc
      exact hout hw.1
    · by_cases hk : i = k
      · subst hk
        rw [hself] at hd
        cases hd
        exact hout hh.1
      · rw [put_other s hj] at hc
        rw [put_other s hk] at hd
        exact h.alone j k c d hjk hc hd hw hh
  · intro hnone
    by_cases hwrite : Writes program (⟨q, ph⟩ : Call Q σ ℓ ρ)
    · cases ph with
      | inside l rest =>
        rw [hin l rest rfl] at hi
        exact h.pending q l [] (mem_of_getElem? hi) hwrite.2
      | _ => exact hwrite.1.elim
    · refine h.settled fun c hc hw => ?_
      obtain ⟨j, hj⟩ := List.mem_iff_getElem?.mp hc
      by_cases hij : i = j
      · subst hij
        rw [hi] at hj
        cases hj
        exact hwrite hw
      · exact hnone c (mem_of_getElem? ((put_other s hij q _).trans hj)) hw
  · intro q' l rest hc hm
    rcases mem_put hc with heq | ⟨j, -, hc⟩
    · cases heq
      exact absurd trivial hout
    · exact h.pending q' l rest (mem_of_getElem? hc) hm
  · refine List.Pairwise.imp_of_mem ?_ h.order
    intro a b ha hb hab q' r n hc
    by_cases hib : i = b.call
    · rw [← hib, hself] at hc
      cases hc
      obtain ⟨_, hca, -⟩ := h.due a ha
      rw [hlast r n rfl]
      exact (List.getElem?_eq_some_iff.mp hca).1
    · exact hab q' r n ((put_other s hib q _).symm.trans hc)

theorem leave (h : Inv program σ₀ s log ghost) {i : Nat} {q : Q} {l : ℓ}
    (hi : s.calls[i]? = some ⟨q, .inside l []⟩) :
    Inv program σ₀ (s.put i q (.leaving l)) log ghost :=
  h.put_after hi (fun _ _ heq => by cases heq; rfl) id (fun _ hdue => hdue) (by simp)
    (fun _ _ heq => by cases heq)

theorem reply (h : Inv program σ₀ s log ghost) {i : Nat} {q : Q} {l : ℓ}
    (hi : s.calls[i]? = some ⟨q, .leaving l⟩) :
    Inv program σ₀ (s.put i q (.replied ((program q).reply l) s.calls.length)) log ghost :=
  h.put_after hi (fun _ _ heq => by cases heq) id (fun _ hdue => hdue) (by simp)
    (fun _ _ heq => by cases heq; rfl)

theorem step {s' : State Q σ ℓ ρ} (h : Inv program σ₀ s log ghost) (hs : Step program s s') :
    ∃ log' ghost', Inv program σ₀ s' log' ghost' := by
  cases hs with
  | call q => exact ⟨_, _, h.call q⟩
  | enter i q hi hfree => exact ⟨_, _, h.enter hi hfree⟩
  | move i q l f rest hi => exact ⟨_, _, h.move hi⟩
  | leave i q l hi => exact ⟨_, _, h.leave hi⟩
  | reply i q l hi => exact ⟨_, _, h.reply hi⟩

end Inv

/-! ## 4. Every run is a serial run -/

/-- The calls that have come in, in one order, against the calls in progress: run one after
another in that order they make the replies that have been made, no call stands in the order
before one that had replied when it was made, and with no writer inside the state is theirs. -/
structure Linear (program : Q → Program σ ℓ ρ) (σ₀ : σ) (s : State Q σ ℓ ρ)
    (log : List (Entry Q ρ)) : Prop where
  replies : (serial program (log.map Entry.request) σ₀).2 = log.map Entry.reply
  requests : ∀ e ∈ log, ∃ ph, s.calls[e.call]? = some ⟨e.request, ph⟩
  once : (log.map Entry.call).Nodup
  replied : ∀ (i : Nat) (q : Q) (r : ρ) (n : Nat), s.calls[i]? = some ⟨q, .replied r n⟩ →
    ⟨i, q, r⟩ ∈ log
  made : ∀ (i : Nat) (q : Q) (r : ρ) (n : Nat), s.calls[i]? = some ⟨q, .replied r n⟩ → i < n
  order : log.Pairwise fun a b => ∀ q r n, s.calls[b.call]? = some ⟨q, .replied r n⟩ → a.call < n
  state : (∀ c ∈ s.calls, ¬ Writes program c) →
    (serial program (log.map Entry.request) σ₀).1 = s.shared

theorem Inv.linear (h : Inv program σ₀ s log ghost) : Linear program σ₀ s log where
  replies := by rw [h.serial]
  requests e he := by
    obtain ⟨ph, hc, -⟩ := h.due e he
    exact ⟨ph, hc⟩
  once := h.nodup
  replied i q r n hi := by
    rcases h.entered i _ hi with hw | ⟨e, he, rfl⟩
    · cases hw
    · obtain ⟨ph, hc, hdue⟩ := h.due e he
      rw [hi] at hc
      obtain ⟨rfl, rfl⟩ : q = e.request ∧ .replied r n = ph := by simpa using hc
      rw [show r = e.reply from hdue]
      exact he
  made := h.made
  order := h.order
  state hnone := by rw [h.serial, h.settled hnone]

theorem inv_of_reachable (h : Reachable program σ₀ s) : ∃ log ghost, Inv program σ₀ s log ghost := by
  induction h with
  | refl => exact ⟨[], σ₀, Inv.initial⟩
  | tail _ hs ih =>
    obtain ⟨log, ghost, hinv⟩ := ih
    exact hinv.step hs

/-- A reply is what its call makes of the state that those before it leave. -/
theorem Linear.reply_eq (h : Linear program σ₀ s log) {k : Nat} {e : Entry Q ρ}
    (he : log[k]? = some e) : e.reply =
      ((program e.request).run (serial program ((log.take k).map Entry.request) σ₀).1).2 := by
  have hget := serial_getElem? program (log.map Entry.request) σ₀ k
  rw [h.replies, List.getElem?_map, List.getElem?_map, he, ← List.map_take] at hget
  exact Option.some.inj hget

/-- Two calls, one of which had replied when the other was made, stand in this order. -/
theorem Linear.lt_of_replied (h : Linear program σ₀ s log) {a b : Nat} {e d : Entry Q ρ}
    (ha : log[a]? = some e) (hb : log[b]? = some d) {q : Q} {r : ρ} {n : Nat}
    (hr : s.calls[e.call]? = some ⟨q, .replied r n⟩) (hn : n ≤ d.call) : a < b := by
  obtain ⟨hla, rfl⟩ := List.getElem?_eq_some_iff.mp ha
  obtain ⟨hlb, rfl⟩ := List.getElem?_eq_some_iff.mp hb
  rcases Nat.lt_trichotomy a b with hlt | rfl | hgt
  · exact hlt
  · exact absurd hn (Nat.not_le_of_lt (h.made _ _ _ _ hr))
  · exact absurd hn (Nat.not_le_of_lt (List.pairwise_iff_getElem.mp h.order b a hlb hla hgt q r n hr))

/-- Every run is a run of the calls one after another. -/
theorem linearizable (h : Reachable program σ₀ s) : ∃ log, Linear program σ₀ s log := by
  obtain ⟨log, ghost, hinv⟩ := inv_of_reachable h
  exact ⟨log, hinv.linear⟩

end RwLock
