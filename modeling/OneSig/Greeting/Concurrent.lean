/-
# Requests in progress together

Both extensions count what they are asked for, and answer requests that are in progress at the
same time.  Whatever the interleaving, the replies are those of the requests served one after
another in some order, a greeting that is accepted as the `k`-th in this order is answered with
the number `k`, and the state tells what was accepted before it was read.

What the two programs have in common is `Counts`: a request is accepted with a text or it is not
(`accepted`), a request that is accepted adds one to the counter of its kind and keeps its text as
the last one, and its reply says the number (`Numbered`).  Each extension is shown to count once,
request by request and alone (`Alone`); the lock's `linearizable` then gives every run.  So the
code of a handler is walked through in this module, and interleavings are not.

* `Counts.History` is what is known of a run: an order of the requests, which respects real time,
  the number that each accepted one is answered with, and what the state says at each place.
* `Go.concurrent` and `Python.threaded` are this for the two extensions, exceptions of the Python
  handlers among the replies.
* `Go.numbers_apart` draws the conclusion for a client: no two greetings share a number, and a
  greeting that was answered before another was asked for has the lower one.  It asks for fewer
  than 2⁶³ requests, since the counters of the Go extension wrap; those of the Python extension do
  not, and need no bound.

That every request is eventually served is not said: who waits for a lock may wait for ever.
-/
import Mathlib.Data.List.Nodup
import Mathlib.Data.List.Perm.Subperm
import OneSig.Greeting.Python

namespace OneSig.Greeting

open RwLock

/-! ## 1. Tallies -/

inductive Kind
  | greeting
  | farewell
  deriving DecidableEq

/-- What a request is that is counted. -/
structure Accepted where
  kind : Kind
  text : Str
  deriving DecidableEq

namespace State

def count (s : State) : Kind → Int
  | .greeting => s.greetingCount
  | .farewell => s.farewellCount

/-- A request is counted, and its text is the last of its kind. -/
def accept (next : Int → Int) (s : State) (a : Accepted) : State :=
  match a.kind with
  | .greeting => { s with greetingCount := next s.greetingCount, lastGreeting := a.text }
  | .farewell => { s with farewellCount := next s.farewellCount, lastFarewell := a.text }

end State

/-- The texts of a kind. -/
def texts (kind : Kind) (as : List Accepted) : List Str :=
  (as.filter fun a => a.kind = kind).map Accepted.text

/-- The state that says what was accepted. -/
def tally (counter : Nat → Int) (as : List Accepted) : State where
  greetingCount := counter (texts .greeting as).length
  lastGreeting := (texts .greeting as).getLastD []
  farewellCount := counter (texts .farewell as).length
  lastFarewell := (texts .farewell as).getLastD []

theorem texts_append (kind : Kind) (as bs : List Accepted) :
    texts kind (as ++ bs) = texts kind as ++ texts kind bs := by
  rw [texts, List.filter_append, List.map_append]
  rfl

theorem texts_concat (kind : Kind) (as : List Accepted) (a : Accepted) :
    texts kind (as ++ [a]) = if a.kind = kind then texts kind as ++ [a.text] else texts kind as := by
  by_cases h : a.kind = kind
  · simp [texts, h]
  · simp [texts, h]

theorem count_tally (counter : Nat → Int) (as : List Accepted) (kind : Kind) :
    (tally counter as).count kind = counter (texts kind as).length := by
  cases kind with
  | greeting => rfl
  | farewell => rfl

theorem tally_concat {next : Int → Int} {counter : Nat → Int}
    (hsucc : ∀ n, next (counter n) = counter (n + 1)) (as : List Accepted) (a : Accepted) :
    tally counter (as ++ [a]) = (tally counter as).accept next a := by
  cases a with
  | mk kind text =>
    cases kind with
    | greeting => simp [tally, State.accept, texts_concat, hsucc]
    | farewell => simp [tally, State.accept, texts_concat, hsucc]

/-! ## 2. Servers that count -/

section Alone

variable {ℓ ρ ρ' : Type}

/-- What a request alone can do: it is accepted and counted, or it does not look at the state. -/
def Alone (next : Int → Int) (Numbered : ρ → Accepted → Int → Prop) (p : Program State ℓ ρ)
    (accepted : Option Accepted) : Prop :=
  (accepted = none ∧ ∃ r, ∀ s, p.run s = (s, r)) ∨
    ∃ a, accepted = some a ∧ ∀ s, (p.run s).1 = s.accept next a ∧
      Numbered (p.run s).2 a (next (s.count a.kind))

variable {next : Int → Int} {Numbered : ρ → Accepted → Int → Prop}
  {Numbered' : ρ' → Accepted → Int → Prop}

theorem Alone.pure (l : ℓ) (r : ρ) : Alone next Numbered (.pure l r) none :=
  Or.inl ⟨rfl, r, fun _ => rfl⟩

theorem Alone.map {p : Program State ℓ ρ} {accepted : Option Accepted}
    (h : Alone next Numbered p accepted) (g : ρ → ρ')
    (hg : ∀ r a n, Numbered r a n → Numbered' (g r) a n) :
    Alone next Numbered' (p.map g) accepted := by
  rcases h with ⟨hnone, r, hr⟩ | ⟨a, ha, hr⟩
  · exact Or.inl ⟨hnone, g r, fun s => by rw [Program.run_map, hr]⟩
  · exact Or.inr ⟨a, ha, fun s => ⟨(hr s).1, hg _ _ _ (hr s).2⟩⟩

end Alone

/-- What the requests of a server do, each alone. -/
structure Counts {ℓ ρ : Type} (program : Request → Program State ℓ ρ) where
  next : Int → Int
  counter : Nat → Int
  /-- What is counted of a body. -/
  accepted : List UInt8 → Option Accepted
  /-- A reply says that a text of a kind has been counted as a number. -/
  Numbered : ρ → Accepted → Int → Prop
  report : State → ρ
  counter_zero : counter 0 = 0
  counter_succ : ∀ n, next (counter n) = counter (n + 1)
  alone : ∀ body, Alone next Numbered (program (.action body)) (accepted body)
  reports : ∀ s, (program .state).run s = (s, report s)

section

variable {ℓ ρ : Type} {program : Request → Program State ℓ ρ} {s : RwLock.State Request State ℓ ρ}
  {log : List (Entry Request ρ)}

namespace Counts

variable (C : Counts program)

/-- What is counted of a request. -/
def counted : Request → Option Accepted
  | .action body => C.accepted body
  | .state => none

theorem run_state (q : Request) (s : State) :
    ((program q).run s).1 = (C.counted q).elim s (s.accept C.next) := by
  cases q with
  | state => rw [C.reports]; rfl
  | action body =>
    rcases C.alone body with ⟨hnone, r, hr⟩ | ⟨a, ha, hr⟩
    · rw [counted, hnone, hr]
      rfl
    · rw [counted, ha, (hr s).1]
      rfl

theorem run_counted {q : Request} {a : Accepted} (ha : C.counted q = some a) (s : State) :
    C.Numbered ((program q).run s).2 a (C.next (s.count a.kind)) := by
  cases q with
  | state => cases ha
  | action body =>
    rcases C.alone body with ⟨hnone, -⟩ | ⟨a', ha', hr⟩
    · rw [counted, hnone] at ha
      cases ha
    · rw [counted, ha'] at ha
      cases ha
      exact (hr s).2

theorem run_other {q : Request} (hnone : C.counted q = none) (hq : q ≠ .state) (s s' : State) :
    ((program q).run s).2 = ((program q).run s').2 := by
  cases q with
  | state => exact absurd rfl hq
  | action body =>
    rcases C.alone body with ⟨-, r, hr⟩ | ⟨a, ha, -⟩
    · rw [hr, hr]
    · rw [counted, ha] at hnone
      cases hnone

/-- What was counted before a place in the order. -/
def before (log : List (Entry Request ρ)) (k : Nat) : List Accepted :=
  (log.take k).filterMap fun e => C.counted e.request

theorem serial_state (qs : List Request) :
    (serial program qs {}).1 = tally C.counter (qs.filterMap C.counted) := by
  induction qs using List.reverseRecOn with
  | nil =>
    rw [serial, List.filterMap_nil]
    simp [tally, texts, C.counter_zero]
  | append_singleton qs q ih =>
    rw [serial_append, ih, List.filterMap_append, C.run_state]
    cases hq : C.counted q with
    | none => simp [hq]
    | some a =>
      rw [List.filterMap_cons_some hq, List.filterMap_nil, tally_concat C.counter_succ]
      rfl

/-- The order of the requests and what it says about their replies. -/
structure History (s : RwLock.State Request State ℓ ρ) (log : List (Entry Request ρ)) : Prop where
  linear : Linear program {} s log
  numbered : ∀ (k : Nat) (e : Entry Request ρ) (a : Accepted), log[k]? = some e →
    C.counted e.request = some a →
    C.Numbered e.reply a (C.counter ((texts a.kind (C.before log k)).length + 1))
  reported : ∀ (k : Nat) (e : Entry Request ρ), log[k]? = some e → e.request = .state →
    e.reply = C.report (tally C.counter (C.before log k))
  other : ∀ (k : Nat) (e : Entry Request ρ), log[k]? = some e → C.counted e.request = none →
    e.request ≠ .state → e.reply = ((program e.request).run {}).2

theorem reply_eq (h : Linear program {} s log) {k : Nat} {e : Entry Request ρ}
    (he : log[k]? = some e) :
    e.reply = ((program e.request).run (tally C.counter (C.before log k))).2 := by
  rw [h.reply_eq he, C.serial_state, List.filterMap_map]
  rfl

theorem history_of_linear (h : Linear program {} s log) : C.History s log where
  linear := h
  numbered k e a he ha := by
    rw [C.reply_eq h he, ← C.counter_succ, ← count_tally C.counter]
    exact C.run_counted ha _
  reported k e he hq := by
    rw [C.reply_eq h he, hq, C.reports]
  other k e he ha hq := by
    rw [C.reply_eq h he]
    exact C.run_other ha hq _ _

theorem history (h : Reachable program {} s) : ∃ log, C.History s log := by
  obtain ⟨log, hlinear⟩ := linearizable h
  exact ⟨log, C.history_of_linear hlinear⟩

/-! ### Numbers -/

/-- The number that is given out at a place. -/
def number (log : List (Entry Request ρ)) (kind : Kind) (k : Nat) : Nat :=
  (texts kind (C.before log k)).length + 1

theorem number_le (log : List (Entry Request ρ)) (kind : Kind) (k : Nat) :
    C.number log kind k ≤ k + 1 := by
  have hfilter := List.length_filter_le (fun a : Accepted => a.kind = kind) (C.before log k)
  have hmap := List.length_filterMap_le (fun e : Entry Request ρ => C.counted e.request) (log.take k)
  have htake := List.length_take_le k log
  rw [number, texts, List.length_map]
  rw [before] at hfilter ⊢
  omega

/-- A place at which a request was accepted leaves a higher number to those behind it. -/
theorem number_lt {kind : Kind} {j k : Nat} {e : Entry Request ρ} {a : Accepted}
    (he : log[j]? = some e) (ha : C.counted e.request = some a) (hkind : a.kind = kind)
    (hjk : j < k) : C.number log kind j < C.number log kind k := by
  obtain ⟨hlt, rfl⟩ := List.getElem?_eq_some_iff.mp he
  have htake : log.take k = log.take (j + 1) ++ (log.drop (j + 1)).take (k - (j + 1)) := by
    rw [← List.take_add]
    congr 1
    omega
  have hbefore : C.before log (j + 1) = C.before log j ++ [a] := by
    rw [before, List.take_succ_eq_append_getElem hlt, List.filterMap_append,
      List.filterMap_cons_some (f := fun e : Entry Request ρ => C.counted e.request) ha]
    rfl
  have hlater : ∃ rest, C.before log k = C.before log j ++ [a] ++ rest :=
    ⟨((log.drop (j + 1)).take (k - (j + 1))).filterMap fun e => C.counted e.request, by
      rw [← hbefore, before, htake, List.filterMap_append]
      rfl⟩
  obtain ⟨rest, hrest⟩ := hlater
  rw [number, number, hrest, texts_append, texts_concat, if_pos hkind, List.length_append,
    List.length_append, List.length_singleton]
  omega

/-- A request of a kind that has been accepted and answered. -/
def Counted (s : RwLock.State Request State ℓ ρ) (kind : Kind) (i : Nat) : Prop :=
  ∃ q r n a, s.calls[i]? = some ⟨q, .replied r n⟩ ∧ C.counted q = some a ∧ a.kind = kind

/-- Numbers of the answered requests of a kind: they say what the replies say, no two requests
share one, and a request made after another was answered has the higher one. -/
structure Numbering (s : RwLock.State Request State ℓ ρ) (kind : Kind) (number : Nat → Nat) :
    Prop where
  numbered : ∀ i q r n a, s.calls[i]? = some ⟨q, .replied r n⟩ → C.counted q = some a →
    a.kind = kind → 1 ≤ number i ∧ number i ≤ s.calls.length ∧
      C.Numbered r a (C.counter (number i))
  injective : ∀ i j, C.Counted s kind i → C.Counted s kind j → number i = number j → i = j
  order : ∀ i j q r n, C.Counted s kind i → C.Counted s kind j →
    s.calls[i]? = some ⟨q, .replied r n⟩ → n ≤ j → number i < number j

/-- Where a call stands in the order. -/
def place (log : List (Entry Request ρ)) (i : Nat) : Nat := log.findIdx fun e => e.call = i

theorem getElem?_place (h : Linear program {} s log) {i n : Nat} {q : Request} {r : ρ}
    (hi : s.calls[i]? = some ⟨q, .replied r n⟩) : log[place log i]? = some ⟨i, q, r⟩ := by
  have hmem := h.replied i q r n hi
  obtain ⟨k, hk⟩ := List.mem_iff_getElem?.mp hmem
  obtain ⟨hlt, hget⟩ := List.getElem?_eq_some_iff.mp hk
  have hplace : place log i = k := by
    rw [place, List.findIdx_eq hlt]
    refine ⟨by simp [hget], fun j hj => ?_⟩
    simp only [decide_eq_false_iff_not]
    intro hcall
    have hk' : k < (log.map Entry.call).length := by simpa using hlt
    have hj' : j < (log.map Entry.call).length := Nat.lt_trans hj hk'
    have hsame : (log.map Entry.call)[j] = (log.map Entry.call)[k] := by simp [hcall, hget]
    exact Nat.ne_of_lt hj ((List.Nodup.getElem_inj_iff h.once).mp hsame)
  rw [hplace]
  exact hk

theorem length_le (h : Linear program {} s log) : log.length ≤ s.calls.length := by
  have hsub : log.map Entry.call ⊆ List.range s.calls.length := by
    intro i hi
    obtain ⟨e, he, rfl⟩ := List.mem_map.mp hi
    obtain ⟨_, hc⟩ := h.requests e he
    exact List.mem_range.mpr (List.getElem?_eq_some_iff.mp hc).1
  have hle := (List.subperm_of_subset h.once hsub).length_le
  rwa [List.length_map, List.length_range] at hle

variable {C} in
theorem History.numbering (h : C.History s log) (kind : Kind) :
    C.Numbering s kind fun i => C.number log kind (place log i) where
  numbered i q r n a hi ha hkind := by
    have hk := getElem?_place h.linear hi
    have hlt := (List.getElem?_eq_some_iff.mp hk).1
    have hle := C.number_le log kind (place log i)
    have hlen := length_le h.linear
    refine ⟨Nat.le_add_left _ _, by omega, ?_⟩
    subst hkind
    exact h.numbered _ _ a hk ha
  injective := by
    rintro i j ⟨q, r, n, a, hi, ha, hkind⟩ ⟨q', r', n', a', hj, ha', hkind'⟩ heq
    have hki := getElem?_place h.linear hi
    have hkj := getElem?_place h.linear hj
    rcases Nat.lt_trichotomy (place log i) (place log j) with hlt | hsame | hgt
    · exact absurd heq (Nat.ne_of_lt (C.number_lt hki ha hkind hlt))
    · rw [hsame, hkj] at hki
      cases hki
      rfl
    · exact absurd heq.symm (Nat.ne_of_lt (C.number_lt hkj ha' hkind' hgt))
  order := by
    rintro i j q r n ⟨q₁, r₁, n₁, a, hi, ha, hkind⟩ ⟨q', r', n', a', hj, ha', hkind'⟩ hr hn
    have hki := getElem?_place h.linear hi
    have hkj := getElem?_place h.linear hj
    exact C.number_lt hki ha hkind (h.linear.lt_of_replied hki hkj hr hn)

end Counts

end

/-- The response to a kind of request. -/
def responseOf : Kind → (Char → Str) → Str → Int → Str
  | .greeting => sayHelloResponse
  | .farewell => sayGoodbyeResponse

/-! ## 3. The Go extension counts -/

namespace Go

variable (go : Library)

def sayHelloAccepted (df : DataFixed) : Option Accepted :=
  (go.decodeSayHello df.originalMessage).toOption.bind fun name =>
    if name = [] then none else some ⟨.greeting, greetingOf name⟩

def sayGoodbyeAccepted (df : DataFixed) : Option Accepted :=
  (go.decodeSayGoodbye df.originalMessage).toOption.bind fun request =>
    if request.1 = [] then none else some ⟨.farewell, farewellOf request.1 request.2⟩

/-- What is counted of a `GREETING` instruction. -/
def greetingAccepted (df : DataFixed) : Option Accepted :=
  if df.opCommand = go.toHash OPCommandSayHello then sayHelloAccepted go df
  else if df.opCommand = go.toHash OPCommandSayGoodbye then sayGoodbyeAccepted go df
  else none

def actionAccepted (action : Action) : Option Accepted :=
  (go.parseDataFixed action.message).toOption.bind fun df =>
    if df.opType = go.toHash OPTypeGreeting then greetingAccepted go df else none

def accepted (body : List UInt8) : Option Accepted :=
  (go.decodeAction body).toOption.bind (actionAccepted go)

/-- A result that says that a text was counted as a number. -/
def Counted (ar : ActionResult) (a : Accepted) (n : Int) : Prop :=
  ar.status = 1 ∧ ar.log = "ok".toList ∧
    ar.data = Utf8.encode (responseOf a.kind escaped a.text n)

def Numbered (r : Answer) (a : Accepted) (n : Int) : Prop :=
  ∃ ar, r = ⟨200, .result ar⟩ ∧ Counted ar a n

/-- `e.greetingCount++` and `e.farewellCount++`. -/
def next (n : Int) : Int := int (n + 1)

theorem alone_sayHello (action : Action) (df : DataFixed) :
    Alone next Counted (processSayHello go action df) (sayHelloAccepted go df) := by
  rw [processSayHello, sayHelloAccepted]
  cases go.decodeSayHello df.originalMessage with
  | error err => exact Alone.pure _ _
  | ok name =>
    simp only [Except.toOption, Option.bind_some]
    split_ifs
    · exact Alone.pure _ _
    · exact Or.inr ⟨_, rfl, fun s => ⟨rfl, rfl, rfl, rfl⟩⟩

theorem alone_sayGoodbye (action : Action) (df : DataFixed) :
    Alone next Counted (processSayGoodbye go action df) (sayGoodbyeAccepted go df) := by
  rw [processSayGoodbye, sayGoodbyeAccepted]
  cases go.decodeSayGoodbye df.originalMessage with
  | error err => exact Alone.pure _ _
  | ok request =>
    simp only [Except.toOption, Option.bind_some]
    split_ifs
    · exact Alone.pure _ _
    · exact Or.inr ⟨_, rfl, fun s => ⟨rfl, rfl, rfl, rfl⟩⟩

theorem alone_greeting (action : Action) (df : DataFixed) :
    Alone next Numbered (processGreeting go action df) (greetingAccepted go df) := by
  rw [processGreeting, greetingAccepted]
  split_ifs
  · exact (alone_sayHello go action df).map _ fun ar _ _ h => ⟨ar, rfl, h⟩
  · exact (alone_sayGoodbye go action df).map _ fun ar _ _ h => ⟨ar, rfl, h⟩
  · exact Alone.pure _ _

theorem alone_action (action : Action) :
    Alone next Numbered (processAction go action) (actionAccepted go action) := by
  rw [processAction, actionAccepted]
  cases go.parseDataFixed action.message with
  | error err => exact Alone.pure _ _
  | ok df =>
    simp only [Except.toOption, Option.bind_some]
    split_ifs
    · exact alone_greeting go action df
    · exact Alone.pure _ _

theorem alone (body : List UInt8) :
    Alone next Numbered (program go (.action body)) (accepted go body) := by
  rw [program, accepted, actionHandler]
  cases go.decodeAction body with
  | error err => exact Alone.pure _ _
  | ok action => exact alone_action go action

/-- **The Go extension counts**, in 64 bits: each accepted greeting takes the next number, and a
number that does not fit wraps round. -/
def counts : Counts (program go) where
  next := next
  counter n := int n
  accepted := accepted go
  Numbered := Numbered
  report s := ⟨200, .state (go.toHash Version) s⟩
  counter_zero := by decide
  counter_succ n := by
    simp only [next, int]
    rw [Int.bmod_add_bmod]
    norm_cast
  alone := alone go
  reports _ := rfl

variable {go}

theorem counted_action (body : List UInt8) :
    (counts go).counted (.action body) = accepted go body := rfl

theorem counter_eq (n : Nat) : (counts go).counter n = int n := by
  unfold counts
  dsimp only

/-- **Requests served by goroutines are served one after another**: whatever the goroutines do
meanwhile, the replies are those of some order of the requests that respects who was answered
before whom. -/
theorem concurrent {s : RwLock.State Request State Locals Answer}
    (h : Reachable (program go) {} s) : ∃ log, (counts go).History s log :=
  (counts go).history h

/-- The schedule runs as written: the kernel computes what its calls are answered with. -/
theorem responses_fixture :
    (after (program Fixture.library) {} Fixture.schedule).calls.map Fixture.data =
      Fixture.responses := by
  decide +kernel

theorem concurrent_fixture : ∃ log,
    (counts Fixture.library).History (after (program Fixture.library) {} Fixture.schedule) log ∧
      (after (program Fixture.library) {} Fixture.schedule).calls.map Fixture.data =
        Fixture.responses := by
  obtain ⟨log, hhistory⟩ := concurrent (reachable_after (program Fixture.library) {} Fixture.schedule)
  exact ⟨log, hhistory, responses_fixture⟩

theorem int_eq {n : Int} (h : 0 ≤ n) (hn : n < 2 ^ 63) : int n = n := by
  rw [int, Int.bmod_eq_of_le]
  · omega
  · omega

/-- **No two greetings share a number**, and a greeting that was answered before another was asked
for has the lower one, as long as there are fewer than 2⁶³ requests. -/
theorem numbers_apart {s : RwLock.State Request State Locals Answer} (h : Reachable (program go) {} s)
    (hfew : s.calls.length < 2 ^ 63) (kind : Kind) :
    ∃ number : Nat → Nat, (counts go).Numbering s kind number ∧
      ∀ i, (counts go).Counted s kind i → (counts go).counter (number i) = number i := by
  obtain ⟨log, hhistory⟩ := concurrent h
  have hnumbering := hhistory.numbering kind
  refine ⟨_, hnumbering, ?_⟩
  rintro i ⟨q, r, n, a, hi, ha, hkind⟩
  obtain ⟨-, hle, -⟩ := hnumbering.numbered i q r n a hi ha hkind
  rw [counter_eq]
  exact int_eq (Int.natCast_nonneg _) (by omega)

theorem numbers_apart_fixture : ∃ number : Nat → Nat,
    (counts Fixture.library).Numbering (after (program Fixture.library) {} Fixture.schedule)
      .greeting number ∧
    ∀ i, (counts Fixture.library).Counted (after (program Fixture.library) {} Fixture.schedule)
      .greeting i → (counts Fixture.library).counter (number i) = number i :=
  numbers_apart (reachable_after _ _ _)
    (Nat.lt_of_le_of_lt (calls_after _ _ Fixture.schedule).1 (by decide)) .greeting

end Go

/-! ## 4. The Python extension counts -/

namespace Python

variable (py : Library)

def sayHelloAccepted (msg : Json) : Option Accepted :=
  (hexToBytes py msg).toOption.bind fun raw =>
    (py.loads raw).toOption.bind fun req =>
      (readName py req).toOption.map fun name => ⟨.greeting, greetingOf (formatted py name)⟩

def sayGoodbyeAccepted (msg : Json) : Option Accepted :=
  (hexToBytes py msg).toOption.bind fun raw =>
    (py.abiDecode raw).toOption.bind fun request =>
      if request.1 = [] then none else some ⟨.farewell, farewellOf request.1 request.2⟩

/-- What is counted of a message, by the keys of its handler. -/
def dataAccepted (df : DataFixed) : Option Accepted :=
  (normalize py df.opType).toOption.bind fun t =>
    (normalize py df.opCommand).toOption.bind fun c =>
      if t = stringToBytes32Hex OPTypeGreeting then
        if c = stringToBytes32Hex OPCommandSayHello then sayHelloAccepted py df.originalMessage
        else if c = stringToBytes32Hex OPCommandSayGoodbye then
          sayGoodbyeAccepted py df.originalMessage
        else none
      else none

def accepted (body : List UInt8) : Option Accepted :=
  (readAction py body).toOption.bind fun read => dataAccepted py read.2

/-- What a handler returns when it has counted a text as a number. -/
def Returned (h : Handled) (a : Accepted) (n : Int) : Prop :=
  h = ⟨some (dumped (responseOf a.kind escaped a.text n)), 1, none⟩

def Numbered (r : Except Exception Answer) (a : Accepted) (n : Int) : Prop :=
  ∃ result, r = .ok ⟨200, .result result⟩ ∧ result.status = 1 ∧ result.log = "ok".toList ∧
    result.data = dumped (responseOf a.kind escaped a.text n)

def next (n : Int) : Int := n + 1

/-- A handler that does not raise returns a program that counts. -/
def Handles (handler : Handler) (accepted : Json → Option Accepted) : Prop :=
  ∀ msg, (∃ e, handler msg = .error e ∧ accepted msg = none) ∨
    ∃ run, handler msg = .ok run ∧ Alone next Returned run (accepted msg)

theorem alone_failed (text : Str) : Alone next Returned (failed text) none :=
  Or.inl ⟨rfl, _, fun _ => rfl⟩

theorem handles_sayHello : Handles (handleSayHello py) (sayHelloAccepted py) := by
  intro msg
  rw [handleSayHello, sayHelloAccepted]
  cases hexToBytes py msg with
  | error e =>
    dsimp only
    split_ifs
    · exact Or.inr ⟨_, rfl, alone_failed _⟩
    · exact Or.inl ⟨e, rfl, rfl⟩
  | ok raw =>
    simp only [Except.toOption, Option.bind_some]
    cases py.loads raw with
    | error e =>
      dsimp only
      split_ifs
      · exact Or.inr ⟨_, rfl, alone_failed _⟩
      · exact Or.inl ⟨e, rfl, rfl⟩
    | ok req =>
      simp only [Option.bind_some]
      cases readName py req with
      | error text => exact Or.inr ⟨_, rfl, alone_failed _⟩
      | ok name => exact Or.inr ⟨_, rfl, Or.inr ⟨_, rfl, fun s => ⟨rfl, rfl⟩⟩⟩

theorem handles_sayGoodbye : Handles (handleSayGoodbye py) (sayGoodbyeAccepted py) := by
  intro msg
  rw [handleSayGoodbye, sayGoodbyeAccepted]
  cases hexToBytes py msg with
  | error e =>
    dsimp only
    split_ifs
    · exact Or.inr ⟨_, rfl, alone_failed _⟩
    · exact Or.inl ⟨e, rfl, rfl⟩
  | ok raw =>
    simp only [Except.toOption, Option.bind_some]
    cases py.abiDecode raw with
    | error text => exact Or.inr ⟨_, rfl, alone_failed _⟩
    | ok request =>
      simp only [Option.bind_some]
      split_ifs
      · exact Or.inr ⟨_, rfl, alone_failed _⟩
      · exact Or.inr ⟨_, rfl, Or.inr ⟨_, rfl, fun s => ⟨rfl, rfl⟩⟩⟩

/-- No handler is registered for every command, so the second loop finds none. -/
theorem search_framework (t c : Str) :
    ((framework py).search t c).or ((framework py).search t EMPTY_BYTES32) =
      if t = stringToBytes32Hex OPTypeGreeting then
        if c = stringToBytes32Hex OPCommandSayHello then some (handleSayHello py)
        else if c = stringToBytes32Hex OPCommandSayGoodbye then some (handleSayGoodbye py)
        else none
      else none := by
  have hhello : stringToBytes32Hex OPCommandSayHello ≠ EMPTY_BYTES32 := by decide
  have hgoodbye : stringToBytes32Hex OPCommandSayGoodbye ≠ EMPTY_BYTES32 := by decide
  have hfind : ∀ c, (framework py).search t c =
      if t = stringToBytes32Hex OPTypeGreeting then
        if c = stringToBytes32Hex OPCommandSayHello then some (handleSayHello py)
        else if c = stringToBytes32Hex OPCommandSayGoodbye then some (handleSayGoodbye py)
        else none
      else none := by
    intro c
    simp only [Framework.search, framework, List.find?_cons, List.find?_nil]
    by_cases ht : t = stringToBytes32Hex OPTypeGreeting
    · by_cases hc : c = stringToBytes32Hex OPCommandSayHello
      · simp [ht, hc]
      · by_cases hc' : c = stringToBytes32Hex OPCommandSayGoodbye
        · have hne : stringToBytes32Hex OPCommandSayHello ≠ c := Ne.symm hc
          subst hc'
          simp [ht, hc, hne]
        · simp [ht, hc, hc', Ne.symm hc, Ne.symm hc']
    · simp [ht, Ne.symm ht]
  rw [hfind, hfind, if_neg hhello.symm, if_neg hgoodbye.symm]
  split_ifs <;> rfl

/-- A value that is registered as an operation type or command is a string. -/
theorem string_of_normalize {v : Json} {t : Str} (h : normalize py v = .ok t)
    (ht : t ≠ EMPTY_BYTES32) : ∃ s, v = .str s := by
  unfold normalize at h
  by_cases hfalsy : falsy v = true
  · rw [if_pos hfalsy] at h
    cases h
    exact absurd rfl ht
  · rw [if_neg hfalsy] at h
    cases v with
    | str s => exact ⟨s, rfl⟩
    | _ => cases h

/-- What is logged of a string never raises. -/
theorem bytes32HexToString_str (s : Str) : bytes32HexToString py (.str s) = .ok () := by
  rw [bytes32HexToString, hexToBytes]
  cases fromhex (removePrefix ['0', 'X'] (removePrefix ['0', 'x'] s)) with
  | error position => rfl
  | ok bs => rfl

/-- The keys of a message that is routed are strings. -/
def Keyed (df : DataFixed) : Prop := (∃ s, df.opType = .str s) ∧ ∃ s, df.opCommand = .str s

theorem keyed {df : DataFixed} {t c : Str} (ht : normalize py df.opType = .ok t)
    (hc : normalize py df.opCommand = .ok c) (htype : t = stringToBytes32Hex OPTypeGreeting)
    (hcommand : c ≠ EMPTY_BYTES32) : Keyed df :=
  ⟨string_of_normalize py ht (by rw [htype]; decide), string_of_normalize py hc hcommand⟩

/-- What is routed is counted by its keys. -/
def Routes (df : DataFixed) : Prop :=
  (∃ stop, routed py df = .error stop ∧ dataAccepted py df = none) ∨
    ∃ run, routed py df = .ok run ∧ Alone next Returned run (dataAccepted py df) ∧ Keyed df

theorem routes_of_handles {df : DataFixed} {handler : Handler} {accepted : Json → Option Accepted}
    (hhandles : Handles handler accepted)
    (hlookup : (framework py).lookup py df.opType df.opCommand = .ok (some handler))
    (haccepted : dataAccepted py df = accepted df.originalMessage) (hkeyed : Keyed df) :
    Routes py df := by
  rw [Routes, routed, hlookup, haccepted]
  dsimp only
  rcases hhandles df.originalMessage with ⟨e, he, hnone⟩ | ⟨run, hrun, halone⟩
  · exact Or.inl ⟨.raised e, by rw [he], hnone⟩
  · exact Or.inr ⟨run, by rw [hrun], halone, hkeyed⟩

theorem routes (df : DataFixed) : Routes py df := by
  have hlookup : ∀ {t c}, normalize py df.opType = .ok t → normalize py df.opCommand = .ok c →
      (framework py).lookup py df.opType df.opCommand =
        .ok (((framework py).search t c).or ((framework py).search t EMPTY_BYTES32)) := by
    intro t c ht hc
    rw [Framework.lookup, ht, hc]
    rfl
  cases ht : normalize py df.opType with
  | error e =>
    refine Or.inl ⟨.raised e, ?_, by rw [dataAccepted, ht]; rfl⟩
    rw [routed, Framework.lookup, ht]
    rfl
  | ok t =>
    cases hc : normalize py df.opCommand with
    | error e =>
      refine Or.inl ⟨.raised e, ?_, by rw [dataAccepted, ht, hc]; rfl⟩
      rw [routed, Framework.lookup, ht, hc]
      rfl
    | ok c =>
      have hlook := hlookup ht hc
      have haccepted : dataAccepted py df = if t = stringToBytes32Hex OPTypeGreeting then
          if c = stringToBytes32Hex OPCommandSayHello then sayHelloAccepted py df.originalMessage
          else if c = stringToBytes32Hex OPCommandSayGoodbye then
            sayGoodbyeAccepted py df.originalMessage
          else none
        else none := by
        rw [dataAccepted, ht, hc]
        rfl
      rw [search_framework] at hlook
      split_ifs at hlook haccepted with htype hhello hgoodbye
      · exact routes_of_handles py (handles_sayHello py) hlook haccepted
          (keyed py ht hc htype (by rw [hhello]; decide))
      · exact routes_of_handles py (handles_sayGoodbye py) hlook haccepted
          (keyed py ht hc htype (by rw [hgoodbye]; decide))
      · exact Or.inl ⟨_, by rw [routed, hlook], haccepted⟩
      · exact Or.inl ⟨_, by rw [routed, hlook], haccepted⟩

/-- A routed message is answered by its result. -/
theorem respond_keyed {df : DataFixed} (h : Keyed df) (action : ActionData) (handled : Handled) :
    respond py action df handled = .ok ⟨200, .result (actionResult action df handled)⟩ := by
  obtain ⟨⟨t, ht⟩, c, hc⟩ := h
  rw [respond, ht, hc, bytes32HexToString_str, bytes32HexToString_str]
  rfl

theorem numbered_respond {df : DataFixed} (h : Keyed df) (action : ActionData) (handled : Handled)
    (a : Accepted) (n : Int) (hreturned : Returned handled a n) :
    Numbered (respond py action df handled) a n := by
  rw [respond_keyed py h, hreturned]
  exact ⟨_, rfl, rfl, rfl, rfl⟩

theorem alone (body : List UInt8) :
    Alone next Numbered (program py (.action body)) (accepted py body) := by
  have hprogram : program py (.action body) = processAction py body := by
    rw [program, handleRequest, if_pos (by decide), if_pos rfl]
  rw [hprogram, processAction, accepted]
  cases readAction py body with
  | error stop => exact Alone.pure _ _
  | ok read =>
    obtain ⟨action, df⟩ := read
    simp only [Except.toOption, Option.bind_some]
    rcases routes py df with ⟨stop, hstop, hnone⟩ | ⟨run, hrun, halone, hkeyed⟩
    · rw [hstop, hnone]
      exact Alone.pure _ _
    · rw [hrun]
      exact halone.map _ fun handled a n h => numbered_respond py hkeyed action handled a n h

/-- **The Python extension counts**, without a bound, and a request that raises an exception is
answered with it and counts for nothing. -/
def counts : Counts (program py) where
  next := next
  counter n := n
  accepted := accepted py
  Numbered := Numbered
  report s := .ok ⟨200, .state (stringToBytes32Hex Version) s⟩
  counter_zero := rfl
  counter_succ _ := rfl
  alone := alone py
  reports _ := by
    rw [program, handleRequest, if_neg (by decide), if_pos (by decide), if_pos rfl]
    rfl

variable {py}

/-- **Requests served by threads are served one after another**, those that end with an exception
among them. -/
theorem threaded {s : RwLock.State Request State Locals (Except Exception Answer)}
    (h : Reachable (program py) {} s) :
    ∃ log, (counts py).History s log ∧ ∀ kind, (counts py).Numbering s kind fun i =>
      (counts py).number log kind (Counts.place log i) := by
  obtain ⟨log, hhistory⟩ := (counts py).history h
  exact ⟨log, hhistory, hhistory.numbering⟩

theorem threaded_fixture : ∃ log,
    (counts Fixture.python).History (after (program Fixture.python) {} Fixture.schedule) log ∧
      ∀ kind, (counts Fixture.python).Numbering (after (program Fixture.python) {} Fixture.schedule)
        kind fun i => (counts Fixture.python).number log kind (Counts.place log i) :=
  threaded (reachable_after _ _ _)

end Python

end OneSig.Greeting
