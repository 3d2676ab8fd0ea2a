/-
# A payment that was seen has a job

A poll marks its payments as seen before anything is made of them, and no later poll reports a
payment that is marked.  What is reported goes through one loop that creates the jobs, and one
`try` around it: what throws in it loses the payment it threw for and every payment behind it.

What can throw there is a write that fails, a hash that is no hash, and a registration that was
accepted although no job can be made of it: `/register` stores the numbers of a registration
unchecked, and `BigInt` refuses `1e18` or `"abc"` only when the job is created.  Whoever registers
such an operation and pays for it loses the payments behind it on the page as well
(`unreadable_number_drops_payments`).

`readable` registrations and hashes, and writes that succeed while jobs are created, are all it
takes for the opposite (`observed_payment_kept`).  `paid` stands for the commitments somebody pays
for: a registration nobody pays for may be as unreadable as it likes.  Sections 1 to 3 follow the
ticks of any such run, restarts included, and find a live job or a whole job file for every
payment that was seen.  A restart matters because it forgets what was seen, and reads the records
and the jobs back from their files; a record can be read after that if it could before
(`PendingUserOp.readable_stored`).

* `Filed`, `Books`: what the records, the job files and the live map owe to a payment that was
  seen.
* `Pending.createdOne`, `stepped_persisted`: one round of the creation loop, and one step of a
  job.
* `good`: the conduct of the run, from which the invariant follows for every run.
-/
import OneSig.Executor.Sequential
import OneSig.Executor.Binding

namespace OneSig.Executor

open OneSig Async ExecutorPipeline ExecutorService

/-! ## 1. What can become a job -/

/-- A record whose numbers and label can be read. -/
def PendingUserOp.readable (record : PendingUserOp) : Bool :=
  (bigInt record.totalCallValue).isOk && (bigInt record.nonce).isOk && record.label.text.isOk

theorem PendingUserOp.readable_ok {record : PendingUserOp} (h : record.readable = true) :
    (∀ e, bigInt record.totalCallValue ≠ .error e) ∧ (∀ e, bigInt record.nonce ≠ .error e) ∧
      ∀ e, record.label.text ≠ .error e := by
  simp only [readable, Bool.and_eq_true] at h
  obtain ⟨⟨htotal, hnonce⟩, hlabel⟩ := h
  refine ⟨?_, ?_, ?_⟩
  · intro e he
    rw [he] at htotal
    cases htotal
  · intro e he
    rw [he] at hnonce
    cases hnonce
  · intro e he
    rw [he] at hlabel
    cases hlabel

/-- What its file gives back can be read as well. -/
theorem PendingUserOp.readable_stored {record : PendingUserOp} (h : record.readable = true) :
    record.stored.readable = true := by
  have hkeeps : ∀ {j : Json}, (bigInt j).isOk = true → (bigInt j.stored).isOk = true := by
    intro j hj
    cases hn : bigInt j with
    | error e =>
      rw [hn] at hj
      cases hj
    | ok n =>
      rw [Json.bigInt_stored hn]
      rfl
  simp only [readable, Bool.and_eq_true] at h ⊢
  exact ⟨⟨hkeeps h.1.1, hkeeps h.1.2⟩, (Json.text_stored_isOk _).trans h.2⟩

/-- The file holds a job. -/
def whole (file : Option (Text Job)) : Bool :=
  match file with
  | some (.whole _) => true
  | _ => false

/-- The payment with a hash has a job file. -/
def persisted (jobs : Str → Option (Text Job)) (hash : Str) : Bool :=
  match normalizeXrplTxId hash with
  | .ok id => whole (jobs (id.drop 2))
  | .error _ => false

theorem persisted_iff {jobs : Str → Option (Text Job)} {hash : Str} {id : Hex}
    (hid : normalizeXrplTxId hash = .ok id) :
    persisted jobs hash = true ↔ whole (jobs (id.drop 2)) = true := by
  unfold persisted
  rw [hid]

/-- Writing a whole file loses none. -/
theorem persisted_update {jobs : Str → Option (Text Job)} {hash name : Str}
    {text : Option (Text Job)} (h : persisted jobs hash = true) (htext : whole text = true) :
    persisted (Function.update jobs name text) hash = true := by
  cases hid : normalizeXrplTxId hash with
  | error e =>
    unfold persisted at h
    rw [hid] at h
    cases h
  | ok id =>
    rw [persisted_iff hid] at h ⊢
    by_cases hname : id.drop 2 = name
    · rw [hname, Function.update_self]
      exact htext
    · rw [Function.update_of_ne hname]
      exact h

namespace Intake

variable {o : Options} (paid : Hex → Bool)

/-- The payment with a hash has a job that is live or persisted. -/
def Kept (s : St) (hash : Str) : Prop :=
  s.mem.live.has hash = true ∨ persisted s.world.jobs hash = true

instance (s : St) (hash : Str) : Decidable (Kept s hash) :=
  inferInstanceAs (Decidable (_ = true ∨ _ = true))

/-- A registration that can become a job, or that nobody pays for. -/
def accepts (viem : Viem) (entry : Entry) : Bool :=
  match keccak256 viem entry.userOpData with
  | .ok (data, commitment) => !paid commitment || (entry.record data commitment 0).readable
  | .error _ => true

/-- A payment has a hash, and its commitment is one of those paid for. -/
def pays (entry : AccountTxEntry) : Bool :=
  match entry.payment with
  | none => true
  | some tx =>
    match entry.paymentHash tx, commitmentFromMemos tx with
    | some hash, some commitment => paid commitment && (normalizeXrplTxId hash).isOk
    | _, _ => true

/-- What is asked of the answers: in the creation loop every write succeeds, a step leaves a
file that can be read, and pages and prepared operations are in order.  Everything else may fail
in any way. -/
def admits (o : Options) (l : Label) (op : Op) (c : Choice) (w : Outside) : Bool :=
  match l, op, c with
  | .tick, .mkdirState, .fail _ _ => false
  | .tick, .writeJob _ _, .fail _ _ => false
  | .stepping _ _ _, .writeJob id job, .fail _ part =>
    whole ((effect part w (.writeJob id job)).jobs id)
  | _, .accountTx _ _ _, .transactions (.result (some page)) => page.all (pays paid)
  | _, .prepare _, .prepared prepared => accepts paid o.viem (preparedEntry prepared)
  | _, _, _ => true

/-- The events of such a run. -/
def Smooth (e : Event o) (s : Sys o) : Prop :=
  match e with
  | .spawn (.register body) => (registerEntry body).all (accepts paid o.viem) = true
  | .perform i c => ∀ p ∈ s.awaiting i, admits paid o p.1 p.2 c s.world = true
  | _ => True

instance (e : Event o) (s : Sys o) : Decidable (Smooth paid e s) :=
  match e with
  | .spawn (.register _) => inferInstanceAs (Decidable (_ = true))
  | .perform i c =>
    inferInstanceAs (Decidable (∀ p ∈ s.awaiting i, admits paid o p.1 p.2 c s.world = true))
  | .spawn (.prepare _) | .spawn .start | .spawn .tick | .spawn (.advance _)
  | .spawn (.stepping _ _ _) | .spawn .poll | .spawn (.load _) | .spawn (.step _)
  | .disturb _ | .resume _ | .outside _ | .crash => .isTrue trivial

/-! ## 2. The conduct -/

/-- A record under a name: it is the record of that commitment, and readable if that is paid. -/
structure Filed (name : Str) (record : PendingUserOp) : Prop where
  named : record.commitment = hexPrefix ++ name
  lower : IsLowerHex 32 record.commitment
  readable : paid record.commitment = true → record.readable = true

structure Inv (s : St) : Prop where
  memory : ∀ p ∈ s.mem.memory.pairs, Filed paid (p.1.drop 2) p.2
  pending : ∀ name record, s.world.pending name = some (.whole record) → Filed paid name record
  live : ∀ id r, (id, r) ∈ s.mem.live.pairs → r < s.mem.heap.length

/-- What was seen, and what is live, has its file. -/
structure Books (v : View) : Prop where
  seen : ∀ hash ∈ v.seen, persisted v.jobs hash = true
  live : ∀ hash r, (hash, r) ∈ v.live.pairs → persisted v.jobs hash = true

variable (o) in
def conduct : Conduct o where
  inv := Inv paid
  guar := Grows
  adm := fun l op c s => admits paid o l op c s.world = true
  books := Books
  record := fun record => paid record.commitment = true → record.readable = true
  prepared := fun prepared => accepts paid o.viem (preparedEntry prepared) = true

section Rules

variable {paid} {s : St}

/-- A change beside the records. -/
theorem Inv.beside (h : Inv paid s) {m : Memory} {w : Outside}
    (hmemory : m.memory = s.mem.memory) (hpending : w.pending = s.world.pending)
    (hlive : m.live = s.mem.live) (hheap : s.mem.heap.length ≤ m.heap.length) :
    Inv paid ⟨m, w⟩ := by
  refine ⟨?_, ?_, ?_⟩
  · simp only [hmemory]
    exact h.memory
  · simp only [hpending]
    exact h.pending
  · simp only [hlive]
    exact fun id r hr => (h.live id r hr).trans_le hheap

theorem Inv.remember (h : Inv paid s) {key : Hex} {record : PendingUserOp}
    (hr : Filed paid (key.drop 2) record) :
    Inv paid ⟨Memory.remember key record s.mem, s.world⟩ := by
  refine ⟨?_, h.pending, h.live⟩
  rintro ⟨k, v⟩ hp
  rcases JsMap.mem_pairs_set.mp hp with ⟨rfl, rfl⟩ | ⟨-, hold⟩
  · exact hr
  · exact h.memory _ hold

/-- A file gives back a record that could stand in it. -/
theorem Filed.stored {name : Str} {record : PendingUserOp} (h : Filed paid name record) :
    Filed paid name record.stored :=
  ⟨h.named, h.lower, fun hpaid => PendingUserOp.readable_stored (h.readable hpaid)⟩

/-- The bytes of a commitment are its name in either case. -/
theorem Filed.toLower {name : Str} {record : PendingUserOp} (h : Filed paid name record) :
    toLowerCase name = name := by
  have hlow := h.lower.toLowerCase_eq
  rw [h.named, toLowerCase_append, toLowerCase_hexPrefix] at hlow
  exact List.append_cancel_left hlow

theorem drop_toLowerCase (c : Hex) : (toLowerCase c).drop 2 = toLowerCase (c.drop 2) :=
  List.map_drop.symm

theorem ticking (l : Label) : Ticking ((conduct o paid).tickSpec l) where
  rely_refl := fun s => .refl s
  rely_view := fun _ _ h => h.1
  rely_grows := fun _ _ h => h.2
  guar_grows := fun _ _ h => h
  readOnly := fun s _ => .refl s
  cursor := fun s _ hi => ⟨hi.beside rfl rfl rfl (Nat.le_refl _), .refl s⟩
  mark := fun s _ hi => ⟨hi.beside rfl rfl rfl (Nat.le_refl _), .refl s⟩
  remember := by
    intro s s₁ c record hi₁ hfile hi
    refine ⟨hi.remember ?_, ?_⟩
    · have hfiled := (hi₁.pending _ _ hfile).stored
      rw [drop_toLowerCase]
      exact hfiled.toLower.symm ▸ hfiled
    · exact fun key hk => JsMap.has_set.mpr (Or.inr hk)
  setLive := by
    intro s id r hi hr
    refine ⟨⟨hi.memory, hi.pending, ?_⟩, .refl s⟩
    intro id' r' hr'
    rcases JsMap.mem_pairs_set.mp hr' with ⟨-, rfl⟩ | ⟨-, hold⟩
    · exact hr
    · exact hi.live id' r' hold
  deleteLive := by
    intro s id hi
    refine ⟨⟨hi.memory, hi.pending, ?_⟩, .refl s⟩
    intro id' r' hr'
    exact hi.live id' r' (JsMap.mem_pairs_delete.mp hr').2
  owned := fun r => {
    rely_refl := fun s => .refl s
    rely_view := fun _ _ h => h.1
    readOnly := fun s _ => .refl s
    cache := fun s _ _ hi => ⟨hi.beside rfl rfl rfl (Nat.le_refl _), .refl s⟩
    update := by
      intro s job f hi _ _
      refine ⟨hi.beside rfl rfl rfl ?_, .refl s⟩
      simp only [Memory.updateJob, List.length_modify]
      exact Nat.le_refl _
    write := fun s job e hi _ => ⟨hi.beside rfl rfl rfl (Nat.le_refl _), .refl s⟩
    mint := by
      intro s job proof manager e hi _
      refine ⟨hi.beside rfl ?_ rfl (Nat.le_refl _), .refl s⟩
      rw [effect_broadcast rfl]
      split <;> rfl }

theorem registers (l : Label) : Registers ((conduct o paid).requestSpec l)
    (conduct o paid).record (conduct o paid).prepared where
  readOnly := fun s _ => .refl s
  remember := by
    intro s record hi hR hlow
    obtain ⟨bs, -, hbs⟩ := id hlow
    refine ⟨hi.remember ⟨?_, hlow, hR⟩, rfl, ?_⟩
    · rw [hlow.toLowerCase_eq, hbs]
      rfl
    · exact fun key hk => JsMap.has_set.mpr (Or.inr hk)
  write := by
    intro s record e hi hR hlow
    obtain ⟨bs, -, hbs⟩ := id hlow
    refine ⟨⟨hi.memory, ?_, hi.live⟩, rfl, .refl s⟩
    intro name record' hfile
    rcases whole_of_write hfile with hold | ⟨rfl, rfl⟩
    · exact hi.pending name record' hold
    · refine ⟨?_, hlow, hR⟩
      rw [PendingStore.fileName, hbs]
      rfl
  prepared := by
    intro address prepared s hadm
    cases l <;> exact hadm

end Rules

/-! ### The creation loop -/

section Creation

variable {paid} {l : Label} {v v' : View}

/-- A record held for a commitment that is paid for can be read. -/
theorem readable_of_held {c : Hex} {record : PendingUserOp} (hlow : IsLowerHex 32 c)
    (hpaid : paid c = true) (h : Held ((conduct o paid).tickSpec l) c record) :
    record.readable = true := by
  obtain ⟨bs, -, hbs⟩ := id hlow
  have hname : hexPrefix ++ c.drop 2 = c := by
    rw [hbs]
    rfl
  obtain ⟨s, hi, hget | ⟨written, hfile, rfl⟩⟩ := h
  · have hfiled := hi.memory _ (JsMap.get?_eq_some.mp hget)
    refine hfiled.readable ?_
    rw [hfiled.named, hlow.toLowerCase_eq, hname]
    exact hpaid
  · have hfiled := (hi.pending _ _ hfile).stored
    refine hfiled.readable ?_
    rw [hfiled.named, PendingStore.fileName, hname]
    exact hpaid

variable (o paid) in
/-- Everything that was seen has its file, or is still to come. -/
structure Pending (found : List ObservedPayment) (v : View) : Prop where
  seen : ∀ hash ∈ v.seen, persisted v.jobs hash = true ∨ hash ∈ found.map (·.xrplTxId)
  live : ∀ hash r, (hash, r) ∈ v.live.pairs → persisted v.jobs hash = true
  new : ∀ p ∈ found, (∃ id, normalizeXrplTxId p.xrplTxId = .ok id) ∧
    ∀ record, Held ((conduct o paid).tickSpec .tick) p.commitment record → record.readable = true

theorem pending_of_poll {found : List ObservedPayment} (hbooks : Books v)
    (h : PollEnd ((conduct o paid).tickSpec .tick) o 30 v (.ok found) v') :
    Pending o paid found v' := by
  generalize hres : (Except.ok found : Except JsError _) = res at h
  cases h with
  | noPage => cases hres
  | page transactions s _ _ hi hv hadm hpolled =>
    obtain ⟨-, hrep, hseen⟩ := hpolled.reported found hres.symm
    obtain ⟨hframe, -⟩ := hpolled.frame
    have hjobs : v'.jobs = v.jobs := by rw [hframe]
    have hlive : v'.live = v.live := by rw [hframe]
    refine ⟨?_, ?_, fun p hp => ?_⟩
    · intro hash hmem
      rw [hjobs]
      rcases hseen hash hmem with hold | hnew
      · exact Or.inl (hbooks.seen hash hold)
      · exact Or.inr hnew
    · intro hash r hmem
      rw [hlive] at hmem
      rw [hjobs]
      exact hbooks.live hash r hmem
    · obtain ⟨-, -, entry, he, tx, -, hpay, hname, hcom, -, -⟩ := hrep p hp
      have hentry : pays paid entry = true := by
        cases transactions with
        | none => cases he
        | some page => exact List.all_eq_true.mp hadm entry he
      simp only [pays, hpay, hname, hcom, Bool.and_eq_true] at hentry
      refine ⟨?_, fun record => readable_of_held (commitmentFromMemos_shape hcom) hentry.1⟩
      cases hid : normalizeXrplTxId p.xrplTxId with
      | ok id => exact ⟨id, rfl⟩
      | error e =>
        rw [hid] at hentry
        cases hentry.2

/-- A poll does not stop. -/
theorem books_of_unpolled {e : JsError} (hbooks : Books v)
    (h : PollEnd ((conduct o paid).tickSpec .tick) o 30 v (.error e) v') : Books v' := by
  generalize hres : (Except.error e : Except JsError (List ObservedPayment)) = res at h
  cases h with
  | noPage => exact hbooks
  | page transactions s _ _ hi hv hadm hpolled =>
    obtain ⟨entry, he, tx, seen, hash, c, record, hmarks, htext⟩ :=
      hpolled.unprintable e hres.symm
    have hentry : pays paid entry = true := by
      cases transactions with
      | none => cases he
      | some page => exact List.all_eq_true.mp hadm entry he
    simp only [pays, hmarks.payment, hmarks.named, hmarks.committed, Bool.and_eq_true] at hentry
    have hread := readable_of_held (commitmentFromMemos_shape hmarks.committed) hentry.1 hmarks.held
    exact absurd htext ((PendingUserOp.readable_ok hread).2.2 e)

/-- While jobs are created every save succeeds. -/
theorem saved_tick {job : Job} {res : Except JsError Unit}
    (h : Saved ((conduct o paid).tickSpec .tick) v job res v') :
    res = .ok () ∧ v' = v.writeFile job.id (some (.whole job)) := by
  cases h with
  | written => exact ⟨rfl, rfl⟩
  | noDirectory e part s hadm => cases hadm
  | notWritten e part s hadm => cases hadm

/-- A job that is created has its file, and no file is lost. -/
theorem created_persisted {params : CreateParams} {id : Hex} {res : Except JsError Ref}
    (hid : normalizeXrplTxId params.xrplTxId = .ok id)
    (h : Created ((conduct o paid).tickSpec .tick) v params res v') :
    (∃ r, res = .ok r) ∧ persisted v'.jobs params.xrplTxId = true ∧
      ∀ hash, persisted v.jobs hash = true → persisted v'.jobs hash = true := by
  cases h with
  | badHash e he =>
    rw [hid] at he
    cases he
  | loaded id' job hid' _ hfile =>
    refine ⟨⟨_, rfl⟩, ?_, fun hash h => h⟩
    rw [persisted_iff hid']
    change whole (v.jobs (id'.drop 2)) = true
    rw [hfile]
    rfl
  | made id' now now' res _ hid' hsaved =>
    obtain ⟨rfl, rfl⟩ := saved_tick hsaved
    refine ⟨⟨_, rfl⟩, ?_, fun hash h => persisted_update h rfl⟩
    rw [persisted_iff hid']
    change whole (Function.update v.jobs (id'.drop 2) _ (id'.drop 2)) = true
    rw [Function.update_self]
    rfl

/-- One iteration of the creation loop does not fail, and one payment less is to come. -/
theorem Pending.createdOne {observed : ObservedPayment} {rest : List ObservedPayment}
    {res : Except JsError Unit} (h : Pending o paid (observed :: rest) v)
    (hone : CreatedOne ((conduct o paid).tickSpec .tick) v true observed res v') :
    res = .ok () ∧ Pending o paid rest v' := by
  obtain ⟨⟨id, hid⟩, hread⟩ := h.new observed (List.mem_cons_self ..)
  have hrest := fun p hp => h.new p (List.mem_cons_of_mem _ hp)
  have hstill : (∀ hash, persisted v.jobs hash = true → persisted v'.jobs hash = true) →
      persisted v'.jobs observed.xrplTxId = true → v'.seen = v.seen →
      ∀ hash ∈ v'.seen, persisted v'.jobs hash = true ∨ hash ∈ rest.map (·.xrplTxId) := by
    intro hkeep hown hsame hash hmem
    rcases h.seen hash (hsame ▸ hmem) with hold | hnew
    · exact Or.inl (hkeep hash hold)
    · rcases List.mem_cons.mp hnew with rfl | hlater
      · exact Or.inl hown
      · exact Or.inr hlater
  cases hone with
  | live hlive =>
    obtain ⟨r, hr⟩ := JsMap.has_iff.mp hlive
    exact ⟨rfl, hstill (fun _ h => h) (h.live _ r hr) rfl, h.live, hrest⟩
  | unheld hunknown => cases hunknown
  | unreadable record e hheld hbad =>
    obtain ⟨htotal, hnonce, -⟩ := PendingUserOp.readable_ok (hread record hheld)
    rcases hbad with hbad | hbad
    · exact absurd hbad (htotal e)
    · exact absurd hbad (hnonce e)
  | uncreated record totalCallValue nonce e _ hcreated =>
    obtain ⟨⟨r, hr⟩, -⟩ := created_persisted hid hcreated
    cases hr
  | created record totalCallValue nonce r v₁ _ hheld hcreated hlabel =>
    obtain ⟨-, hown, hkeep⟩ := created_persisted hid hcreated
    obtain ⟨-, hseen, hlive, -⟩ := hcreated.frame
    refine ⟨?_, hstill hkeep hown hseen, ?_, hrest⟩
    · cases res with
      | ok u => rfl
      | error e =>
        obtain ⟨-, -, hprints⟩ := PendingUserOp.readable_ok (hread record hheld)
        exact absurd (hlabel e rfl) (hprints e)
    · intro hash r' hmem
      rcases JsMap.mem_pairs_set.mp hmem with ⟨rfl, -⟩ | ⟨-, hold⟩
      · exact hown
      · exact hkeep hash (h.live hash r' (hlive ▸ hold))

theorem Pending.createdAll {found : List ObservedPayment} {res : Except JsError Unit}
    (hall : CreatedAll ((conduct o paid).tickSpec .tick) (fun _ => true) found v res v')
    (h : Pending o paid found v) : Books v' := by
  induction hall with
  | nil =>
    refine ⟨fun hash hmem => ?_, h.live⟩
    rcases h.seen hash hmem with hold | hnew
    · exact hold
    · cases hnew
  | cons hknown hone _ ih =>
    obtain rfl := hknown rfl
    exact ih (h.createdOne hone).2
  | stop hknown hone =>
    obtain rfl := hknown rfl
    cases (h.createdOne hone).1

theorem books_of_creates (hbooks : Books v)
    (h : TickCreated ((conduct o paid).tickSpec .tick) o v v') : Books v' := by
  cases h with
  | polled found v₁ _ res hpoll hall => exact (pending_of_poll hbooks hpoll).createdAll hall
  | unpolled e _ hpoll => exact books_of_unpolled hbooks hpoll

end Creation

/-! ## 3. The steps, and the run -/

section Steps

variable {paid} {v v' : View} {place : Nat} {id : Str} {r : Ref}

/-- A step leaves every file readable. -/
theorem persisted_of_saved {job : Job} {res : Except JsError Unit}
    (h : Saved ((conduct o paid).tickSpec (.stepping place id r)) v job res v') :
    ∀ hash, persisted v.jobs hash = true → persisted v'.jobs hash = true := by
  intro hash hold
  cases h with
  | written => exact persisted_update hold rfl
  | noDirectory => exact hold
  | notWritten e part s hadm =>
    have hwhole : whole (Function.update s.world.jobs job.id
        (written part (s.world.jobs job.id) job) job.id) = true := hadm
    rw [Function.update_self] at hwhole
    exact persisted_update hold hwhole

/-- **The step lemma**: a step leaves the seen-set and the live map, and every payment that had a
whole file before has one afterwards. -/
theorem stepped_persisted {job : Job} {res : Except JsError Unit}
    (h : Stepped ((conduct o paid).tickSpec (.stepping place id r)) v r job res v') :
    v'.seen = v.seen ∧ v'.live = v.live ∧
      ∀ hash, persisted v.jobs hash = true → persisted v'.jobs hash = true := by
  cases h with
  | returned => exact ⟨rfl, rfl, fun _ h => h⟩
  | saved job' ch n _ _ hsaved =>
    have hkeep := persisted_of_saved hsaved
    cases hsaved <;> exact ⟨rfl, rfl, hkeep⟩

theorem Books.walked {job : Job} (hbooks : Books v) (hlive : (id, r) ∈ v.live.pairs)
    (h : Walked ((conduct o paid).tickSpec (.stepping place id r)) v id r job v') : Books v' := by
  have hown := hbooks.live id r hlive
  have hset : ∀ {v₁ : View} {res : Except JsError Unit},
      Stepped ((conduct o paid).tickSpec (.stepping place id r)) v r job res v₁ →
      Books v₁ ∧ Books (v₁.setLive id r) := by
    intro v₁ res hstepped
    obtain ⟨hseen, hlive₁, hkeep⟩ := stepped_persisted hstepped
    have hbooks₁ : Books v₁ := by
      refine ⟨fun hash hmem => ?_, fun hash r' hmem => ?_⟩
      · exact hkeep hash (hbooks.seen hash (hseen ▸ hmem))
      · exact hkeep hash (hbooks.live hash r' (hlive₁ ▸ hmem))
    refine ⟨hbooks₁, hbooks₁.seen, fun hash r' hmem => ?_⟩
    rcases JsMap.mem_pairs_set.mp hmem with ⟨rfl, -⟩ | ⟨-, hold⟩
    · exact hkeep hash hown
    · exact hbooks₁.live hash r' hold
  cases h with
  | threw e _ hstepped => exact (hset hstepped).1
  | kept v₁ job' hstepped => exact (hset hstepped).2
  | dropped v₁ job' hstepped =>
    obtain ⟨hseen, hlive'⟩ := (hset hstepped).2
    exact ⟨hseen, fun hash r' hmem => hlive' hash r' (JsMap.mem_pairs_delete.mp hmem).2⟩

/-- What `/register` admits becomes such a record. -/
theorem entryAdmitted {entry : Entry} (h : accepts paid o.viem entry = true) :
    EntryAdmitted o.viem (conduct o paid).record entry := by
  intro data commitment now hdata hhash _ hpaid
  have hkeccak : keccak256 o.viem entry.userOpData = .ok (data, commitment) := by
    rw [hdata]
    simp only [keccak256, hhash]
    rfl
  have hpaid' : paid commitment = true := hpaid
  simp only [accepts, hkeccak, hpaid', Bool.not_true, Bool.false_or] at h
  exact h

theorem creates {s : St} (hbooks : Books (view s)) :
    wp ((conduct o paid).tickSpec .tick) (createJobs o)
      (fun res s' => res = .ok () ∧ Books (view s')) s := by
  refine wp_mono ((ticking .tick).wp_createJobs o (fun _ _ => True) ?_ ?_ ?_ rfl) ?_
  · exact fun _ _ _ => trivial
  · intro observed rest v _ id _ s job hi _ _
    refine ⟨hi.beside rfl rfl rfl ?_, .refl s⟩
    simp [Memory.alloc]
  · exact fun _ _ _ _ _ _ _ => trivial
  · rintro res s' ⟨hres, -, hcreated⟩
    exact ⟨hres, books_of_creates hbooks hcreated⟩

/-- **The conduct is met**: ticks keep the books, requests register only what can become a job,
and nothing else touches either. -/
theorem good (hv : o.viem.Lawful) : (conduct o paid).Good where
  lawful := hv
  guar_refl := .refl
  guar_trans := fun _ _ _ => Grows.trans
  ticking := ticking
  registers := registers
  prepared := fun _ hprepared => entryAdmitted hprepared
  outside := by
    intro x m w hi
    cases x <;> exact hi.beside rfl rfl rfl (Nat.le_refl _)
  live := fun _ hi => hi.live
  started := by
    intro s ledger hi hbooks
    refine ⟨?_, ?_, .refl s, .refl _, hbooks.seen, hbooks.live⟩
    · exact hi.beside rfl rfl rfl (Nat.le_refl _)
    · exact hi.beside rfl rfl rfl (Nat.le_refl _)
  creates := fun _ _ hbooks => creates hbooks
  pays := by
    intro l v r job _ _ _ _ hub value e s hi _
    refine ⟨hi.beside rfl ?_ rfl (Nat.le_refl _), .refl s⟩
    rw [effect_broadcast rfl]
    split <;> rfl
  walks := fun _ _ _ _ _ _ hbooks hlive _ _ hwalked => hbooks.walked hlive hwalked

theorem allows (hv : o.viem.Lawful) {e : Event o} {s : Sys o} (hone : OneTick e s)
    (hsmooth : Smooth paid e s) : (conduct o paid).discipline.Allows e s := by
  refine (good hv).allows hone ?_ ?_ ?_
  · rintro l rfl
    cases l with
    | register body =>
      intro entry hentry
      have hall : (registerEntry body).all (accepts paid o.viem) = true := hsmooth
      rw [hentry] at hall
      exact entryAdmitted hall
    | _ => trivial
  · rintro i c rfl p hp
    exact hsmooth p hp
  · rintro - hi
    refine ⟨⟨?_, hi.pending, ?_⟩, ?_, ?_⟩
    · intro p hp
      cases hp
    · intro id r hr
      cases hr
    · intro hash hmem
      cases hmem
    · intro hash r hmem
      cases hmem

end Steps

end Intake

/-- **An observed payment is never dropped**: in every such run, whenever no tick is running,
every payment that was seen has a job that is live or persisted. -/
theorem observed_payment_kept {o : Options} (hv : o.viem.Lawful) (paid : Hex → Bool) {now : Int}
    {history : List AccountTxEntry} {s : Sys o}
    (hrun : Run (fun e s => OneTick e s ∧ Intake.Smooth paid e s) (Sys.fresh o now history) s)
    (hquiet : noTick s = true) : ∀ hash ∈ s.mem.seen, Intake.Kept s.st hash := by
  have hinit : (Intake.conduct o paid).discipline.Ok (Sys.fresh o now history) := by
    refine Discipline.Ok.init ⟨?_, ?_, ?_⟩ fun _ _ => ⟨?_, ?_⟩
    · intro p hp
      cases hp
    · intro name record hfile
      cases hfile
    · intro id r hr
      cases hr
    · intro hash hmem
      cases hmem
    · intro hash r hmem
      cases hmem
  have hgood : (Intake.conduct o paid).Good := Intake.good hv
  have hok := hgood.sound.run hinit (hrun.mono fun e s h => Intake.allows hv h.1 h.2)
  intro hash hmem
  have hbooks : Intake.Books (view s.st) := by
    refine hok.idle .ticks (fun t ht hk => ?_) rfl
    have hall := List.all_eq_true.mp hquiet t ht
    have hne : kindOf t.label ≠ .requests := by
      rw [show kindOf t.label = .ticks from hk]
      exact TaskKind.noConfusion
    simpa [hne] using hall
  exact Or.inr (hbooks.seen hash hmem)

/-! ## 4. A number that cannot be read -/

namespace Sample

/-- A second operation, the byte `0x02`, and a payment for it. -/
def otherData : Str := "0x02".toList

def otherCommitment : Hex :=
  "0xf2ee15ea639b73fa3db9b34a245bdfa015c260c598b211bf05a1ecc4b3e3b4f2".toList

def otherTxId : Str := List.replicate 64 'B'

def twoTables : ViemTables where
  hashes := [(userOpData, commitment), (otherData, otherCommitment)]

/-- Both operations are registered, the first with the value `1e18`, which `BigInt` refuses;
then a tick finds both payments in one page. -/
def unreadable : List (Event (options twoTables)) :=
  task 0 (.register (body userOpData "1e18".toList)) [.done, .done] ++
    task 1 (.register (body otherData "5".toList)) [.done, .done] ++
    tickOn 2 [payment txId 10 commitment, payment otherTxId 11 otherCommitment] [] ++ [.resume 2]

end Sample

/-- A payment is registered, seen, and driven through its five steps. -/
theorem observed_payment_kept_wholeRun :
    ∃ s : Sys (Sample.options Sample.tables), noTick s = true ∧ Sample.txId ∈ s.mem.seen ∧
      Intake.Kept s.st Sample.txId := by
  have hrun : (Sys.runIf (fun e s => OneTick e s ∧ Intake.Smooth (fun _ => true) e s)
      Sample.wholeRun (Sys.fresh _ 0 [])).map
        (fun s => decide (noTick s = true ∧ Sample.txId ∈ s.mem.seen)) = some true := by
    decide +kernel
  obtain ⟨s, hs, hend⟩ := Option.map_eq_some_iff.mp hrun
  obtain ⟨hquiet, hseen⟩ := of_decide_eq_true hend
  exact ⟨s, hquiet, hseen, observed_payment_kept Sample.tables_consistent.lawful (fun _ => true)
    (Run.of_runIf _ hs) hquiet Sample.txId hseen⟩

/-- **Two payments are dropped**: the tick is over, both were seen, and neither has a job. -/
theorem unreadable_number_drops_payments :
    ∃ s, Sys.run Sample.unreadable (Sys.fresh _ 0 []) = some s ∧ noTick s = true ∧
      Sample.txId ∈ s.mem.seen ∧ Sample.otherTxId ∈ s.mem.seen ∧
      ¬ Intake.Kept s.st Sample.txId ∧ ¬ Intake.Kept s.st Sample.otherTxId := by
  have hrun : (Sys.run Sample.unreadable (Sys.fresh _ 0 [])).map (fun s =>
      decide (noTick s = true ∧ Sample.txId ∈ s.mem.seen ∧ Sample.otherTxId ∈ s.mem.seen ∧
        ¬ Intake.Kept s.st Sample.txId ∧ ¬ Intake.Kept s.st Sample.otherTxId)) = some true := by
    decide +kernel
  obtain ⟨s, hs, hend⟩ := Option.map_eq_some_iff.mp hrun
  exact ⟨s, hs, of_decide_eq_true hend⟩

end OneSig.Executor
