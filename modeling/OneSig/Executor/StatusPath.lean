/-
# The path of `GET /status`

`create` checks the transaction hash it is given before it makes an id of it.  `GET /status` does
not: it drops a leading `0x`, takes the upper case, and asks for the file of that name in the
directory of jobs.  On the spellings of a hash the two agree (`jobId_of_spells`).  Any other query
is a path like any other: the handler refuses it only when there is nothing to be read there.

So the answer to a query is right exactly when the query is a spelling whose file can be read, or
when nothing can be read at the place that its text leads to (`status_answers_iff`).  That is the
rule for a text without separators in a directory that holds jobs and nothing else
(`sound_of_plain`); it is not for `./` before a hash, which finds the job of that hash although it
spells none (`not_sound_dotted`, `dotted_query_finds_job`).

A file is found by its path here, not by its name: `location` joins the directory, the id and
`.json` and resolves the dot segments, as `path.join` does, and the directory is any assignment of
files to paths.  `Mounted` ties it to the model's own directory of jobs at the moment of the
request.

* `normalize_iff`: the spellings are what `create` accepts, and their ids are those of its jobs.
* `Replied`: what becomes of a query.  `RightReply`, `Sound`: when the reply is right.
* `runs_create_stored`: the job `create` resolves to is the one that its file holds.
-/
import OneSig.Executor.Views
import OneSig.Executor.Interrupted
import OneSig.Lib.Path

namespace OneSig.Executor

open OneSig Async Solo ExecutorPipeline

namespace StatusPath

/-! ## 1. Ids and their spellings -/

/-- An optional `0x` and 64 hex digits in any case; `id` is the id they spell. -/
inductive Spells : Str → Str → Prop
  | bare {body : Str} : isTxHash body = true → Spells body (toUpperCase body)
  | marked {body : Str} : isTxHash body = true → Spells (hexPrefix ++ body) (toUpperCase body)

/-- The query spells this id. -/
def Asks (tx : Option Str) (id : Str) : Prop := ∃ hash ∈ tx, Spells hash id

/-- The text without its mark. -/
def unmarked (hash : Str) : Str := if hexPrefix.isPrefixOf hash then hash.drop 2 else hash

theorem spells_iff {hash id : Str} :
    Spells hash id ↔ isTxHash (unmarked hash) = true ∧ id = toUpperCase (unmarked hash) := by
  constructor
  · rintro (hbody | hbody)
    · have hsame : unmarked hash = hash := by
        rw [unmarked, not_prefixed hbody]
        rfl
      exact ⟨hsame.symm ▸ hbody, by rw [hsame]⟩
    · exact ⟨hbody, rfl⟩
  · rintro ⟨hbody, rfl⟩
    unfold unmarked at hbody ⊢
    split at hbody
    case isTrue hmark =>
      obtain ⟨rest, rfl⟩ := List.isPrefixOf_iff_prefix.mp hmark
      rw [if_pos hmark]
      exact .marked hbody
    case isFalse hmark =>
      rw [if_neg hmark]
      exact .bare hbody

theorem normalize_unmarked (hash : Str) :
    normalizeXrplTxId hash = if isTxHash (unmarked hash) = false then
        raise ("not a 32-byte XRPL transaction hash: ".toList ++ hash)
      else .ok (hexPrefix ++ toUpperCase (unmarked hash)) := rfl

/-- The spellings are what `create` accepts, and their ids are the ids of its jobs. -/
theorem normalize_iff {hash id : Str} :
    normalizeXrplTxId hash = .ok (hexPrefix ++ id) ↔ Spells hash id := by
  rw [spells_iff, normalize_unmarked]
  cases hbody : isTxHash (unmarked hash) with
  | false => simp [raise]
  | true => simp [eq_comm]

theorem ascii_of_isTxHash {body : Str} (h : isTxHash body = true) : ∀ c ∈ body, c.toNat < 128 := by
  intro c hc
  have hdigit := Bytes.isHexDigit_iff.mp ((isTxHash_iff.mp h).2 c hc)
  omega

/-- **The two normalisations agree** on every spelling of a hash: the one that checks it, and the
one of the handler, which does not. -/
theorem jobId_of_spells (o : Options) {hash id : Str} (h : Spells hash id) :
    ExecutorService.jobId o hash = id := by
  obtain ⟨hbody, rfl⟩ := spells_iff.mp h
  exact UpperCase.apply_ascii _ (ascii_of_isTxHash hbody)

theorem Spells.unique {hash id id' : Str} (h : Spells hash id) (h' : Spells hash id') : id = id' :=
  (spells_iff.mp h).2.trans (spells_iff.mp h').2.symm

theorem Spells.isTxHash {hash id : Str} (h : Spells hash id) : isTxHash id = true := by
  obtain ⟨hbody, rfl⟩ := spells_iff.mp h
  obtain ⟨hlen, hdigits⟩ := isTxHash_iff.mp hbody
  refine isTxHash_iff.mpr ⟨by rw [toUpperCase, List.length_map, hlen], fun c hc => ?_⟩
  obtain ⟨d, hd, rfl⟩ := List.mem_map.mp hc
  exact Bytes.isHexDigit_toUpper.mpr (hdigits d hd)

/-! ## 2. The directory -/

/-- The files there are, by their paths, and what each reads as. -/
abbrev Files := List Path.Name → Option (Text Job)

/-- `#path(id)`. -/
def location (base : List Path.Name) (id : Str) : List Path.Name :=
  Path.resolve base (id ++ PendingStore.jsonSuffix)

/-- The file that is read for an id.  A path with a null character is refused before any is. -/
def opened (base : List Path.Name) (files : Files) (id : Str) : Option (Text Job) :=
  if Char.ofNat 0 ∈ id then none else files (location base id)

/-- What the service reads for an id is what stands in the file of its path, at the moment of the
request.  It is a snapshot and no invariant: `writeJob` keys the job files by the text of the id, so
after a write the ids that resolve to the same path by another way (`./AA` beside `AA`) still show
the file from before, which on the disk is the same file.  The two halves of `status_answers_iff`
are each about one request from such a state, and nothing is written in between. -/
def Mounted (base : List Path.Name) (files : Files) (w : Outside) : Prop :=
  ∀ id, w.jobs id = opened base files id

/-- The file of a job. -/
def IsJobPath (base path : List Path.Name) : Prop :=
  ∃ hash id, Spells hash id ∧ path = base ++ [id ++ PendingStore.jsonSuffix]

theorem isName_json {id : Str} (h : isTxHash id = true) :
    Path.IsName (id ++ PendingStore.jsonSuffix) := by
  obtain ⟨hlen, hdigits⟩ := isTxHash_iff.mp h
  refine Path.isName_of_length ?_ ?_
  · rw [List.length_append, hlen]
    omega
  · intro hslash
    rcases List.mem_append.mp hslash with hid | hsuffix
    · exact absurd (hdigits _ hid) (by decide)
    · revert hsuffix
      decide

theorem location_of_isTxHash (base : List Path.Name) {id : Str} (h : isTxHash id = true) :
    location base id = base ++ [id ++ PendingStore.jsonSuffix] :=
  Path.resolve_name base (isName_json h)

/-- The file of an id is the one its job was saved to. -/
theorem opened_of_isTxHash (base : List Path.Name) (files : Files) {id : Str}
    (h : isTxHash id = true) :
    opened base files id = files (base ++ [id ++ PendingStore.jsonSuffix]) := by
  rw [opened, if_neg, location_of_isTxHash base h]
  intro hnull
  exact absurd ((isTxHash_iff.mp h).2 _ hnull) (by decide)

/-! ## 3. The handler -/

/-- The fields of a job that are shown. -/
def statusReply (job : Job) : PublicReply :=
  .status job.state job.roundId job.flareTxHash job.executionAllowedAt job.lastError

/-- The query is refused. -/
def Refused (reply : PublicReply) : Prop :=
  ∃ code message, reply = .error code message ∧ (code = 400 ∨ code = 404)

/-- The first read is rejected. -/
def readFails (answers : List (Choice × Int)) : Bool :=
  match answers with
  | [] => false
  | (c, _) :: _ => Choice.failed c

/-- What becomes of a query: without an id nothing is read, and with one exactly its file. -/
inductive Replied (o : Options) (s : St) :
    Option Str → List Exchange → Except JsError PublicReply → Prop
  | missing {tx : Option Str} {message : Str} : (∀ hash ∈ tx, hash = []) →
      Replied o s tx [] (.ok (.error 400 message))
  | job {hash : Str} {x : Exchange} {job : Job} : hash ≠ [] →
      x.op = .readJob (ExecutorService.jobId o hash) → Choice.failed x.choice = false →
      s.world.jobs (ExecutorService.jobId o hash) = some (.whole job) →
      Replied o s (some hash) [x] (.ok (statusReply job))
  | nothing {hash : Str} {x : Exchange} {message : Str} : hash ≠ [] →
      x.op = .readJob (ExecutorService.jobId o hash) →
      (Choice.failed x.choice = true ∨
        ∀ job, s.world.jobs (ExecutorService.jobId o hash) ≠ some (.whole job)) →
      Replied o s (some hash) [x] (.ok (.error 404 message))

theorem runs_handleStatus {later : Int → Int → Prop} (hl : Clock later) (o : Options)
    (tx : Option Str) {s : St} : Runs later (ExecutorService.handleStatus o tx)
      (fun calls res _ => Replied o s tx calls res) s := by
  unfold ExecutorService.handleStatus
  split
  case h_1 hnone =>
    refine alone_pure (.missing fun hash hmem => ?_)
    have hkept := Option.filter_eq_none_iff.mp hnone hash hmem
    simpa using hkept
  case h_2 hash hsome =>
    obtain ⟨rfl, hne⟩ : tx = some hash ∧ hash ≠ [] := by simpa using hsome
    refine alone_seq (runs_load_calls hl _) ?_ ?_
    · rintro calls found s₁ ⟨x, found', rfl, hop, hres, hfound⟩
      cases hres
      cases found with
      | none => exact alone_pure (.nothing hne hop hfound)
      | some r =>
        obtain ⟨hc, rfl, job, hfile, hheap⟩ := hfound
        have hj : s₁.mem.heap[s.mem.heap.length]? = some job.stored := by
          rw [hheap, List.getElem?_concat_length]
        have hreply : Replied o s (some hash) [x] (.ok (statusReply job.stored)) :=
          @Replied.job o s hash x job hne hop hc hfile
        exact alone_then (runs_deref hj ⟨rfl, _, rfl, alone_pure hreply⟩)
    · rintro calls e s₁ ⟨x, found, -, -, hres, -⟩
      cases hres

/-! ## 4. Right answers -/

/-- The file that `create` keeps the job of an id in. -/
def jobFile (base : List Path.Name) (files : Files) (id : Str) : Option (Text Job) :=
  files (base ++ [id ++ PendingStore.jsonSuffix])

/-- The reply is about the transaction asked about, and nothing but the file of a job is read. -/
structure RightReply (base : List Path.Name) (files : Files) (tx : Option Str)
    (calls : List Exchange) (reply : PublicReply) : Prop where
  found : ∀ id, Asks tx id → ∀ text, jobFile base files id = some text →
    ∃ job, text = .whole job ∧ reply = statusReply job
  other : (∀ id, Asks tx id → jobFile base files id = none) → Refused reply
  reads : ∀ x ∈ calls, ∃ id, x.op = .readJob id ∧ (Choice.failed x.choice = true ∨
    opened base files id = none ∨ IsJobPath base (location base id))

/-- When the answer to a query is right.  `fails` says whether its read is rejected. -/
structure Sound (o : Options) (base : List Path.Name) (files : Files) (fails : Bool)
    (hash : Str) : Prop where
  spelled : ∀ id, Spells hash id → ∀ text, jobFile base files id = some text →
    (∃ job, text = .whole job) ∧ fails = false
  other : (∀ id, ¬ Spells hash id) → fails = true ∨
    opened base files (ExecutorService.jobId o hash) = none ∨
    opened base files (ExecutorService.jobId o hash) = some .torn ∧
      IsJobPath base (location base (ExecutorService.jobId o hash))

theorem asks_some {hash id : Str} : Asks (some hash) id ↔ Spells hash id := by simp [Asks]

theorem Spells.isJobPath {hash id : Str} (base : List Path.Name) (h : Spells hash id) :
    IsJobPath base (location base id) := ⟨hash, id, h, location_of_isTxHash base h.isTxHash⟩

section Replies

variable {o : Options} {base : List Path.Name} {files : Files} {calls : List Exchange}

/-- A query without an id is refused, and rightly. -/
theorem answers_missing {tx : Option Str} {message : Str} (h : ∀ hash ∈ tx, hash = []) :
    RightReply base files tx [] (.error 400 message) := by
  refine ⟨?_, fun _ => ⟨400, message, rfl, Or.inl rfl⟩,
    fun x hx => absurd hx List.not_mem_nil⟩
  rintro id ⟨hash, hmem, hspells⟩
  rw [h hash hmem] at hspells
  have hlen := (isTxHash_iff.mp (spells_iff.mp hspells).1).1
  cases hlen

/-- One read of the file of the id, by itself. -/
theorem reads_single {hash : Str} {x : Exchange}
    (hop : x.op = .readJob (ExecutorService.jobId o hash))
    (h : Choice.failed x.choice = true ∨ opened base files (ExecutorService.jobId o hash) = none ∨
      IsJobPath base (location base (ExecutorService.jobId o hash))) :
    ∀ y ∈ [x], ∃ id, y.op = .readJob id ∧ (Choice.failed y.choice = true ∨
      opened base files id = none ∨ IsJobPath base (location base id)) := by
  intro y hy
  obtain rfl := List.mem_singleton.mp hy
  exact ⟨_, hop, h⟩

theorem answers_job_iff {hash : Str} {x : Exchange} {job : Job}
    (hop : x.op = .readJob (ExecutorService.jobId o hash)) (hx : Choice.failed x.choice = false)
    (hfile : opened base files (ExecutorService.jobId o hash) = some (.whole job)) :
    RightReply base files (some hash) [x] (statusReply job) ↔
      Sound o base files (Choice.failed x.choice) hash := by
  by_cases hspells : ∃ id, Spells hash id
  · obtain ⟨id, hspells⟩ := hspells
    have hid := jobId_of_spells o hspells
    have hopened := opened_of_isTxHash base files hspells.isTxHash
    rw [hid] at hfile
    have hstored : jobFile base files id = some (.whole job) := hopened.symm.trans hfile
    refine iff_of_true ⟨?_, ?_, reads_single hop ?_⟩ ⟨?_, fun hno => absurd hspells (hno id)⟩
    · intro id' hasks text htext
      obtain rfl := hspells.unique (asks_some.mp hasks)
      exact ⟨job, Option.some.inj (htext.symm.trans hstored), rfl⟩
    · intro hno
      have hnone := hno id (asks_some.mpr hspells)
      rw [hstored] at hnone
      cases hnone
    · exact Or.inr (Or.inr (hid ▸ hspells.isJobPath base))
    · intro id' hspells' text htext
      obtain rfl := hspells.unique hspells'
      exact ⟨⟨job, Option.some.inj (htext.symm.trans hstored)⟩, hx⟩
  · refine iff_of_false (fun h => ?_) (fun h => ?_)
    · obtain ⟨code, message, hreply, -⟩ :=
        h.other fun id hasks => absurd ⟨id, asks_some.mp hasks⟩ hspells
      cases hreply
    · rcases h.other (not_exists.mp hspells) with hfails | hnone | ⟨htorn, -⟩
      · rw [hx] at hfails
        cases hfails
      · rw [hfile] at hnone
        cases hnone
      · rw [hfile] at htorn
        cases htorn

theorem answers_nothing_iff {hash : Str} {x : Exchange} {message : Str}
    (hop : x.op = .readJob (ExecutorService.jobId o hash))
    (hfile : Choice.failed x.choice = true ∨
      ∀ job, opened base files (ExecutorService.jobId o hash) ≠ some (.whole job)) :
    RightReply base files (some hash) [x] (.error 404 message) ↔
      Sound o base files (Choice.failed x.choice) hash := by
  have hrefused : Refused (.error 404 message) := ⟨404, message, rfl, Or.inr rfl⟩
  by_cases hspells : ∃ id, Spells hash id
  · obtain ⟨id, hspells⟩ := hspells
    have hid := jobId_of_spells o hspells
    have hopened := opened_of_isTxHash base files hspells.isTxHash
    constructor
    · intro h
      refine ⟨fun id' hspells' text htext => ?_, fun hno => absurd hspells (hno id)⟩
      obtain ⟨job, -, hreply⟩ := h.found id' (asks_some.mpr hspells') text htext
      cases hreply
    · intro h
      refine ⟨fun id' hasks text htext => ?_, fun _ => hrefused, reads_single hop ?_⟩
      · obtain rfl := hspells.unique (asks_some.mp hasks)
        obtain ⟨⟨job, rfl⟩, hx⟩ := h.spelled id hspells text htext
        rcases hfile with hfails | hmiss
        · rw [hx] at hfails
          cases hfails
        · exact absurd (hopened.trans htext) (hid ▸ hmiss job)
      · exact Or.inr (Or.inr (hid ▸ hspells.isJobPath base))
  · constructor
    · intro h
      refine ⟨fun id hid => absurd ⟨id, hid⟩ hspells, fun _ => ?_⟩
      obtain ⟨id, hid, hread⟩ := h.reads x (List.mem_singleton_self x)
      obtain rfl : ExecutorService.jobId o hash = id := Op.readJob.inj (hop.symm.trans hid)
      rcases hread with hfails | hnone | hpath
      · exact Or.inl hfails
      · exact Or.inr (Or.inl hnone)
      · rcases hfile with hfails | hmiss
        · exact Or.inl hfails
        · right
          cases htext : opened base files (ExecutorService.jobId o hash) with
          | none => exact Or.inl rfl
          | some text =>
            cases text with
            | whole job => exact absurd htext (hmiss job)
            | torn => exact Or.inr ⟨rfl, hpath⟩
    · intro h
      refine ⟨fun id hasks => absurd ⟨id, asks_some.mp hasks⟩ hspells, fun _ => hrefused,
        reads_single hop ?_⟩
      rcases h.other (not_exists.mp hspells) with hfails | hnone | ⟨-, hpath⟩
      · exact Or.inl hfails
      · exact Or.inr (Or.inl hnone)
      · exact Or.inr (Or.inr hpath)

end Replies

/-! ## 5. Queries without separators -/

/-- The directory holds the jobs and nothing else. -/
def OnlyJobs (base : List Path.Name) (files : Files) : Prop :=
  ∀ name, files (base ++ [name]) ≠ none →
    ∃ hash id, Spells hash id ∧ name = id ++ PendingStore.jsonSuffix

/-- Characters of ASCII, and no separator. -/
def Flat (hash : Str) : Prop := ∀ c ∈ hash, c.toNat < 128 ∧ c ≠ '/'

theorem toUpper_ne_slash {c : Char} (h : c ≠ '/') : c.toUpper ≠ '/' := by
  intro hup
  have hnat := congrArg Char.toNat hup
  rw [Bytes.toNat_toUpper] at hnat
  have hslash : '/'.toNat = 47 := rfl
  rw [hslash] at hnat
  split at hnat
  · omega
  · exact h (Char.toNat_inj.mp hnat)

/-- What is in upper case the id of a job spells it. -/
theorem spells_of_toUpperCase {hash body id : Str} (h : Spells hash id)
    (hup : toUpperCase body = id) : isTxHash body = true := by
  obtain ⟨hlen, hdigits⟩ := isTxHash_iff.mp h.isTxHash
  rw [← hup] at hlen hdigits
  refine isTxHash_iff.mpr ⟨by rwa [toUpperCase, List.length_map] at hlen, fun c hc => ?_⟩
  exact Bytes.isHexDigit_toUpper.mp (hdigits _ (List.mem_map_of_mem hc))

/-- **Among the jobs a text without separators is safe**: it finds the job it spells, or none. -/
theorem sound_of_plain (o : Options) {base : List Path.Name} {files : Files} {hash : Str}
    (hjobs : OnlyJobs base files) (hflat : Flat hash)
    (hwhole : ∀ id, Spells hash id → jobFile base files id ≠ some .torn) :
    Sound o base files false hash := by
  refine ⟨fun id hspells text htext => ⟨?_, rfl⟩, fun hno => Or.inr (Or.inl ?_)⟩
  · cases text with
    | whole job => exact ⟨job, rfl⟩
    | torn => exact absurd htext (hwhole id hspells)
  · have hunmarked : ∀ c ∈ unmarked hash, c.toNat < 128 ∧ c ≠ '/' := by
      intro c hc
      unfold unmarked at hc
      split at hc
      · exact hflat c (List.mem_of_mem_drop hc)
      · exact hflat c hc
    have hup : ExecutorService.jobId o hash = toUpperCase (unmarked hash) :=
      UpperCase.apply_ascii _ fun c hc => (hunmarked c hc).1
    rw [hup]
    have hname : Path.IsName (toUpperCase (unmarked hash) ++ PendingStore.jsonSuffix) := by
      have hlen : 2 < (toUpperCase (unmarked hash) ++ PendingStore.jsonSuffix).length := by
        rw [List.length_append]
        exact Nat.lt_add_left _ (by decide)
      refine Path.isName_of_length hlen fun hslash => ?_
      rcases List.mem_append.mp hslash with hbody | hsuffix
      · obtain ⟨c, hc, heq⟩ := List.mem_map.mp hbody
        exact toUpper_ne_slash (hunmarked c hc).2 heq
      · revert hsuffix
        decide
    by_contra hopened
    unfold opened at hopened
    split at hopened
    · exact hopened rfl
    · rw [location, Path.resolve_name base hname] at hopened
      obtain ⟨hash', id, hspells, heq⟩ := hjobs _ hopened
      have hid := List.append_cancel_right heq
      exact hno _ (spells_iff.mpr ⟨spells_of_toUpperCase hspells hid, rfl⟩)

/-- A hash behind a dot segment. -/
def dotted (hash : Str) : Str := Path.here ++ '/' :: hash

theorem dotted_spells_nothing {hash : Str} (id : Str) : ¬ Spells (dotted hash) id := by
  intro h
  have hdigit := (isTxHash_iff.mp (spells_iff.mp h).1).2 '.' (.head _)
  exact absurd hdigit (by decide)

/-- **Every job is found behind a dot segment**, by a query that spells nothing: the segment
disappears when the path is resolved. -/
theorem not_sound_dotted (o : Options) {base : List Path.Name} {files : Files} {body : Str}
    {job : Job} (h : isTxHash body = true)
    (hfile : jobFile base files (toUpperCase body) = some (.whole job)) :
    ¬ Sound o base files false (dotted body) := by
  intro hsound
  have hascii : ∀ c ∈ dotted body, c.toNat < 128 := by
    intro c hc
    rcases List.mem_append.mp hc with hhere | hrest
    · obtain rfl := List.mem_singleton.mp hhere
      decide
    · rcases List.mem_cons.mp hrest with rfl | hbody
      · decide
      · exact ascii_of_isTxHash h c hbody
  have hid : ExecutorService.jobId o (dotted body) = dotted (toUpperCase body) :=
    UpperCase.apply_ascii _ hascii
  have hup := (Spells.bare h).isTxHash
  have hnull : Char.ofNat 0 ∉ dotted (toUpperCase body) := by
    intro hmem
    rcases List.mem_append.mp hmem with hhere | hrest
    · exact absurd (List.mem_singleton.mp hhere) (by decide)
    · rcases List.mem_cons.mp hrest with hslash | hbody
      · exact absurd hslash (by decide)
      · exact absurd ((isTxHash_iff.mp hup).2 _ hbody) (by decide)
  have hopened : opened base files (dotted (toUpperCase body)) = some (.whole job) := by
    have hsame : location base (dotted (toUpperCase body)) = location base (toUpperCase body) := by
      rw [location, dotted, List.append_assoc]
      exact Path.resolve_here ..
    rw [opened, if_neg hnull, hsame, location_of_isTxHash base hup]
    exact hfile
  rcases hsound.other dotted_spells_nothing with hfails | hnone | ⟨htorn, -⟩
  · cases hfails
  · rw [hid, hopened] at hnone
    cases hnone
  · rw [hid, hopened] at htorn
    cases htorn

/-! ## 6. `create` -/

/-- The job that `create` resolves to is the one whose text its file holds, under the id the hash
spells. -/
theorem runs_create_stored {later : Int → Int → Prop} (hl : Clock later) (o : Options)
    (params : CreateParams) {s : St} : Runs later (ExecutorPipeline.create params)
      (fun _ res s' => ∀ r, res = .ok r → ∃ id job saved, Spells params.xrplTxId id ∧
        s'.mem.heap[r]? = some job ∧ s'.world.jobs id = some (.whole saved) ∧
          saved.stored = job.stored) s := by
  refine alone_mono (runs_create hl o params) ?_
  rintro calls res s' ⟨-, -, hcreated⟩ r hr
  obtain ⟨id, hid, hcreated⟩ := hcreated r hr
  obtain ⟨id', rfl⟩ : ∃ id', id = hexPrefix ++ id' := by
    rw [normalize_unmarked] at hid
    split at hid
    · cases hid
    · exact ⟨_, (Except.ok.inj hid).symm⟩
  refine ⟨id', ?_⟩
  generalize hheap : s'.mem.heap = heap at hcreated
  generalize hjobs : s'.world.jobs = jobs at hcreated
  cases hcreated with
  | @existing job hfile =>
    exact ⟨job.stored, job, normalize_iff.mp hid, List.getElem?_concat_length, hfile,
      job.stored_stored.symm⟩
  | @fresh now time job hjob =>
    exact ⟨job, job, normalize_iff.mp hid, List.getElem?_concat_length, Function.update_self ..,
      rfl⟩

end StatusPath

open StatusPath

namespace SampleStatus

/-- A directory with the job of one payment. -/
def files : Files := fun path =>
  if path = [Sample.txId ++ PendingStore.jsonSuffix] then some (.whole Sample.jobPrepared) else none

def start : St := ⟨Memory.boot 0, { Outside.fresh [] with jobs := opened [] files }⟩

def options : Options := Sample.options Sample.tables

/-- The hash as a wallet may show it. -/
def spelled : Str := hexPrefix ++ toLowerCase Sample.txId

theorem spells : Spells spelled Sample.txId := by
  have h : Spells spelled (toUpperCase (toLowerCase Sample.txId)) := .marked (by decide)
  rwa [show toUpperCase (toLowerCase Sample.txId) = Sample.txId by decide] at h

end SampleStatus

/-- **What `GET /status` answers**: `create` keeps the text of the job it resolves to in the file of
the id its hash spells.  A query with a hash is answered rightly exactly when it is a spelling whose file, if
there is one, can be read and is whole, or when it is not a spelling and its path has no file (or
the half-written file of a job, or the read is rejected). -/
theorem status_answers_iff (o : Options) {base : List Path.Name} {files : Files} {s : St}
    (hmounted : Mounted base files s.world) :
    (∀ params answers out r, exec (W := world) clockTo (ExecutorPipeline.create params) answers s =
      some out → out.res = .ok r → ∃ id job saved, Spells params.xrplTxId id ∧
        out.st.mem.heap[r]? = some job ∧ out.st.world.jobs id = some (.whole saved) ∧
          saved.stored = job.stored) ∧
    ∀ tx answers out, exec (W := world) clockTo (ExecutorService.handleStatus o tx) answers s =
      some out → ∃ reply, out.res = .ok reply ∧ (RightReply base files tx out.calls reply ↔
        ∀ hash ∈ tx, hash ≠ [] → Sound o base files (readFails answers) hash) := by
  refine ⟨fun params answers out r hexec hres => ?_, fun tx answers out hexec => ?_⟩
  · exact runs_create_stored Clock.any o params _ _ hexec (fun _ _ => trivial) r hres
  · have hreplied := runs_handleStatus Clock.any o tx _ _ hexec fun _ _ => trivial
    have hanswers := exec_answers hexec
    generalize hcalls : out.calls = calls at hreplied hanswers ⊢
    generalize out.res = res at hreplied ⊢
    cases hreplied with
    | missing hmissing =>
      refine ⟨_, rfl, iff_of_true (answers_missing hmissing) fun hash hmem hne => ?_⟩
      exact absurd (hmissing hash hmem) hne
    | @job hash x job hne hop hx hfile =>
      rw [hmounted] at hfile
      have hfails : readFails answers = Choice.failed x.choice := by rw [hanswers]; rfl
      refine ⟨_, rfl, ?_⟩
      rw [answers_job_iff hop hx hfile, hfails]
      simp [hne]
    | @nothing hash x message hne hop hmiss =>
      rw [hmounted] at hmiss
      have hfails : readFails answers = Choice.failed x.choice := by rw [hanswers]; rfl
      refine ⟨_, rfl, ?_⟩
      rw [answers_nothing_iff hop hmiss, hfails]
      simp [hne]

open SampleStatus in
/-- The lower-case spelling finds the job. -/
theorem status_answers_spelled : ∃ out reply, exec (W := world) clockTo
    (ExecutorService.handleStatus SampleStatus.options (some spelled))
      [(.done, 0)] start = some out ∧
    out.res = .ok reply ∧ reply = statusReply Sample.jobPrepared := by
  obtain ⟨out, hexec⟩ : ∃ out, exec (W := world) clockTo (ExecutorService.handleStatus
      SampleStatus.options (some spelled)) [(.done, 0)] start = some out := ⟨_, rfl⟩
  have hmounted : Mounted [] files start.world := fun _ => rfl
  obtain ⟨reply, hres, hiff⟩ :=
    (status_answers_iff SampleStatus.options hmounted).2 _ _ _ hexec
  have hstored : jobFile [] files Sample.txId = some (.whole Sample.jobPrepared) := rfl
  have hsound : Sound SampleStatus.options [] files (readFails [(.done, 0)]) spelled := by
    refine ⟨fun id hspells text htext => ⟨?_, rfl⟩, fun hno => absurd spells (hno _)⟩
    obtain rfl := hspells.unique spells
    exact ⟨_, Option.some.inj (htext.symm.trans hstored)⟩
  have hanswers := hiff.mpr fun hash hmem _ => Option.some.inj hmem ▸ hsound
  obtain ⟨job, hjob, hreply⟩ := hanswers.found _ (asks_some.mpr spells) _ hstored
  obtain rfl := Text.whole.inj hjob
  exact ⟨out, reply, hexec, hres, hreply⟩

open SampleStatus in
/-- **A hash behind a dot segment gets 200**: the query spells no hash, and the reply is the job. -/
theorem dotted_query_finds_job : ∃ out, exec (W := world) clockTo
    (ExecutorService.handleStatus SampleStatus.options (some (dotted Sample.txId)))
      [(.done, 0)] start = some out ∧
    Mounted [] files start.world ∧ (∀ id, ¬ Asks (some (dotted Sample.txId)) id) ∧
    ∃ job, out.res = .ok (statusReply job) := by
  refine ⟨_, rfl, fun _ => rfl, fun id h => dotted_spells_nothing id (asks_some.mp h), ?_⟩
  exact ⟨Sample.jobPrepared, rfl⟩

end OneSig.Executor
