/-
# What the public views say of an operation

Anyone may ask the service for `GET /pending` and `GET /status`.  The bytes of an operation are to
stay with the executor until they are minted, and these views leave them out.  That they do is a
statement about two runs: two runs of the service with the same payments, clock and answers, in
which one operation is registered with other bytes.  Its commitment is another one then, in the
registration, in the memo of the payment and in the name of its file.

The bytes go into the record, the job and the call of the contract, and into nothing else that the
service computes.  What comes back from the call is another matter: the text of a rejection is
stored in the job and shown by `GET /status`.  So the two runs show the same as long as rejections
read alike (`Discreet`), and viem's errors, which print the arguments of the call, do not
(`status_reveals_argument`).

`Views.machine` is the service with its requests answered.  The proof is a relation between its
two runs, set up as a `Likeness` of the library on twin programs:

* section 1 relates the data, up to a renaming of the commitment, and section 2 the operations,
  answers and replies;
* sections 3 to 6 give one `twin_*` lemma for each function of the pipeline, the store, the
  watcher and the service;
* section 7 shows that the environment answers related operations alike (`sound`), which needs
  that no two commitments share a file;
* `views_same_of_discreet` reads the replies off the two runs.
-/
import OneSig.Executor.Binding
import OneSig.Executor.Views
import OneSig.Lib.Async.Twin
import OneSig.Lib.Replace

namespace OneSig.Executor

open OneSig Async ExecutorPipeline

namespace Disclosure

/-! ## 1. What corresponds -/

section Data

variable (o : Options) (c c' : Hex)

/-- The same text, or with the other commitment for the one. -/
def SameText (t t' : Str) : Prop := t' = t ∨ t' = List.replaceAll c c' t

/-- Two errors that read alike, and that the pipeline takes alike. -/
structure SameError (e e' : JsError) : Prop where
  message : SameText c c' e.message e'.message
  retryable : ExecutorPipeline.retryable e' = ExecutorPipeline.retryable e
  confirmed : isAlreadyConfirmed e' = isAlreadyConfirmed e

/-- Two records of an operation: the bytes are its own. -/
def SameRecord (r r' : PendingUserOp) : Prop :=
  ∃ k u, r' = { r with commitment := k, userOpData := u } ∧ SameKey c c' r.commitment k

/-- Two jobs: the bytes are their own, and the last errors read alike. -/
def SameJob (j j' : Job) : Prop :=
  ∃ u e, j' = { j with userOpData := u, lastError := e } ∧ Option.Rel (SameText c c') j.lastError e

variable {c c'} in
/-- What the files give back corresponds as well. -/
theorem SameRecord.stored (r r' : PendingUserOp) (h : SameRecord c c' r r') :
    SameRecord c c' r.stored r'.stored := by
  obtain ⟨k, u, rfl, hk⟩ := h
  exact ⟨k, u, rfl, hk⟩

variable {c c'} in
theorem SameJob.stored (j j' : Job) (h : SameJob c c' j j') : SameJob c c' j.stored j'.stored := by
  obtain ⟨u, e, rfl, he⟩ := h
  exact ⟨u, e, rfl, he⟩

/-- Two files: both whole, with contents that correspond, or both torn. -/
inductive SameFile {α : Type} (R : α → α → Prop) : Text α → Text α → Prop
  | whole {a a' : α} (h : R a a') : SameFile R (.whole a) (.whole a')
  | torn : SameFile R .torn .torn

/-- The bytes and the commitment of a registration, when they belong together. -/
def verify (entry : Entry) : Except JsError (Str × Hex) := do
  let (userOpData, commitment) ← keccak256 o.viem entry.userOpData
  checkCommitment entry.commitment commitment
  return (userOpData, commitment)

/-- Two registrations: both refused, or of operations whose commitments correspond. -/
structure SameEntry (e e' : Entry) : Prop where
  verified : ExceptRel (fun _ _ => True)
    (fun p p' : Str × Hex => SameKey c c' p.2 p'.2) (verify o e) (verify o e')
  rest : ∃ u k, e' = { e with userOpData := u, commitment := k }

/-- Two bodies of `POST /register`. -/
structure SameBody (body body' : Json) : Prop where
  null : body' = .null ↔ body = .null
  entry : Option.Rel (SameEntry o c c') (ExecutorService.registerEntry body)
    (ExecutorService.registerEntry body')

/-- Two answers of `prepare`. -/
def SamePrepared (p p' : PreparedForWeb) : Prop :=
  SameEntry o c c' (ExecutorService.preparedEntry p) (ExecutorService.preparedEntry p')

/-- Two payments, with memos of their own. -/
def SameTx (t t' : XrplTx) : Prop :=
  ∃ memos, t' = { t with memos := memos } ∧
    Option.Rel (SameKey c c') (commitmentFromMemos t) (commitmentFromMemos t')

def SameTxEntry (e e' : AccountTxEntry) : Prop :=
  ∃ tx_json tx, e' = { e with tx_json := tx_json, tx := tx } ∧
    Option.Rel (SameTx c c') e.tx_json tx_json ∧ Option.Rel (SameTx c c') e.tx tx

inductive SamePage : XrplReply (Option (List AccountTxEntry)) →
    XrplReply (Option (List AccountTxEntry)) → Prop
  | httpError (status : Nat) : SamePage (.httpError status) (.httpError status)
  | missingResult : SamePage .missingResult .missingResult
  | failed (error : Str) (error_message : Option Str) :
      SamePage (.failed error error_message) (.failed error error_message)
  | result {page page' : Option (List AccountTxEntry)}
      (h : Option.Rel (List.Forall₂ (SameTxEntry c c')) page page') :
      SamePage (.result page) (.result page')

/-- Two payments as the watcher reports them. -/
def SameObserved (p p' : ObservedPayment) : Prop :=
  ∃ k, p' = { p with commitment := k } ∧ SameKey c c' p.commitment k ∧
    IsLowerHex 32 p.commitment ∧ IsLowerHex 32 k

/-- Two memories: other bytes in the records and in the jobs. -/
def SameMemory (m m' : Memory) : Prop :=
  ∃ memory heap, m' = { m with memory := memory, heap := heap } ∧
    JsMap.Alike (SameKey c c') (SameRecord c c') m.memory memory ∧
    List.Forall₂ (SameJob c c') m.heap heap

/-- The name of the file of an operation. -/
def SameName (name name' : Str) : Prop :=
  SameKey (PendingStore.fileName c) (PendingStore.fileName c') name name'

/-- Two states of the directories.  The chain has seen the bytes. -/
structure SameOutside (w w' : Outside) : Prop where
  pending : ∀ name name', SameName c c' name name' →
    Option.Rel (SameFile (SameRecord c c')) (w.pending name) (w'.pending name')
  jobs : ∀ id, Option.Rel (SameFile (SameJob c c')) (w.jobs id) (w'.jobs id)

end Data

/-! ## 2. The two runs -/

section Runs

variable (o : Options) (c c' : Hex)

/-- The operations with an argument that can differ. -/
def carries : Op → Bool
  | .writePending _ _ | .readPending _ | .writeJob _ _
  | .executeDirectMintingWithData _ _ _ _ _ => true
  | _ => false

inductive SameOp : Op → Op → Prop
  | writePending {name name' : Str} {r r' : PendingUserOp} (hname : SameName c c' name name')
      (h : SameRecord c c' r r') : SameOp (.writePending name r) (.writePending name' r')
  | readPending {name name' : Str} (hname : SameName c c' name name') :
      SameOp (.readPending name) (.readPending name')
  | writeJob (id : Str) {j j' : Job} (h : SameJob c c' j j') :
      SameOp (.writeJob id j) (.writeJob id j')
  | execute (xrplTxId : Hex) (assetManager : Address) (proof : XrpPaymentProof)
      (u u' : Str) (value : Int) :
      SameOp (.executeDirectMintingWithData xrplTxId assetManager proof u value)
        (.executeDirectMintingWithData xrplTxId assetManager proof u' value)
  | other {op : Op} (h : carries op = false) : SameOp op op

/-- Two results: what holds an operation corresponds, everything else is the same. -/
def SameRes : (op op' : Op) → Res op → Res op' → Prop
  | .readPending _, .readPending _ => SameFile (SameRecord c c')
  | .readJob _, .readJob _ => SameFile (SameJob c c')
  | .accountTx _ _ _, .accountTx _ _ _ => SamePage c c'
  | .prepare _, .prepare _ => SamePrepared o c c'
  | _, _ => fun r r' => HEq r r'

/-- Two answers of the environment, with rejections in `E`. -/
inductive SameChoice (E : JsError → JsError → Prop) : Choice → Choice → Prop
  | fail {e e' : JsError} (h : E e e') (part : Effect) : SameChoice E (.fail e part) (.fail e' part)
  | transactions {r r' : XrplReply (Option (List AccountTxEntry))} (h : SamePage c c' r r') :
      SameChoice E (.transactions r) (.transactions r')
  | prepared {p p' : PreparedForWeb} (h : SamePrepared o c c' p p') :
      SameChoice E (.prepared p) (.prepared p')
  | done : SameChoice E .done .done
  | address (a : Address) : SameChoice E (.address a) (.address a)
  | nat (n : Nat) : SameChoice E (.nat n) (.nat n)
  | bool (b : Bool) : SameChoice E (.bool b) (.bool b)
  | hex (h : Hex) : SameChoice E (.hex h) (.hex h)
  | receipt (r : Receipt) : SameChoice E (.receipt r) (.receipt r)
  | ledger (r : XrplReply Int) : SameChoice E (.ledger r) (.ledger r)
  | verifier (r : FetchReply VerifierBody) : SameChoice E (.verifier r) (.verifier r)
  | daLayer (r : FetchReply DaLayerBody) : SameChoice E (.daLayer r) (.daLayer r)

/-- Two entries of `GET /pending`. -/
def SamePending (p p' : PendingEntry) : Prop :=
  ∃ k, p' = { p with commitment := k } ∧ SameKey c c' p.commitment k

/-- Two replies that are the same up to the renaming. -/
inductive SameReply : PublicReply → PublicReply → Prop
  | error (code : Nat) (message : Str) : SameReply (.error code message) (.error code message)
  | status (state : JobState) (roundId : Option Int) (flareTxHash : Option Hex)
      (executionAllowedAt : Option Int) {e e' : Option Str} (h : Option.Rel (SameText c c') e e') :
      SameReply (.status state roundId flareTxHash executionAllowedAt e)
        (.status state roundId flareTxHash executionAllowedAt e')
  | pending {ps ps' : List PendingEntry} (h : List.Forall₂ (SamePending c c') ps ps') :
      SameReply (.pending ps) (.pending ps')

/-- The names a directory lists. -/
def SameListed (f f' : Str) : Prop :=
  SameKey (PendingStore.fileName c ++ PendingStore.jsonSuffix)
    (PendingStore.fileName c' ++ PendingStore.jsonSuffix) f f'

def isRegister : ExecutorService.Label → Bool
  | .register _ => true
  | _ => false

/-- Two tasks. -/
inductive SameLabel : Views.Label → Views.Label → Prop
  | register {body body' : Json} (h : SameBody o c c' body body') :
      SameLabel (.service (.register body)) (.service (.register body'))
  | service {l : ExecutorService.Label} (h : isRegister l = false) :
      SameLabel (.service l) (.service l)
  | status (tx : Option Str) : SameLabel (.status tx) (.status tx)
  | pending {files files' : Option (List Str)}
      (h : Option.Rel (List.Forall₂ (SameListed c c')) files files') :
      SameLabel (.pending files) (.pending files')
  | replied {reply reply' : PublicReply} (h : SameReply c c' reply reply') :
      SameLabel (.replied reply) (.replied reply')

inductive SameExt : ExecutorService.Ext → ExecutorService.Ext → Prop
  | clock (now : Int) : SameExt (.clock now) (.clock now)
  | validated {entry entry' : AccountTxEntry} (h : SameTxEntry c c' entry entry') :
      SameExt (.validated entry) (.validated entry')

/-- What corresponds in the two runs, with rejections in `E`. -/
def likeness (E : JsError → JsError → Prop) : Likeness.Of (Views.machine o) where
  mem := SameMemory c c'
  op := SameOp c c'
  res := SameRes o c c'
  err := SameError c c'
  world := SameOutside c c'
  label := SameLabel o c c'
  choice := SameChoice o c c' E
  ext := SameExt c c'

/-- Whatever the two runs are told of a rejected call. -/
def anyRejection (_ _ : JsError) : Prop := True

/-- Two programs of the two runs. -/
abbrev Same {α α' : Type} (R : α → α' → Prop) (p : Prog α) (p' : Prog α') : Prop :=
  Twin (likeness o c c' (SameError c c')).toLikeness (SameError c c') R p p'

end Runs

/-! ## 3. Errors, memories and files -/

section Basics

variable {o : Options} {c c' : Hex}

theorem SameError.refl (e : JsError) : SameError c c' e e := ⟨.inl rfl, rfl, rfl⟩

theorem SameJob.refl (j : Job) : SameJob c c' j j := by
  refine ⟨j.userOpData, j.lastError, rfl, ?_⟩
  cases j.lastError with
  | none => exact .none
  | some e => exact .some (.inl rfl)

/-- A computation on data that are the same. -/
theorem twin_liftEq {α : Type} (x : Except JsError α) :
    Same o c c' Eq (.lift x) (.lift x) := by
  refine twin_lift ?_
  cases x with
  | ok a => exact .ok rfl
  | error e => exact .error (SameError.refl e)

/-- A part of the memory that is the same. -/
theorem twin_getsEq {α : Type} {f : Memory → α}
    (hf : ∀ (m : Memory) memory heap, f { m with memory := memory, heap := heap } = f m) :
    Same o c c' Eq (Prog.gets (S := sig) f) (Prog.gets (S := sig) f) := by
  refine twin_gets fun m m' hm => ?_
  obtain ⟨memory, heap, rfl, -, -⟩ := hm
  exact (hf m memory heap).symm

/-- An update of such a part. -/
theorem twin_modifyEq {f : Memory → Memory}
    (hf : ∀ (m : Memory) memory heap, f { m with memory := memory, heap := heap } =
      { f m with memory := memory, heap := heap })
    (hmem : ∀ m, (f m).memory = m.memory) (hheap : ∀ m, (f m).heap = m.heap) :
    Same o c c' (fun _ _ => True) (Prog.modify (S := sig) f) (Prog.modify (S := sig) f) := by
  refine twin_modify (fun m m' hm => ?_) trivial
  obtain ⟨memory, heap, rfl, hmemory, hheap'⟩ := hm
  refine ⟨memory, heap, hf m memory heap, ?_, ?_⟩
  · rw [hmem m]
    exact hmemory
  · rw [hheap m]
    exact hheap'

theorem twin_op {op op' : Op} (h : SameOp c c' op op') :
    Same o c c' (SameRes o c c' op op') (Prog.call (S := sig) op) (Prog.call (S := sig) op') :=
  twin_call h fun _ _ he => he

/-- Await an operation whose arguments and results are the same. -/
theorem twin_callEq (op : Op) (hop : carries op = false)
    (hres : ∀ r r', SameRes o c c' op op r r' → r = r') :
    Same o c c' Eq (Prog.call (S := sig) op) (Prog.call (S := sig) op) :=
  twin_mono (twin_op (.other hop)) (fun _ _ he => he) hres

theorem twin_remember {k k' : Hex} {r r' : PendingUserOp} (hk : SameKey c c' k k')
    (hr : SameRecord c c' r r') :
    Same o c c' (fun _ _ => True) (Prog.modify (S := sig) (Memory.remember k r))
      (Prog.modify (S := sig) (Memory.remember k' r')) := by
  refine twin_modify (fun m m' hm => ?_) trivial
  obtain ⟨memory, heap, rfl, hmemory, hheap⟩ := hm
  exact ⟨memory.set k' r', heap, rfl, hmemory.set (sameKey_biUnique c c') hk hr, hheap⟩

theorem twin_updateJob (r : Ref) {f f' : Job → Job}
    (hf : ∀ j j', SameJob c c' j j' → SameJob c c' (f j) (f' j')) :
    Same o c c' (fun _ _ => True) (Prog.modify (S := sig) (Memory.updateJob r f))
      (Prog.modify (S := sig) (Memory.updateJob r f')) := by
  refine twin_modify (fun m m' hm => ?_) trivial
  obtain ⟨memory, heap, rfl, hmemory, hheap⟩ := hm
  exact ⟨memory, heap.modify r f', rfl, hmemory, List.forall₂_modify hf hheap r⟩

theorem twin_deref (r : Ref) : Same o c c' (SameJob c c') (deref r) (deref r) := by
  unfold deref
  refine twin_bind (R := Option.Rel (SameJob c c')) (twin_gets fun m m' hm => ?_) fun x x' hx => ?_
  · obtain ⟨memory, heap, rfl, -, hheap⟩ := hm
    exact List.forall₂_getElem? hheap r
  · cases hx with
    | none => exact .throw (SameError.refl _)
    | some hj => exact .ret hj

theorem twin_newJob {j j' : Job} (hj : SameJob c c' j j') :
    Same o c c' Eq (newJob j) (newJob j') := by
  unfold newJob
  refine twin_bind (R := Eq) (twin_gets fun m m' hm => ?_) fun r r' hr => ?_
  · obtain ⟨memory, heap, rfl, -, hheap⟩ := hm
    exact hheap.length_eq
  · subst hr
    refine twin_bind (R := fun _ _ => True) (twin_modify (fun m m' hm => ?_) trivial) fun _ _ _ =>
      twin_pure rfl
    obtain ⟨memory, heap, rfl, hmemory, hheap⟩ := hm
    exact ⟨memory, heap ++ [j'], rfl, hmemory, List.rel_append hheap (.cons hj .nil)⟩

theorem twin_parse {α : Type} {R : α → α → Prop} {stored : α → α}
    (hstored : ∀ a a', R a a' → R (stored a) (stored a')) {t t' : Text α} (h : SameFile R t t') :
    Same o c c' R (Prog.lift (S := sig) (t.parse stored))
      (Prog.lift (S := sig) (t'.parse stored)) := by
  cases h with
  | whole h => exact .ret (hstored _ _ h)
  | torn => exact .throw (SameError.refl _)

end Basics

/-! ## 4. The pipeline -/

section Pipeline

variable {o : Options} {c c' : Hex}

theorem twin_load (id : Str) : Same o c c' Eq (load id) (load id) := by
  unfold load
  refine twin_tryCatch (E := SameError c c') ?_ fun _ _ _ => twin_pure rfl
  have hread : SameOp c c' (.readJob id) (.readJob id) := .other rfl
  refine twin_bind (twin_op hread) fun raw raw' hraw => ?_
  refine twin_bind (twin_parse SameJob.stored hraw) fun j j' hj => ?_
  refine twin_bind (twin_newJob hj) fun r r' hr => ?_
  subst hr
  exact twin_pure rfl

/-- An update that does not look at the bytes or at the last error, and keeps them. -/
theorem sameJob_update {f : Job → Job}
    (hf : ∀ (j : Job) u e, f { j with userOpData := u, lastError := e } =
      { f j with userOpData := u, lastError := e })
    (hkeep : ∀ j, (f j).lastError = j.lastError) (j j' : Job) (h : SameJob c c' j j') :
    SameJob c c' (f j) (f j') := by
  obtain ⟨u, e, rfl, he⟩ := h
  refine ⟨u, e, hf j u e, ?_⟩
  rw [hkeep]
  exact he

theorem twin_save (r : Ref) : Same o c c' (fun _ _ => True) (save r) (save r) := by
  unfold save
  refine twin_bind (twin_getsEq fun _ _ _ => rfl) fun now now' hnow => ?_
  subst hnow
  refine twin_bind (twin_updateJob r (sameJob_update (fun _ _ _ => rfl) fun _ => rfl))
    fun _ _ _ => ?_
  refine twin_bind (twin_deref r) fun j j' hj => ?_
  refine twin_bind (twin_callEq .mkdirState rfl fun _ _ _ => rfl) fun _ _ _ => ?_
  refine twin_bind (twin_deref r) fun text text' htext => ?_
  obtain ⟨u, e, rfl, -⟩ := hj
  exact twin_mono (twin_op (.writeJob j.id htext)) (fun _ _ he => he) fun _ _ _ => trivial

theorem twin_create {params params' : CreateParams}
    (h : ∃ u, params' = { params with userOpData := u }) :
    Same o c c' Eq (create params) (create params') := by
  obtain ⟨u, rfl⟩ := h
  unfold create
  refine twin_bind (twin_liftEq _) fun xrplTxId xrplTxId' hid => ?_
  subst hid
  refine twin_bind (twin_load _) fun x x' hx => ?_
  subst hx
  cases x with
  | some existing => exact twin_pure rfl
  | none =>
    refine twin_bind (twin_getsEq fun _ _ _ => rfl) fun now now' hnow => ?_
    subst hnow
    refine twin_bind (twin_newJob ⟨u, none, rfl, .none⟩) fun r r' hr => ?_
    subst hr
    exact twin_bind (twin_save r) fun _ _ _ => twin_pure rfl

theorem twin_resolve (name : Str) :
    Same o c c' Eq (FdcClient.resolve name) (FdcClient.resolve name) := by
  unfold FdcClient.resolve
  refine twin_bind (twin_getsEq fun _ _ _ => rfl) fun cached cached' hcached => ?_
  subst hcached
  cases cached with
  | some address => exact twin_pure rfl
  | none =>
    refine twin_bind (twin_callEq _ rfl fun _ _ h => eq_of_heq h) fun a a' ha => ?_
    subst ha
    refine twin_bind (twin_modifyEq (f := FdcClient.cacheAddress name a) (fun _ _ _ => rfl)
      (fun _ => rfl) fun _ => rfl) fun _ _ _ => twin_pure rfl

theorem twin_prepareRequest (xrplTransactionId : Hex) (proofOwner : Address) :
    Same o c c' Eq (FdcClient.prepareRequest xrplTransactionId proofOwner)
      (FdcClient.prepareRequest xrplTransactionId proofOwner) := by
  unfold FdcClient.prepareRequest
  refine twin_bind (twin_callEq _ rfl fun _ _ h => eq_of_heq h) fun res res' hres => ?_
  subst hres
  exact twin_liftEq _

theorem twin_submitRequest (job : Str) (request : Option Hex) :
    Same o c c' Eq (FdcClient.submitRequest job request)
      (FdcClient.submitRequest job request) := by
  unfold FdcClient.submitRequest
  refine twin_bind (twin_resolve _) fun fdcHub _ h => ?_
  subst h
  refine twin_bind (twin_callEq _ rfl fun _ _ h => eq_of_heq h) fun feeConfig _ h => ?_
  subst h
  refine twin_bind (twin_callEq _ rfl fun _ _ h => eq_of_heq h) fun fee _ h => ?_
  subst h
  refine twin_bind (twin_callEq _ rfl fun _ _ h => eq_of_heq h) fun txHash _ h => ?_
  subst h
  refine twin_bind (twin_callEq _ rfl fun _ _ h => eq_of_heq h) fun receipt _ h => ?_
  subst h
  refine twin_bind (twin_callEq _ rfl fun _ _ h => eq_of_heq h) fun timestamp _ h => ?_
  subst h
  refine twin_bind (twin_resolve _) fun fsm _ h => ?_
  subst h
  refine twin_bind (twin_callEq _ rfl fun _ _ h => eq_of_heq h) fun firstTs _ h => ?_
  subst h
  refine twin_bind (twin_callEq _ rfl fun _ _ h => eq_of_heq h) fun duration _ h => ?_
  subst h
  exact twin_liftEq _

theorem twin_isRoundFinalized (roundId : Option Int) :
    Same o c c' Eq (FdcClient.isRoundFinalized roundId)
      (FdcClient.isRoundFinalized roundId) := by
  unfold FdcClient.isRoundFinalized
  refine twin_bind (twin_resolve _) fun relay _ h => ?_
  subst h
  refine twin_bind (twin_resolve _) fun fdcVerification _ h => ?_
  subst h
  refine twin_bind (twin_callEq _ rfl fun _ _ h => eq_of_heq h) fun protocolId _ h => ?_
  subst h
  refine twin_bind (twin_liftEq _) fun round _ h => ?_
  subst h
  exact twin_callEq (.isFinalized relay protocolId round) rfl fun _ _ h => eq_of_heq h

theorem twin_fetchProof (request : Option Hex) (roundId : Option Int) :
    Same o c c' Eq (FdcClient.fetchProof o request roundId)
      (FdcClient.fetchProof o request roundId) := by
  unfold FdcClient.fetchProof
  refine twin_bind (twin_callEq (.proofByRequestRound roundId request) rfl
    fun _ _ h => eq_of_heq h) fun res _ h => ?_
  subst h
  exact twin_liftEq _

/-- The update at the end of a state that went through. -/
theorem twin_moved {r : Ref} {f : Job → Job}
    (hf : ∀ (j : Job) u e, f { j with userOpData := u, lastError := e } =
      { f j with userOpData := u, lastError := e })
    (hkeep : ∀ j, (f j).lastError = j.lastError) :
    Same o c c' Eq
      (do Prog.modify (S := sig) (Memory.updateJob r f); return Flow.save)
      (do Prog.modify (S := sig) (Memory.updateJob r f); return Flow.save) :=
  twin_bind (twin_updateJob r (sameJob_update hf hkeep)) fun _ _ _ => twin_pure rfl

theorem twin_caseProofFetched (r : Ref) {j j' : Job} (hj : SameJob c c' j j') :
    Same o c c' Eq (caseProofFetched o r j) (caseProofFetched o r j') := by
  obtain ⟨u, e, rfl, -⟩ := hj
  unfold caseProofFetched
  refine twin_bind (twin_fetchProof _ _) fun proof _ h => ?_
  subst h
  refine twin_bind (twin_deref r) fun k k' hk => ?_
  obtain ⟨v, e', rfl, -⟩ := hk
  -- the call is the one operation that the bytes go into
  have hcall : Same o c c' Eq
      (Prog.call (S := sig) (.executeDirectMintingWithData k.xrplTxId o.assetManager proof
        k.userOpData k.totalCallValue))
      (Prog.call (S := sig) (.executeDirectMintingWithData k.xrplTxId o.assetManager proof
        v k.totalCallValue)) :=
    twin_mono (twin_op (.execute _ _ _ _ _ _)) (fun _ _ he => he) fun _ _ h => eq_of_heq h
  refine twin_bind hcall fun hash _ h => ?_
  subst h
  refine twin_bind (twin_updateJob r (sameJob_update (fun _ _ _ => rfl) fun _ => rfl))
    fun _ _ _ => ?_
  refine twin_bind (twin_callEq _ rfl fun _ _ h => eq_of_heq h) fun receipt _ h => ?_
  subst h
  split
  case isTrue => exact twin_liftEq _
  case isFalse =>
    split
    case h_1 delay _ =>
      refine twin_bind (twin_updateJob r (sameJob_update (fun _ _ _ => rfl) fun _ => rfl))
        fun _ _ _ => ?_
      exact twin_bind (twin_liftEq _) fun _ _ _ => twin_pure rfl
    case h_2 => exact twin_moved (fun _ _ _ => rfl) fun _ => rfl

/-- Every state of the switch goes through the same steps. -/
theorem twin_switch (r : Ref) {j j' : Job} (hj : SameJob c c' j j') :
    Same o c c' Eq (switch o r j) (switch o r j') := by
  have hproof := twin_caseProofFetched (o := o) r hj
  obtain ⟨u, e, rfl, -⟩ := hj
  unfold switch
  dsimp only
  cases j.state with
  | observed =>
    refine twin_bind (twin_prepareRequest _ _) fun request _ h => ?_
    subst h
    exact twin_moved (fun _ _ _ => rfl) fun _ => rfl
  | request_prepared =>
    refine twin_bind (twin_submitRequest _ _) fun roundId _ h => ?_
    subst h
    exact twin_moved (fun _ _ _ => rfl) fun _ => rfl
  | request_submitted =>
    refine twin_bind (twin_isRoundFinalized _) fun finalized _ h => ?_
    subst h
    cases finalized with
    | false => exact twin_pure rfl
    | true => exact twin_moved (fun _ _ _ => rfl) fun _ => rfl
  | round_finalized =>
    refine twin_bind (twin_fetchProof _ _) fun _ _ _ => ?_
    exact twin_moved (fun _ _ _ => rfl) fun _ => rfl
  | delayed =>
    refine twin_bind (twin_getsEq fun _ _ _ => rfl) fun now _ h => ?_
    subst h
    have hdelayed : stillDelayed { j with state := .delayed, userOpData := u, lastError := e } now =
      stillDelayed j now := rfl
    rw [hdelayed]
    split
    case isTrue => exact twin_pure rfl
    case isFalse => exact twin_moved (fun _ _ _ => rfl) fun _ => rfl
  | proof_fetched => exact hproof
  | executed => exact twin_pure rfl
  | failed => exact twin_pure rfl

theorem twin_tryBlock (r : Ref) :
    Same o c c' Eq (tryBlock o r) (tryBlock o r) := by
  unfold tryBlock
  refine twin_bind (twin_deref r) fun j j' hj => ?_
  refine twin_bind (twin_switch r hj) fun flow _ h => ?_
  subst h
  cases flow with
  | returned => exact twin_pure rfl
  | save =>
    refine twin_bind (twin_updateJob r fun k k' hk => ?_) fun _ _ _ => twin_pure rfl
    obtain ⟨u, e, rfl, -⟩ := hk
    exact ⟨u, none, rfl, .none⟩

theorem twin_lostRace (r : Ref) {e e' : JsError} (he : SameError c c' e e') :
    Same o c c' Eq (lostRace r e) (lostRace r e') := by
  unfold lostRace
  refine twin_bind (twin_deref r) fun j j' hj => ?_
  obtain ⟨u, err, rfl, -⟩ := hj
  rw [he.confirmed]
  dsimp only
  split
  case isTrue =>
    exact twin_tryCatch (twin_callEq (.isTransactionIdUsed j.xrplTxId) rfl fun _ _ h => eq_of_heq h)
      fun _ _ _ => twin_pure rfl
  case isFalse => exact twin_pure rfl

/-- The text of the error goes into the job, and nothing else of it. -/
theorem sameJob_countAttempt {e e' : JsError} (he : SameError c c' e e') (j j' : Job)
    (hj : SameJob c c' j j') : SameJob c c' (countAttempt e j) (countAttempt e' j') := by
  obtain ⟨u, err, rfl, -⟩ := hj
  refine ⟨u, some e'.message, ?_, .some he.message⟩
  unfold countAttempt
  rw [he.retryable]

theorem twin_catchBlock (r : Ref) {e e' : JsError} (he : SameError c c' e e') :
    Same o c c' Eq (catchBlock r e) (catchBlock r e') := by
  unfold catchBlock
  refine twin_bind (twin_lostRace r he) fun b _ h => ?_
  subst h
  split
  case isTrue =>
    refine twin_bind (twin_updateJob r fun k k' hk => ?_) fun _ _ _ => ?_
    · obtain ⟨u, err, rfl, -⟩ := hk
      exact ⟨u, none, rfl, .none⟩
    · exact twin_bind (twin_save r) fun _ _ _ => twin_pure rfl
  case isFalse =>
    exact twin_bind (twin_updateJob r (sameJob_countAttempt he)) fun _ _ _ => twin_pure rfl

theorem twin_step (r : Ref) : Same o c c' (fun _ _ => True) (step o r) (step o r) := by
  unfold step
  refine twin_bind (twin_tryCatch (twin_tryBlock r) fun e e' he => twin_catchBlock r he)
    fun flow _ h => ?_
  subst h
  cases flow with
  | returned => exact twin_pure trivial
  | save => exact twin_save r

end Pipeline

/-! ## 5. The store and the watcher -/

section Store

variable {o : Options} {c c' : Hex}

/-- Different commitments have different files. -/
theorem fileName_injective {n : Nat} {k k' : Hex} (hk : IsLowerHex n k) (hk' : IsLowerHex n k')
    (h : PendingStore.fileName k = PendingStore.fileName k') : k = k' := by
  obtain ⟨bs, -, rfl⟩ := hk
  obtain ⟨bs', -, rfl⟩ := hk'
  exact congrArg (hexPrefix ++ ·) h

theorem sameName_fileName (hc : IsLowerHex 32 c) (hc' : IsLowerHex 32 c') {k k' : Hex}
    (hk : IsLowerHex 32 k) (h : SameKey c c' k k') :
    SameName c c' (PendingStore.fileName k) (PendingStore.fileName k') := by
  cases h with
  | named => exact .named
  | other hne hne' =>
    exact .other (fun heq => hne (fileName_injective hk hc heq))
      fun heq => hne' (fileName_injective hk hc' heq)

theorem twin_readRecord (hc : IsLowerHex 32 c) (hc' : IsLowerHex 32 c') {k k' : Hex}
    (hk : IsLowerHex 32 k) (hk' : IsLowerHex 32 k') (h : SameKey c c' k k') :
    Same o c c' (Option.Rel (SameRecord c c')) (PendingStore.readRecord k)
      (PendingStore.readRecord k') := by
  unfold PendingStore.readRecord
  rw [hk.toLowerCase_eq, hk'.toLowerCase_eq]
  refine twin_bind (twin_op (.readPending (sameName_fileName hc hc' hk h))) fun raw raw' hraw => ?_
  refine twin_bind (twin_parse SameRecord.stored hraw) fun r r' hr => ?_
  exact twin_bind (twin_remember h hr) fun _ _ _ => twin_pure (.some hr)

theorem twin_get (hc : IsLowerHex 32 c) (hc' : IsLowerHex 32 c') {k k' : Hex}
    (hk : IsLowerHex 32 k) (hk' : IsLowerHex 32 k') (h : SameKey c c' k k') :
    Same o c c' (Option.Rel (SameRecord c c')) (PendingStore.get k) (PendingStore.get k') := by
  unfold PendingStore.get
  rw [hk.toLowerCase_eq, hk'.toLowerCase_eq]
  refine twin_bind (R := Option.Rel (SameRecord c c')) (twin_gets fun m m' hm => ?_)
    fun x x' hx => ?_
  · obtain ⟨memory, heap, rfl, hmemory, -⟩ := hm
    exact hmemory.get? (sameKey_biUnique c c') h
  · cases hx with
    | some hr => exact twin_pure (.some hr)
    | none =>
      exact twin_tryCatch (twin_readRecord hc hc' hk hk' h) fun _ _ _ => twin_pure .none

/-- Two programs nobody catches the errors of. -/
abbrev SameTask (o : Options) (c c' : Hex) {α α' : Type} (R : α → α' → Prop) (p : Prog α)
    (p' : Prog α') : Prop :=
  Twin (likeness o c c' (SameError c c')).toLikeness anyError R p p'

theorem Same.task {α α' : Type} {R : α → α' → Prop} {p : Prog α} {p' : Prog α'}
    (h : Same o c c' R p p') : SameTask o c c' (fun _ _ => True) p p' :=
  twin_mono h (fun _ _ _ => trivial) fun _ _ _ => trivial

/-- `register` is `verify`, and then the record is put away. -/
theorem register_eq (entry : Entry) : PendingStore.register o entry = (do
    let (userOpData, commitment) ← Prog.lift (S := sig) (verify o entry)
    let now ← Prog.gets (S := sig) Memory.now
    let record := entry.record userOpData commitment now
    Prog.modify (S := sig) (Memory.remember (toLowerCase commitment) record)
    Prog.call (S := sig) .mkdirPending
    Prog.call (S := sig) (.writePending (PendingStore.fileName commitment) record)
    return commitment) := by
  unfold PendingStore.register verify
  cases keccak256 o.viem entry.userOpData with
  | error e => rfl
  | ok p =>
    cases hcheck : checkCommitment entry.commitment p.2 with
    | error e =>
      simp only [Prog.lift, Except.bind, bind, Prog.bind, hcheck]
    | ok _ =>
      simp only [Prog.lift, Except.bind, bind, Prog.bind, hcheck, pure, Except.pure]

/-- What `verify` returns is a commitment. -/
theorem verify_shape (hviem : o.viem.Lawful) {entry : Entry} {p : Str × Hex}
    (h : verify o entry = .ok p) : IsLowerHex 32 p.2 := by
  unfold verify at h
  cases hk : keccak256 o.viem entry.userOpData with
  | error e =>
    rw [hk] at h
    cases h
  | ok q =>
    rw [hk] at h
    cases hcheck : checkCommitment entry.commitment q.2 with
    | error e =>
      simp only [bind, Except.bind, hcheck] at h
      cases h
    | ok _ =>
      simp only [bind, Except.bind, hcheck, pure, Except.pure, Except.ok.injEq] at h
      subst h
      unfold keccak256 at hk
      split at hk
      case h_2 => cases hk
      case h_1 data _ =>
        cases hdata : o.viem.keccak256 data with
        | error e =>
          rw [hdata] at hk
          cases hk
        | ok commitment =>
          rw [hdata] at hk
          cases hk
          exact hviem.keccak256_shape _ _ hdata

theorem twin_register (hviem : o.viem.Lawful) (hc : IsLowerHex 32 c) (hc' : IsLowerHex 32 c')
    {entry entry' : Entry} (h : SameEntry o c c' entry entry') :
    SameTask o c c' (fun _ _ => True) (PendingStore.register o entry)
      (PendingStore.register o entry') := by
  obtain ⟨hverified, u, k, rfl⟩ := h
  rw [register_eq, register_eq]
  generalize hp : verify o entry = x at hverified
  generalize hp' : verify o { entry with userOpData := u, commitment := k } = x' at hverified
  cases hverified with
  | error => exact .throw trivial
  | @ok p p' hkey =>
    obtain ⟨b, commitment⟩ := p
    obtain ⟨b', commitment'⟩ := p'
    have hshape := verify_shape hviem hp
    have hshape' := verify_shape hviem hp'
    refine Same.task (R := fun _ _ => True) ?_
    dsimp only [Prog.lift]
    refine twin_bind (R := fun q q' => q = (b, commitment) ∧ q' = (b', commitment'))
      (twin_pure ⟨rfl, rfl⟩) fun q q' hq => ?_
    obtain ⟨rfl, rfl⟩ := hq
    dsimp only at hkey hshape hshape' ⊢
    rw [hshape.toLowerCase_eq, hshape'.toLowerCase_eq]
    refine twin_bind (twin_getsEq fun _ _ _ => rfl) fun now _ h => ?_
    subst h
    have hrecord : SameRecord c c' (entry.record b commitment now)
        (Entry.record { entry with userOpData := u, commitment := k } b' commitment' now) :=
      ⟨commitment', b', rfl, hkey⟩
    refine twin_bind (twin_remember hkey hrecord) fun _ _ _ => ?_
    refine twin_bind (twin_callEq .mkdirPending rfl fun _ _ _ => rfl) fun _ _ _ => ?_
    refine twin_bind (twin_op (.writePending (sameName_fileName hc hc' hshape hkey) hrecord))
      fun _ _ _ => twin_pure trivial

/-- The loop looks at the commitment and at nothing else of the memos. -/
theorem twin_pollEntry (hc : IsLowerHex 32 c) (hc' : IsLowerHex 32 c') {e e' : AccountTxEntry}
    (h : SameTxEntry c c' e e') :
    Same o c c' (Option.Rel (SameObserved c c')) (Watcher.pollEntry e) (Watcher.pollEntry e') := by
  obtain ⟨tx_json, tx, rfl, hjson, htx⟩ := h
  have horElse : Option.Rel (SameTx c c') (e.tx_json.orElse fun _ => e.tx)
      (tx_json.orElse fun _ => tx) := by
    generalize e.tx_json = json at hjson
    cases hjson with
    | none => exact htx
    | some h => exact .some h
  unfold Watcher.pollEntry
  dsimp only
  split
  case isTrue => exact twin_pure .none
  generalize e.tx_json.orElse (fun _ => e.tx) = t at horElse
  generalize tx_json.orElse (fun _ => tx) = t' at horElse
  cases horElse with
  | none => exact twin_pure .none
  | @some t t' hsame =>
    obtain ⟨memos, rfl, hcommitment⟩ := hsame
    dsimp only
    split
    case isTrue => exact twin_pure .none
    refine twin_bind (twin_modifyEq (fun _ _ _ => rfl) (fun _ => rfl) fun _ => rfl) fun _ _ _ => ?_
    refine twin_bind (twin_getsEq fun _ _ _ => rfl) fun seen _ h => ?_
    subst h
    split
    case isTrue => exact twin_pure .none
    generalize hk : commitmentFromMemos t = k at hcommitment
    generalize hk' : commitmentFromMemos { t with memos := memos } = k' at hcommitment
    cases hcommitment with
    | none => exact twin_pure .none
    | @some k k' hkey =>
      have hshape := commitmentFromMemos_shape hk
      have hshape' := commitmentFromMemos_shape hk'
      refine twin_bind (twin_get hc hc' hshape hshape' hkey) fun x x' hx => ?_
      cases hx with
      | none => exact twin_pure .none
      | @some r r' hr =>
        obtain ⟨l, u, rfl, -⟩ := hr
        dsimp only
        split
        case h_2 => exact twin_pure .none
        case h_1 =>
          refine twin_bind (twin_modifyEq (fun _ _ _ => rfl) (fun _ => rfl) fun _ => rfl)
            fun _ _ _ => ?_
          refine twin_bind (twin_liftEq _) fun _ _ _ => twin_pure (.some ?_)
          exact ⟨k', rfl, hkey, hshape, hshape'⟩

theorem twin_pollLoop (hc : IsLowerHex 32 c) (hc' : IsLowerHex 32 c') {es es' : List AccountTxEntry}
    (h : List.Forall₂ (SameTxEntry c c') es es') :
    Same o c c' (List.Forall₂ (SameObserved c c')) (Watcher.pollLoop es) (Watcher.pollLoop es') := by
  induction h with
  | nil => exact twin_pure .nil
  | cons he _ ih =>
    refine twin_bind (twin_pollEntry hc hc' he) fun p p' hp => ?_
    refine twin_bind ih fun found found' hfound => twin_pure ?_
    cases hp with
    | none => exact hfound
    | some hp => exact .cons hp hfound

theorem twin_poll (hc : IsLowerHex 32 c) (hc' : IsLowerHex 32 c') :
    Same o c c' (List.Forall₂ (SameObserved c c')) (Watcher.poll o) (Watcher.poll o) := by
  unfold Watcher.poll XrplHttpClient.accountTx
  refine twin_bind (twin_getsEq fun _ _ _ => rfl) fun lastLedger _ h => ?_
  subst h
  have haccountTx : SameOp c c' (.accountTx o.coreVaultAddress 30 (Watcher.ledgerIndexMin lastLedger))
      (.accountTx o.coreVaultAddress 30 (Watcher.ledgerIndexMin lastLedger)) := .other rfl
  refine twin_bind (R := Option.Rel (List.Forall₂ (SameTxEntry c c')))
    (twin_bind (twin_op haccountTx) fun body body' hbody => twin_lift ?_) fun page page' hpage => ?_
  · cases hbody with
    | httpError => exact .error (SameError.refl _)
    | missingResult => exact .error (SameError.refl _)
    | failed => exact .error (SameError.refl _)
    | result h => exact .ok h
  · cases hpage with
    | none => exact twin_pure .nil
    | some h => exact twin_pollLoop hc hc' h

end Store

/-! ## 6. The service and its views -/

section Service

variable {o : Options} {c c' : Hex}

theorem twin_start : Same o c c' (fun _ _ => True) ExecutorService.start ExecutorService.start := by
  unfold ExecutorService.start XrplHttpClient.currentLedger
  refine twin_bind (R := Eq) (twin_bind (twin_callEq .ledgerCurrent rfl fun _ _ h => eq_of_heq h)
    fun body _ h => ?_) fun startLedger _ h => ?_
  · subst h
    exact twin_liftEq _
  · subst h
    refine twin_bind (twin_modifyEq (f := Watcher.setStartLedger startLedger) (fun _ _ _ => rfl)
      (fun _ => rfl) fun _ => rfl) fun _ _ _ => ?_
    exact twin_modifyEq (fun _ _ _ => rfl) (fun _ => rfl) fun _ => rfl

theorem twin_createOne (hc : IsLowerHex 32 c) (hc' : IsLowerHex 32 c') {p p' : ObservedPayment}
    (h : SameObserved c c' p p') :
    Same o c c' (fun _ _ => True) (ExecutorService.createOne p) (ExecutorService.createOne p') := by
  obtain ⟨k', rfl, hkey, hshape, hshape'⟩ := h
  unfold ExecutorService.createOne
  refine twin_bind (twin_getsEq fun _ _ _ => rfl) fun live _ h => ?_
  subst h
  split
  case isTrue => exact twin_pure trivial
  refine twin_bind (twin_get hc hc' hshape hshape' hkey) fun x x' hx => ?_
  cases hx with
  | none => exact twin_pure trivial
  | @some r r' hr =>
    obtain ⟨l, u, rfl, -⟩ := hr
    refine twin_bind (twin_liftEq _) fun totalCallValue _ h => ?_
    subst h
    refine twin_bind (twin_liftEq _) fun nonce _ h => ?_
    subst h
    refine twin_bind (twin_create ⟨u, rfl⟩) fun job _ h => ?_
    subst h
    refine twin_bind (twin_modifyEq (fun _ _ _ => rfl) (fun _ => rfl) fun _ => rfl) fun _ _ _ => ?_
    exact twin_bind (twin_liftEq _) fun _ _ _ => twin_pure trivial

theorem twin_createLoop (hc : IsLowerHex 32 c) (hc' : IsLowerHex 32 c')
    {ps ps' : List ObservedPayment} (h : List.Forall₂ (SameObserved c c') ps ps') :
    Same o c c' (fun _ _ => True) (ExecutorService.createLoop ps)
      (ExecutorService.createLoop ps') := by
  induction h with
  | nil => exact twin_pure trivial
  | cons hp _ ih => exact twin_bind (twin_createOne hc hc' hp) fun _ _ _ => ih

theorem twin_createJobs (hc : IsLowerHex 32 c) (hc' : IsLowerHex 32 c') :
    Same o c c' (fun _ _ => True) (ExecutorService.createJobs o) (ExecutorService.createJobs o) := by
  unfold ExecutorService.createJobs
  refine twin_tryCatch (E := SameError c c') ?_ fun _ _ _ => twin_pure trivial
  exact twin_bind (twin_poll hc hc') fun ps ps' hps => twin_createLoop hc hc' hps

theorem twin_advanceOne (id : Str) (r : Ref) :
    Same o c c' (fun _ _ => True) (ExecutorService.advanceOne o id r)
      (ExecutorService.advanceOne o id r) := by
  unfold ExecutorService.advanceOne
  refine twin_tryCatch (E := SameError c c') ?_ fun _ _ _ => twin_pure trivial
  refine twin_bind (twin_step r) fun _ _ _ => ?_
  refine twin_bind (twin_modifyEq (fun _ _ _ => rfl) (fun _ => rfl) fun _ => rfl) fun _ _ _ => ?_
  refine twin_bind (twin_deref r) fun j j' hj => ?_
  obtain ⟨u, e, rfl, -⟩ := hj
  dsimp only
  split
  case isTrue => exact twin_modifyEq (fun _ _ _ => rfl) (fun _ => rfl) fun _ => rfl
  case isFalse => exact twin_pure trivial

theorem handleRegister_eq {body : Json} (h : body ≠ .null) : ExecutorService.handleRegister o body =
    match ExecutorService.registerEntry body with
    | none => return ⟨400, errorBody "userOpData and personalAccount are required".toList⟩
    | some entry => do
      let commitment ← PendingStore.register o entry
      let _ ← Prog.lift (S := sig) entry.label.text
      return ⟨200, Json.obj [("commitment".toList, .str commitment)]⟩ := by
  unfold ExecutorService.handleRegister
  split
  case h_1 => exact absurd rfl h
  case h_2 => rfl

theorem twin_handleRegister (hviem : o.viem.Lawful) (hc : IsLowerHex 32 c)
    (hc' : IsLowerHex 32 c') {body body' : Json} (h : SameBody o c c' body body') :
    SameTask o c c' (fun _ _ => True) (ExecutorService.handleRegister o body)
      (ExecutorService.handleRegister o body') := by
  by_cases hnull : body = .null
  · rw [hnull, h.null.mpr hnull]
    exact .throw trivial
  · rw [handleRegister_eq hnull, handleRegister_eq fun heq => hnull (h.null.mp heq)]
    have hentry := h.entry
    generalize ExecutorService.registerEntry body = x at hentry
    generalize ExecutorService.registerEntry body' = x' at hentry
    cases hentry with
    | none => exact twin_pure trivial
    | @some e e' he =>
      refine twin_bind (twin_register hviem hc hc' he) fun _ _ _ => ?_
      obtain ⟨-, u, k, rfl⟩ := he
      exact twin_bind (twin_liftEq e.label.text).task fun _ _ _ => twin_pure trivial

theorem twin_handlePrepare (hviem : o.viem.Lawful) (hc : IsLowerHex 32 c)
    (hc' : IsLowerHex 32 c') (body : Json) :
    SameTask o c c' (fun _ _ => True) (ExecutorService.handlePrepare o body)
      (ExecutorService.handlePrepare o body) := by
  unfold ExecutorService.handlePrepare
  split
  case h_1 => exact .throw trivial
  split
  case h_1 => exact twin_pure trivial
  case h_2 xrplAddress _ =>
    have hprepare : SameOp c c' (.prepare xrplAddress) (.prepare xrplAddress) := .other rfl
    refine twin_bind (twin_mono (twin_op hprepare) (fun _ _ _ => trivial) fun _ _ h => h)
      fun p p' hp => ?_
    exact twin_bind (twin_register hviem hc hc' hp) fun _ _ _ => twin_pure trivial

/-- The file a listed name stands for. -/
theorem sameName_listed {f f' : Str} (hjson : PendingStore.jsonSuffix.isSuffixOf f = true)
    (h : SameListed c c' f f') :
    SameName c c' (f.take (f.length - 5)) (f'.take (f'.length - 5)) := by
  have htake : ∀ name : Str, (name ++ PendingStore.jsonSuffix).take
      ((name ++ PendingStore.jsonSuffix).length - 5) = name := by
    intro name
    rw [List.length_append, show PendingStore.jsonSuffix.length = 5 from rfl, Nat.add_sub_cancel,
      List.take_left]
  cases h with
  | named =>
    rw [htake, htake]
    exact .named
  | other hne hne' =>
    obtain ⟨name, rfl⟩ := List.isSuffixOf_iff_suffix.mp hjson
    rw [htake]
    refine .other ?_ ?_
    · rintro rfl
      exact hne rfl
    · rintro rfl
      exact hne' rfl

theorem isSuffixOf_listed {f f' : Str} (h : SameListed c c' f f') :
    PendingStore.jsonSuffix.isSuffixOf f' = PendingStore.jsonSuffix.isSuffixOf f := by
  have hsuffix : ∀ name : Str,
      PendingStore.jsonSuffix.isSuffixOf (name ++ PendingStore.jsonSuffix) = true :=
    fun name => List.isSuffixOf_iff_suffix.mpr (List.suffix_append _ _)
  cases h with
  | named => rw [hsuffix, hsuffix]
  | other => rfl

theorem twin_listLoop {files files' : List Str} (h : List.Forall₂ (SameListed c c') files files') :
    Same o c c' (List.Forall₂ (SameRecord c c')) (PendingStore.listLoop files)
      (PendingStore.listLoop files') := by
  induction h with
  | nil => exact twin_pure .nil
  | @cons f f' files files' hf _ ih =>
    unfold PendingStore.listLoop
    rw [isSuffixOf_listed hf]
    split
    case isTrue => exact ih
    case isFalse hjson =>
      rw [Bool.not_eq_false] at hjson
      refine twin_bind (twin_op (.readPending (sameName_listed hjson hf))) fun raw raw' hraw => ?_
      refine twin_bind (twin_parse SameRecord.stored hraw) fun r r' hr => ?_
      exact twin_bind ih fun out out' hout => twin_pure (.cons hr hout)

theorem twin_list {files files' : Option (List Str)}
    (h : Option.Rel (List.Forall₂ (SameListed c c')) files files') :
    Same o c c' (List.Forall₂ (SameRecord c c')) (PendingStore.list files)
      (PendingStore.list files') := by
  unfold PendingStore.list
  refine twin_tryCatch (E := SameError c c') ?_ fun _ _ _ => twin_pure .nil
  refine twin_bind (R := List.Forall₂ (SameListed c c')) (twin_lift ?_) fun fs fs' hfs => ?_
  · cases h with
    | none => exact .error (SameError.refl _)
    | some h => exact .ok h
  · refine twin_bind (twin_listLoop hfs) fun out out' hout => twin_pure ?_
    refine List.forall₂_mergeSort ?_ hout
    -- the order is that of the times of registration
    rintro a _ ⟨k, u, rfl, -⟩ b _ ⟨l, v, rfl, -⟩
    rfl

theorem twin_handlePending {files files' : Option (List Str)}
    (h : Option.Rel (List.Forall₂ (SameListed c c')) files files') :
    Same o c c' (SameReply c c') (ExecutorService.handlePending files)
      (ExecutorService.handlePending files') := by
  unfold ExecutorService.handlePending
  refine twin_bind (twin_list h) fun ps ps' hps => twin_pure (.pending ?_)
  rw [List.forall₂_map_left_iff, List.forall₂_map_right_iff]
  refine hps.imp ?_
  rintro r _ ⟨k, u, rfl, hk⟩
  exact ⟨k, rfl, hk⟩

theorem twin_handleStatus (tx : Option Str) :
    Same o c c' (SameReply c c') (ExecutorService.handleStatus o tx)
      (ExecutorService.handleStatus o tx) := by
  unfold ExecutorService.handleStatus
  split
  case h_1 => exact twin_pure (.error _ _)
  refine twin_bind (twin_load _) fun x _ h => ?_
  subst h
  cases x with
  | none => exact twin_pure (.error _ _)
  | some r =>
    refine twin_bind (twin_deref r) fun j j' hj => ?_
    obtain ⟨u, e, rfl, he⟩ := hj
    exact twin_pure (.status _ _ _ _ he)

end Service

/-! ## 7. The process -/

section Process

variable {o : Options} {c c' : Hex}

/-- The code of the service, one label after the other. -/
theorem twin_serviceCode (hc : IsLowerHex 32 c) (hc' : IsLowerHex 32 c')
    {l : ExecutorService.Label} (hl : isRegister l = false) (hviem : o.viem.Lawful) :
    SameTask o c c' (fun n n' => n = n' ∧ ∀ next, n = some next → isRegister next = false)
      (ExecutorService.code o l) (ExecutorService.code o l) := by
  have hend : ∀ n, n = none ∨ (∃ next, n = some next ∧ isRegister next = false) →
      n = n ∧ ∀ next, n = some next → isRegister next = false := by
    rintro n (rfl | ⟨next, rfl, hnext⟩)
    · exact ⟨rfl, nofun⟩
    · exact ⟨rfl, fun _ h => Option.some.inj h ▸ hnext⟩
  cases l with
  | register body => cases hl
  | prepare body =>
    exact twin_bind (twin_handlePrepare hviem hc hc' body) fun _ _ _ => twin_pure (hend _ (.inl rfl))
  | start => exact twin_bind twin_start.task fun _ _ _ => twin_pure (hend _ (.inl rfl))
  | tick =>
    exact twin_bind (twin_createJobs hc hc').task fun _ _ _ =>
      twin_pure (hend _ (.inr ⟨_, rfl, rfl⟩))
  | advance place =>
    refine twin_bind (R := Eq) (twin_gets fun m m' hm => ?_) fun live _ h => ?_
    · obtain ⟨memory, heap, rfl, -, -⟩ := hm
      rfl
    · subst h
      refine twin_pure (hend _ ?_)
      unfold ExecutorService.walk
      split
      · exact .inl rfl
      · exact .inr ⟨_, rfl, rfl⟩
      · exact .inr ⟨_, rfl, rfl⟩
  | stepping place id job =>
    exact twin_bind (twin_advanceOne id job).task fun _ _ _ =>
      twin_pure (hend _ (.inr ⟨_, rfl, rfl⟩))
  | poll => exact twin_bind (twin_poll hc hc').task fun _ _ _ => twin_pure (hend _ (.inl rfl))
  | load id => exact twin_bind (twin_load id).task fun _ _ _ => twin_pure (hend _ (.inl rfl))
  | step job => exact twin_bind (twin_step job).task fun _ _ _ => twin_pure (hend _ (.inl rfl))

theorem twin_code (hviem : o.viem.Lawful) (hc : IsLowerHex 32 c) (hc' : IsLowerHex 32 c')
    {l l' : Views.Label} (h : SameLabel o c c' l l') :
    SameTask o c c' (Option.Rel (SameLabel o c c')) (Views.code o l) (Views.code o l') := by
  cases h with
  | register h =>
    refine twin_bind (R := fun n n' => n = none ∧ n' = none) ?_ ?_
    · exact twin_bind (twin_handleRegister hviem hc hc' h) fun _ _ _ => twin_pure ⟨rfl, rfl⟩
    · rintro _ _ ⟨rfl, rfl⟩
      exact twin_pure .none
  | service h =>
    refine twin_bind (twin_serviceCode hc hc' h hviem) ?_
    rintro n _ ⟨rfl, hn⟩
    refine twin_pure ?_
    cases n with
    | none => exact .none
    | some next => exact .some (.service (hn next rfl))
  | status tx =>
    refine twin_bind (twin_mono (twin_handleStatus tx) (fun _ _ _ => trivial) fun _ _ h => h)
      fun _ _ h => twin_pure (.some (.replied h))
  | pending h =>
    refine twin_bind (twin_mono (twin_handlePending h) (fun _ _ _ => trivial) fun _ _ h => h)
      fun _ _ h => twin_pure (.some (.replied h))
  | replied h => exact twin_pure .none

theorem sameName_biUnique (c c' : Hex) : Relator.BiUnique (SameName c c') :=
  sameKey_biUnique _ _

theorem rel_written {α : Type} {R : α → α → Prop} (e : Effect) {old old' : Option (Text α)}
    (hold : Option.Rel (SameFile R) old old') {a a' : α} (ha : R a a') :
    Option.Rel (SameFile R) (written e old a) (written e old' a') := by
  cases e with
  | nothing => exact hold
  | torn => exact .some .torn
  | full => exact .some (.whole ha)

/-- A broadcast changes no file. -/
theorem sameOutside_broadcast {op op' : Op} {b b' : Broadcast} (hop : op.broadcast = some b)
    (hop' : op'.broadcast = some b') (e : Effect) {w w' : Outside} (hw : SameOutside c c' w w') :
    SameOutside c c' (effect e w op) (effect e w' op') := by
  rw [effect_broadcast hop, effect_broadcast hop']
  split
  case isTrue => exact ⟨hw.pending, hw.jobs⟩
  case isFalse => exact hw

theorem sameOutside_effect (e : Effect) {op op' : Op} (hop : SameOp c c' op op') {w w' : Outside}
    (hw : SameOutside c c' w w') : SameOutside c c' (effect e w op) (effect e w' op') := by
  cases hop with
  | @writePending name name' r r' hname hr =>
    refine ⟨fun other other' hother => ?_, hw.jobs⟩
    have heq : other = name ↔ other' = name' :=
      Relator.rel_eq (sameName_biUnique c c') hother hname
    simp only [effect_writePending, Function.update_apply]
    by_cases h : other = name
    · rw [if_pos h, if_pos (heq.mp h)]
      exact rel_written e (hw.pending _ _ hname) hr
    · rw [if_neg h, if_neg fun h' => h (heq.mpr h')]
      exact hw.pending _ _ hother
  | readPending => exact hw
  | @writeJob id j j' hj =>
    refine ⟨hw.pending, fun other => ?_⟩
    simp only [effect_writeJob, Function.update_apply]
    split
    case isTrue => exact rel_written e (hw.jobs id) hj
    case isFalse => exact hw.jobs other
  | execute => exact sameOutside_broadcast rfl rfl e hw
  | other h =>
    cases op with
    | requestAttestation => exact sameOutside_broadcast rfl rfl e hw
    | writePending => cases h
    | writeJob => cases h
    | executeDirectMintingWithData => cases h
    | _ => exact hw

theorem readFile_same {α : Type} {R : α → α → Prop} {f f' : Option (Text α)}
    (h : Option.Rel (SameFile R) f f') :
    ExceptRel (SameError c c') (SameFile R) (readFile f) (readFile f') := by
  cases h with
  | none => exact .error (SameError.refl _)
  | some h => exact .ok h

/-- The answer to an operation that reads no file does not depend on the outside. -/
theorem reply_eq {op : Op} (hop : op.readsFile = false) (w w' : Outside) (x : Choice) :
    reply w op x = reply w' op x := by
  cases op with
  | readPending => cases hop
  | readJob => cases hop
  | _ => cases x <;> rfl

/-- The operations whose results are the same. -/
def plain : Op → Bool
  | .readPending _ | .readJob _ | .accountTx _ _ _ | .prepare _ => false
  | _ => true

theorem sameRes_of_plain {op : Op} (hop : plain op = true) (r : Res op) :
    SameRes o c c' op op r r := by
  cases op with
  | readPending => cases hop
  | readJob => cases hop
  | accountTx => cases hop
  | prepare => cases hop
  | _ => exact HEq.rfl

theorem reply_plain {op : Op} (hop : plain op = true) (w w' : Outside) (x : Choice) :
    Option.Rel (ExceptRel (SameError c c') (SameRes o c c' op op)) (reply w op x)
      (reply w' op x) := by
  have hread : op.readsFile = false := by cases op <;> first | rfl | cases hop
  rw [reply_eq hread w w']
  cases reply w' op x with
  | none => exact .none
  | some r =>
    cases r with
    | ok r => exact .some (.ok (sameRes_of_plain hop r))
    | error e => exact .some (.error (SameError.refl e))

theorem sameReply_reply {op op' : Op} (hop : SameOp c c' op op') {x x' : Choice}
    (hx : SameChoice o c c' (SameError c c') x x') {w w' : Outside} (hw : SameOutside c c' w w') :
    Option.Rel (ExceptRel (SameError c c') (SameRes o c c' op op')) (reply w op x)
      (reply w' op' x') := by
  cases hop with
  | writePending hname hr => cases hx <;> first | exact .none | exact .some (.ok HEq.rfl)
  | readPending hname =>
    cases hx <;> first | exact .none | exact .some (readFile_same (hw.pending _ _ hname))
  | writeJob id hj => cases hx <;> first | exact .none | exact .some (.ok HEq.rfl)
  | execute => cases hx <;> first | exact .none | exact .some (.ok HEq.rfl)
  | other h =>
    cases op with
    | readPending => cases h
    | readJob id => cases hx <;> first | exact .none | exact .some (readFile_same (hw.jobs id))
    | accountTx =>
      cases hx with
      | transactions h => exact .some (.ok h)
      | _ => exact .none
    | prepare =>
      cases hx with
      | prepared h => exact .some (.ok h)
      | _ => exact .none
    | _ =>
      cases hx with
      | fail | transactions | prepared => exact .none
      | _ => exact reply_plain rfl w w' _

theorem rel_map {α α' β β' : Type} {R : α → α' → Prop} {Q : β → β' → Prop} {x : Option α}
    {x' : Option α'} (h : Option.Rel R x x') {f : α → β} {f' : α' → β'}
    (hf : ∀ a a', R a a' → Q (f a) (f' a')) : Option.Rel Q (x.map f) (x'.map f') := by
  cases h with
  | none => exact .none
  | some h => exact .some (hf _ _ h)

/-- The two runs agree, step by step, as long as the rejections read alike. -/
theorem sound (hviem : o.viem.Lawful) (hc : IsLowerHex 32 c) (hc' : IsLowerHex 32 c') :
    (likeness o c c' (SameError c c')).Sound where
  code := fun _ _ h => twin_code hviem hc hc' h
  perform := by
    intro op op' x x' w w' hop hx hw
    have heffect := sameOutside_effect .full hop hw
    have hreply : Option.Rel
        (fun y y' => ExceptRel (SameError c c') (SameRes o c c' op op') y.1 y'.1 ∧
          SameOutside c c' y.2 y'.2) ((reply w op x).map fun r => (r, effect .full w op))
        ((reply w' op' x').map fun r => (r, effect .full w' op')) :=
      rel_map (sameReply_reply hop hx hw) fun _ _ h => ⟨h, heffect⟩
    cases hx with
    | fail he part => exact .some ⟨.error he, sameOutside_effect part hop hw⟩
    | _ => exact hreply
  disturb := by
    intro op op' w w' hop hw
    have heffect := sameOutside_effect .torn hop hw
    cases hop with
    | writePending => exact .some heffect
    | writeJob => exact .some heffect
    | readPending => exact .none
    | execute => exact .none
    | other h =>
      cases op with
      | writePending => cases h
      | writeJob => cases h
      | _ => exact .none
  outside := by
    intro x x' m m' w w' hx hm hw
    cases hx with
    | clock now =>
      obtain ⟨memory, heap, rfl, hmemory, hheap⟩ := hm
      exact ⟨⟨memory, heap, rfl, hmemory, hheap⟩, hw⟩
    | validated => exact ⟨hm, hw.pending, hw.jobs⟩
  boot := by
    intro m m' hm
    obtain ⟨memory, heap, rfl, -, -⟩ := hm
    exact ⟨.empty, [], rfl, .nil, .nil⟩

theorem sameSys_fresh (now : Int) : (likeness o c c' (SameError c c')).SameSys
    (Views.Sys.fresh o now) (Views.Sys.fresh o now) where
  mem := ⟨.empty, [], rfl, .nil, .nil⟩
  world := ⟨fun _ _ _ => .none, fun _ => .none⟩
  tasks := .nil

theorem sameReply_label {l l' : Views.Label} (h : SameLabel o c c' l l') :
    Option.Rel (SameReply c c') l.reply l'.reply := by
  cases h with
  | replied h => exact .some h
  | _ => exact .none

/-- Two rejections, if these are two, read alike. -/
def Discreet (c c' : Hex) (e e' : Views.Event o) : Prop :=
  ∀ i x x' part part', e = .perform i (.fail x part) → e' = .perform i (.fail x' part') →
    SameError c c' x x'

theorem sameEvent_discreet {E : JsError → JsError → Prop} {e e' : Views.Event o}
    (h : (likeness o c c' E).SameEvent e e') (hd : Discreet c c' e e') :
    (likeness o c c' (SameError c c')).SameEvent e e' := by
  cases h with
  | spawn h => exact .spawn h
  | perform i h =>
    refine .perform i ?_
    cases h with
    | fail _ part => exact .fail (hd i _ _ part part rfl rfl) part
    | transactions h => exact .transactions h
    | prepared h => exact .prepared h
    | done => exact .done
    | address a => exact .address a
    | nat n => exact .nat n
    | bool b => exact .bool b
    | hex h => exact .hex h
    | receipt r => exact .receipt r
    | ledger r => exact .ledger r
    | verifier r => exact .verifier r
    | daLayer r => exact .daLayer r
  | disturb i => exact .disturb i
  | resume i => exact .resume i
  | outside h => exact .outside h
  | crash => exact .crash

end Process

end Disclosure

/-! ## 8. What is shown -/

/-- In two runs that differ in the bytes of one operation, and in which rejections read alike, the
public views show the same. -/
theorem views_same_of_discreet {o : Options} (hviem : o.viem.Lawful) {userOpData userOpData' : Str}
    {c c' : Hex} (hc : o.viem.keccak256 userOpData = .ok c)
    (hc' : o.viem.keccak256 userOpData' = .ok c') {now : Int} {es es' : List (Views.Event o)}
    (hes : List.Forall₂ (Disclosure.likeness o c c' Disclosure.anyRejection).SameEvent es es')
    (hd : List.Forall₂ (Disclosure.Discreet c c') es es') {s : Views.Sys o}
    (hrun : Sys.run es (Views.Sys.fresh o now) = some s) :
    ∃ s' : Views.Sys o, Sys.run es' (Views.Sys.fresh o now) = some s' ∧
      List.Forall₂ (Disclosure.SameReply c c') s.replies s'.replies := by
  have hsound := Disclosure.sound hviem (hviem.keccak256_shape _ _ hc)
    (hviem.keccak256_shape _ _ hc')
  have hevents : List.Forall₂ (Disclosure.likeness o c c' (Disclosure.SameError c c')).SameEvent
      es es' := by
    clear hrun
    induction hes with
    | nil => exact .nil
    | cons he _ ih =>
      cases hd with
      | cons hd hrest => exact .cons (Disclosure.sameEvent_discreet he hd) (ih hrest)
  obtain ⟨s', hrun', hsame⟩ := hsound.run hevents (Disclosure.sameSys_fresh now) hrun
  exact ⟨s', hrun', List.rel_filterMap (fun _ _ ht => Disclosure.sameReply_label ht.label)
    hsame.tasks⟩

/-! ### An operation that the mint is refused for, and the same with other bytes -/

namespace SampleReveal

def dead : Str := "0xdead".toList

def deadHash : Hex := "0x3905d344717efd562447a4960eea941c1244adc31f53525d0ec1397ff6951c9c".toList

def beef : Str := "0xbeef".toList

def beefHash : Hex := "0x50cc9609ed13c878caf0b7ac27b34f56c318680963224914c6ea863d460f8a7f".toList

def tables : ViemTables where
  hashes := [(dead, deadHash), (beef, beefHash)]

theorem tables_consistent : tables.Consistent where
  hashes := by
    intro p hp
    rcases List.mem_pair.mp hp with rfl | rfl
    · exact ⟨(Bytes.hexDecode (deadHash.drop 2)).getD [], by decide, by decide⟩
    · exact ⟨(Bytes.hexDecode (beefHash.drop 2)).getD [], by decide, by decide⟩

def options : Options := Sample.options tables

/-- An error that prints the argument of the call, as viem's do. -/
def contractError (userOpData : Str) : JsError :=
  .error ("The contract function reverted. args: (".toList ++ userOpData ++ ")".toList)

/-- An event of the service. -/
def event : ExecutorService.Event options → Views.Event options
  | .spawn l => .spawn (Views.Label.service l)
  | .perform i x => .perform i x
  | .disturb i => .disturb i
  | .resume i => .resume i
  | .outside x => .outside x
  | .crash => .crash

def events (es : List (ExecutorService.Event options)) : List (Views.Event options) := es.map event

/-- From the registration to the poll. -/
def registered : List (Views.Event options) :=
  events ([.resume 0] ++ Sample.answers 0 [.done, .done] ++ [.spawn .tick, .resume 1])

/-- From the poll to the call of the contract. -/
def driving : List (Views.Event options) :=
  events ([.resume 1] ++ Sample.answers 1 Sample.creating ++ Sample.walkOne 1 Sample.preparing ++
    (Sample.tickOn 2 [] [] ++ Sample.walkOne 2 Sample.submitting) ++
    (Sample.tickOn 3 [] [] ++ Sample.walkOne 3 Sample.finalizing) ++
    (Sample.tickOn 4 [] [] ++ Sample.walkOne 4 Sample.fetching) ++
    Sample.tickOn 5 [] [] ++ [.resume 5, .resume 5, .perform 5 Sample.proof, .resume 5])

/-- From the rejection to the reply of `GET /status`. -/
def asked : List (Views.Event options) :=
  events ([.resume 5] ++ Sample.answers 5 [.done, .done] ++ [.resume 5]) ++
    [.spawn (Views.Label.status (some Sample.txId)), .resume 6, .perform 6 .done, .resume 6]

/-- Up to the call of the contract. -/
def called (userOpData : Str) (commitment : Hex) : List (Views.Event options) :=
  [event (.spawn (.register (Sample.body userOpData "5".toList)))] ++ registered ++
    [event (.perform 1 (.transactions (.result (some
      [Sample.payment Sample.txId 10 commitment]))))] ++ driving

/-- The whole run, in which the call is rejected. -/
def attempt (userOpData : Str) (commitment : Hex) (e : JsError) : List (Views.Event options) :=
  called userOpData commitment ++ [.perform 5 (.fail e .nothing)] ++ asked

/-- The bytes in the call a task awaits. -/
def argument (s : Views.Sys options) (i : Nat) : Option Str :=
  match s.awaiting i with
  | some (_, .executeDirectMintingWithData _ _ _ userOpData _) => some userOpData
  | _ => none

/-- What `GET /status` shows of a job. -/
def shown : PublicReply → Option (JobState × Option Str)
  | .status state _ _ _ lastError => some (state, lastError)
  | _ => none

/-- The events that are the same in two runs, as far as it shows in them. -/
def fixed : Views.Event options → Bool
  | .spawn (Views.Label.service l) => !Disclosure.isRegister l
  | .spawn (Views.Label.status _) => true
  | .perform _ (.transactions (.result (some []))) => true
  | .perform _ .done | .perform _ (.address _) | .perform _ (.nat _) | .perform _ (.bool _)
  | .perform _ (.hex _) | .perform _ (.receipt _) | .perform _ (.verifier _)
  | .perform _ (.daLayer _) | .resume _ => true
  | _ => false

theorem sameEvent_fixed {e : Views.Event options} (h : fixed e = true) :
    (Disclosure.likeness options deadHash beefHash Disclosure.anyRejection).SameEvent e e := by
  unfold fixed at h
  split at h
  case h_1 => exact .spawn (.service (by simpa using h))
  case h_2 tx => exact .spawn (.status tx)
  case h_3 i => exact .perform i (.transactions (.result (.some .nil)))
  case h_4 i => exact .perform i .done
  case h_5 i a => exact .perform i (.address a)
  case h_6 i n => exact .perform i (.nat n)
  case h_7 i b => exact .perform i (.bool b)
  case h_8 i x => exact .perform i (.hex x)
  case h_9 i r => exact .perform i (.receipt r)
  case h_10 i r => exact .perform i (.verifier r)
  case h_11 i r => exact .perform i (.daLayer r)
  case h_12 i => exact .resume i
  case h_13 => cases h

/-- What holds of the fixed events, of the two registrations, of the two payments and of the two
rejections, holds all along. -/
theorem attempt_pairs {P : Views.Event options → Views.Event options → Prop} {e e' : JsError}
    (hfixed : ∀ x, fixed x = true → P x x)
    (hregister : P (event (.spawn (.register (Sample.body dead "5".toList))))
      (event (.spawn (.register (Sample.body beef "5".toList)))))
    (hpay : P (event (.perform 1 (.transactions (.result (some
        [Sample.payment Sample.txId 10 deadHash])))))
      (event (.perform 1 (.transactions (.result (some
        [Sample.payment Sample.txId 10 beefHash]))))))
    (hfail : P (.perform 5 (.fail e .nothing)) (.perform 5 (.fail e' .nothing))) :
    List.Forall₂ P (attempt dead deadHash e) (attempt beef beefHash e') := by
  have hall : ∀ xs : List (Views.Event options), xs.all fixed = true → List.Forall₂ P xs xs :=
    fun xs h => List.forall₂_same.mpr fun x hx => hfixed x (List.all_eq_true.mp h x hx)
  have hregistered := hall registered (by decide)
  have hdriving := hall driving (by decide +kernel)
  have hasked := hall asked (by decide)
  exact List.rel_append (List.rel_append (List.rel_append (List.rel_append (List.rel_append
    (.cons hregister .nil) hregistered) (.cons hpay .nil)) hdriving) (.cons hfail .nil)) hasked

/-- The transaction of a payment. -/
def memoTx (commitment : Hex) : XrplTx :=
  ((Sample.payment Sample.txId 10 commitment).tx_json).getD
    { transactionType := none, memos := none }

theorem sameTx_memoTx : Disclosure.SameTx deadHash beefHash (memoTx deadHash) (memoTx beefHash) := by
  have hdead : commitmentFromMemos (memoTx deadHash) = some deadHash := by decide +kernel
  have hbeef : commitmentFromMemos (memoTx beefHash) = some beefHash := by decide +kernel
  refine ⟨(memoTx beefHash).memos, rfl, ?_⟩
  rw [hdead, hbeef]
  exact .some .named

theorem attempt_sameEvent (e e' : JsError) :
    List.Forall₂ (Disclosure.likeness options deadHash beefHash Disclosure.anyRejection).SameEvent
      (attempt dead deadHash e) (attempt beef beefHash e') := by
  refine attempt_pairs (fun x hx => sameEvent_fixed hx) ?_ ?_ (.perform 5 (.fail trivial .nothing))
  · refine .spawn (.register ⟨?_, .some ⟨.ok .named, .str beef, none, rfl⟩⟩)
    exact iff_of_false nofun nofun
  · exact .perform 1 (.transactions (.result (.some (.cons
      ⟨some (memoTx beefHash), none, rfl, .some sameTx_memoTx, .none⟩ .nil))))

/-- The call is rejected, and `GET /status` is asked afterwards. -/
def rejected (e : JsError) : List (Views.Event options) := [.perform 5 (.fail e .nothing)] ++ asked

/-- The run comes to the call of the contract with its bytes, and `GET /status` then shows how the
call is rejected. -/
structure Called (userOpData : Str) (commitment : Hex) (errors : List JsError) : Prop where
  argument : ((Sys.run (called userOpData commitment) (Views.Sys.fresh options 0)).bind fun s =>
    argument s 5) = some userOpData
  shows : ∀ e ∈ errors, ∃ s : Views.Sys options, Sys.run (attempt userOpData commitment e)
    (Views.Sys.fresh options 0) = some s ∧
    s.replies.filterMap shown = [(.proof_fetched, some e.message)]

/-- The part of the run up to the call is computed once, whatever comes after it. -/
theorem called_of_run {userOpData : Str} {commitment : Hex} {errors : List JsError}
    (h : ((Sys.run (called userOpData commitment) (Views.Sys.fresh options 0)).map fun s =>
      decide (argument s 5 = some userOpData ∧ ∀ e ∈ errors,
        ((Sys.run (rejected e) s).map fun s' => (Views.Sys.replies s').filterMap shown) =
          some [(.proof_fetched, some e.message)])) = some true) :
    Called userOpData commitment errors := by
  obtain ⟨s, hs, hdecide⟩ := Option.map_eq_some_iff.mp h
  obtain ⟨hargument, hshows⟩ := of_decide_eq_true hdecide
  refine ⟨by rw [hs]; exact hargument, fun e he => ?_⟩
  obtain ⟨s', hs', hshown⟩ := Option.map_eq_some_iff.mp (hshows e he)
  refine ⟨s', ?_, hshown⟩
  rw [attempt, List.append_assoc, Sys.run_append, hs]
  exact hs'

set_option maxRecDepth 10000 in
theorem dead_called : Called dead deadHash [contractError dead, .error "timeout".toList] :=
  called_of_run (by decide +kernel)

set_option maxRecDepth 10000 in
theorem beef_called : Called beef beefHash [contractError beef] :=
  called_of_run (by decide +kernel)

/-- Replies that are the same up to the renaming show texts that are. -/
theorem shown_same {r r' : PublicReply} (h : Disclosure.SameReply deadHash beefHash r r') :
    Option.Rel (fun p p' => Option.Rel (Disclosure.SameText deadHash beefHash) p.2 p'.2)
      (shown r) (shown r') := by
  cases h with
  | error => exact .none
  | status _ _ _ _ h => exact .some h
  | pending => exact .none

theorem not_sameText : ¬Disclosure.SameText deadHash beefHash (contractError dead).message
    (contractError beef).message := by
  have habsent : ¬deadHash <:+: (contractError dead).message := by
    intro h
    have hlen := h.length_le
    revert hlen
    decide
  rintro (h | h)
  · revert h
    decide
  · rw [List.replaceAll_of_absent habsent] at h
    revert h
    decide

/-- The two runs are told two errors, and show two errors. -/
theorem replies_differ {s s' : Views.Sys options}
    (hs : s.replies.filterMap shown = [(.proof_fetched, some (contractError dead).message)])
    (hs' : s'.replies.filterMap shown = [(.proof_fetched, some (contractError beef).message)]) :
    ¬List.Forall₂ (Disclosure.SameReply deadHash beefHash) s.replies s'.replies := by
  intro h
  have htexts := List.rel_filterMap (fun _ _ hr => shown_same hr) h
  rw [hs, hs'] at htexts
  cases htexts with
  | cons hrel _ =>
    cases hrel with
    | some htext => exact not_sameText htext

end SampleReveal

open SampleReveal in
/-- The call of the contract is rejected with an error that prints its argument, and `GET /status`
shows the bytes of an operation that has not been executed. -/
theorem status_reveals_argument :
    List.Forall₂ (Disclosure.likeness options deadHash beefHash Disclosure.anyRejection).SameEvent
      (attempt dead deadHash (contractError dead)) (attempt beef beefHash (contractError beef)) ∧
    ((Sys.run (called dead deadHash) (Views.Sys.fresh options 0)).bind fun s => argument s 5) =
      some dead ∧
    ((Sys.run (called beef beefHash) (Views.Sys.fresh options 0)).bind fun s => argument s 5) =
      some beef ∧
    ∃ s s' : Views.Sys options,
      Sys.run (attempt dead deadHash (contractError dead)) (Views.Sys.fresh options 0) = some s ∧
      Sys.run (attempt beef beefHash (contractError beef)) (Views.Sys.fresh options 0) = some s' ∧
      s.replies.filterMap shown = [(.proof_fetched, some (contractError dead).message)] ∧
      ¬List.Forall₂ (Disclosure.SameReply deadHash beefHash) s.replies s'.replies := by
  obtain ⟨s, hrun, hs⟩ := dead_called.shows _ List.mem_cons_self
  obtain ⟨s', hrun', hs'⟩ := beef_called.shows _ List.mem_cons_self
  exact ⟨attempt_sameEvent _ _, dead_called.argument, beef_called.argument, s, s', hrun, hrun', hs,
    replies_differ hs hs'⟩

open SampleReveal in
/-- A timeout tells the two runs nothing. -/
theorem views_same_of_discreet_timeout : ∃ s s' : Views.Sys options,
    s.replies.filterMap shown = [(.proof_fetched, some "timeout".toList)] ∧
      Sys.run (attempt beef beefHash (.error "timeout".toList)) (Views.Sys.fresh options 0) =
        some s' ∧
      List.Forall₂ (Disclosure.SameReply deadHash beefHash) s.replies s'.replies := by
  have hdiscreet : ∀ x : Views.Event options, Disclosure.Discreet deadHash beefHash x x := by
    intro x i e e' part part' he he'
    rw [he] at he'
    cases he'
    exact Disclosure.SameError.refl e
  have hdead : options.viem.keccak256 dead = .ok deadHash := rfl
  have hbeef : options.viem.keccak256 beef = .ok beefHash := rfl
  obtain ⟨s, hrun, hs⟩ := dead_called.shows (.error "timeout".toList) (by simp)
  obtain ⟨s', hrun', hsame⟩ := views_same_of_discreet tables_consistent.lawful hdead hbeef
    (attempt_sameEvent (.error "timeout".toList) (.error "timeout".toList))
    (attempt_pairs (fun x _ => hdiscreet x) nofun nofun (hdiscreet _)) hrun
  exact ⟨s, s', hs, hrun', hsame⟩

end OneSig.Executor
