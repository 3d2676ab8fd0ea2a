/-
# `verify-deploy`: what the report says of `extension.env`

`pre-build.sh` writes down the extension id and the address of the contract, and six checks of the
report read the file again: one with a map of its variables, the others with a `switch`.  The
checks here are those that look at these two values; the calls that leave the program are
parameters, and a message keeps its parts.

The program reads bytes, so a text is a list of bytes.  `bufio.Scanner` with its buffer, the
trimming of white space in UTF-8, `strings.SplitN`, the quotes that are taken off a value and the
two hexadecimal parsers are modelled as the Go library documents them: which bytes are dropped at
the end of a line is what the two readers have to agree on.

* The two parsers read the same values, the last that the file assigns, and the checks agree on
  them (`checks_agree`), for every content of the file.
* What `pre-build.sh` writes is read back as it was, and passes (`prebuilt_passes`), for every
  extension id and every address that it accepts.
* If the report says that the contract is the sender of the extension and of no other, then
  `setExtensionId` finds the id of the file, wherever in the life of the contract it is called
  first (`verified_id_settles`).  This one connects the report with the contract of the other
  module: the registries of the chain may change in any way meanwhile.

A value that is not what the file assigns last, a missing file and an unreadable one have their
own results, with the texts of the report.  The checks of keys, ports, proxies and deployed code
are left out, and so is the order in which the report prints its sections.
-/
import OneSig.Latch.ExtensionId

namespace OneSig.Tools.VerifyDeploy

open Latch (Account Directory Registered)
open Latch.LatchInstructionSender (firstPublicExtensionId)
open Latch.Sender (Settles FirstSettled Deployed foldl_unset)

/-! ## 1. Lines and words -/

/-- A string of the program. -/
abbrev Text := List UInt8

/-- The bytes of a text in ASCII. -/
def ascii (s : String) : Text := s.toList.map fun c : Char => UInt8.ofNat c.toNat

/-- The lines of a file; a last one without a newline counts. -/
def splitLines : Text → List Text
  | [] => []
  | b :: bs =>
    if b = 10 then [] :: splitLines bs
    else match splitLines bs with
      | [] => [[b]]
      | line :: rest => (b :: line) :: rest

/-- A carriage return at the end of a line is dropped. -/
def dropCR (line : Text) : Text := if line.getLast? = some 13 then line.dropLast else line

/-- `bufio.Scanner`: it stops at a line that does not fit into its buffer. -/
def scan (content : Text) : List Text :=
  ((splitLines content).takeWhile fun line => decide (line.length < 65536)).map dropCR

/-- White space in UTF-8. -/
def spaces : List Text :=
  [[9], [10], [11], [12], [13], [32], [0xC2, 0x85], [0xC2, 0xA0], [0xE1, 0x9A, 0x80],
    [0xE2, 0x80, 0x80], [0xE2, 0x80, 0x81], [0xE2, 0x80, 0x82], [0xE2, 0x80, 0x83],
    [0xE2, 0x80, 0x84], [0xE2, 0x80, 0x85], [0xE2, 0x80, 0x86], [0xE2, 0x80, 0x87],
    [0xE2, 0x80, 0x88], [0xE2, 0x80, 0x89], [0xE2, 0x80, 0x8A], [0xE2, 0x80, 0xA8],
    [0xE2, 0x80, 0xA9], [0xE2, 0x80, 0xAF], [0xE2, 0x81, 0x9F], [0xE3, 0x80, 0x80]]

/-- At most `n` of some strings dropped from the front. -/
def dropFront (seps : List Text) : Nat → Text → Text
  | 0, s => s
  | n + 1, s =>
    match seps.find? fun sep => sep.isPrefixOf s with
    | none => s
    | some sep => dropFront seps n (s.drop sep.length)

def trimLeft (s : Text) : Text := dropFront spaces s.length s

def trimRight (s : Text) : Text :=
  (dropFront (spaces.map List.reverse) s.length s.reverse).reverse

/-- `strings.TrimSpace`. -/
def trimSpace (s : Text) : Text := trimRight (trimLeft s)

/-- `strings.SplitN(line, "=", 2)`, if there are two parts. -/
def splitN (line : Text) : Option (Text × Text) :=
  if 61 ∈ line then some (line.takeWhile (· ≠ 61), (line.dropWhile (· ≠ 61)).drop 1) else none

/-- The assignment of a line. -/
def assignment (line : Text) : Option (Text × Text) :=
  let line := trimSpace line
  if line = [] ∨ line.head? = some 35 then none
  else (splitN line).map fun parts => (trimSpace parts.1, trimSpace parts.2)

/-! ## 2. The file -/

/-- What `os.Open` and `os.Stat` say of the path. -/
inductive File
  | missing
  /-- It is there, but cannot be opened. -/
  | closed
  | content (bytes : Text)

def setVar (vars : Text → Option Text) (line : Text) : Text → Option Text :=
  match assignment line with
  | none => vars
  | some (key, val) => Function.update vars key (some val)

/-- The variables, as `CheckExtensionEnvFormat` collects them. -/
def vars (content : Text) : Text → Option Text := (scan content).foldl setVar fun _ => none

/-- What `parseExtensionEnv` returns. -/
structure Env where
  extensionID : Text := []
  instructionSender : Text := []
  deriving DecidableEq

def Env.line (env : Env) (line : Text) : Env :=
  match assignment line with
  | none => env
  | some (key, val) =>
    if key = ascii "EXTENSION_ID" then { env with extensionID := val }
    else if key = ascii "INSTRUCTION_SENDER" then { env with instructionSender := val }
    else env

def parseExtensionEnv : File → Env
  | .content content => (scan content).foldl Env.line {}
  | _ => {}

/-! ## 3. Hexadecimal -/

def hexDigit (b : UInt8) : Option Nat := Bytes.hexVal (Char.ofNat b.toNat)

/-- `0x` and `n` hexadecimal digits. -/
def matchesHex (n : Nat) (s : Text) : Bool :=
  s.length = n + 2 && s.take 2 = ascii "0x" && (s.drop 2).all fun b => (hexDigit b).isSome

def addressRegex (s : Text) : Bool := matchesHex 40 s

def extensionIDRegex (s : Text) : Bool := matchesHex 64 s

/-- The number after `0x`. -/
def hexNumber (s : Text) : Nat :=
  (s.drop 2).foldl (fun n b => 16 * n + (hexDigit b).getD 0) 0

/-- `common.HexToAddress`. -/
def hexToAddress (s : Text) : Account := BitVec.ofNat 160 (hexNumber s)

/-! ## 4. The checks -/

inductive Status
  | PASS
  | WARN
  | FAIL
  | SKIP
  deriving DecidableEq

/-- A part of a message. -/
inductive Part
  | text (s : String)
  | value (s : Text)
  /-- `%q`. -/
  | quoted (s : Text)
  | number (n : Nat)
  /-- `addr.Hex()`. -/
  | address (a : Account)
  | error (e : Str)

structure CheckResult where
  step : String
  id : String
  name : String
  status : Status
  message : List Part := []
  fix : String := ""

def rebuild : String := "Delete config/extension.env and re-run scripts/pre-build.sh"

/-- One variable of `CheckExtensionEnvFormat`. -/
def checkVar (name : String) (regex : Text → Bool) (val : Option Text) : CheckResult :=
  match val with
  | none =>
    ⟨"deploy", "D7", name ++ " in extension.env", .FAIL,
      [.text (name ++ " not found in extension.env")], rebuild⟩
  | some val =>
    if regex val = false then
      ⟨"deploy", "D7", name ++ " in extension.env", .FAIL,
        [.text (name ++ " has invalid format: "), .quoted val], rebuild⟩
    else ⟨"deploy", "D7", name ++ " in extension.env", .PASS, [.value val], ""⟩

/-- D7. -/
def checkExtensionEnvFormat (path : Text) : File → List CheckResult
  | .content content =>
    [checkVar "INSTRUCTION_SENDER" addressRegex (vars content (ascii "INSTRUCTION_SENDER")),
      checkVar "EXTENSION_ID" extensionIDRegex (vars content (ascii "EXTENSION_ID"))]
  | _ => [⟨"deploy", "D7", "extension.env exists", .SKIP,
      [.text "file not found: ", .value path], ""⟩]

/-- S2, with a path given. -/
def servicesExtensionID (file : File) : CheckResult :=
  let extID := (parseExtensionEnv file).extensionID
  if extID = [] then
    ⟨"services", "S2", "EXTENSION_ID is set and well-formed", .FAIL,
      [.text "EXTENSION_ID is empty or not found in extension.env"], rebuild⟩
  else if extensionIDRegex extID = false then
    ⟨"services", "S2", "EXTENSION_ID is set and well-formed", .FAIL,
      [.text "EXTENSION_ID has invalid format: ", .quoted extID], rebuild⟩
  else ⟨"services", "S2", "EXTENSION_ID is set and well-formed", .PASS, [.value extID], ""⟩

/-- V4, with a path given. -/
def teeVersionExtensionID (file : File) : CheckResult :=
  let extID := (parseExtensionEnv file).extensionID
  if extID = [] then
    match file with
    | .missing =>
      ⟨"tee-version", "V4", "EXTENSION_ID valid", .SKIP,
        [.text "extension.env not found — run pre-build.sh first"], ""⟩
    | _ =>
      ⟨"tee-version", "V4", "EXTENSION_ID valid", .FAIL, [.text "EXTENSION_ID not set"], rebuild⟩
  else if extensionIDRegex extID = false then
    ⟨"tee-version", "V4", "EXTENSION_ID valid", .FAIL, [.text "EXTENSION_ID malformed"], rebuild⟩
  else ⟨"tee-version", "V4", "EXTENSION_ID valid", .PASS, [.value extID], ""⟩

/-- E1, with a path given. -/
def testInstructionSender (file : File) : CheckResult :=
  let instrSender := (parseExtensionEnv file).instructionSender
  match file with
  | .missing =>
    ⟨"test", "E1", "INSTRUCTION_SENDER valid", .SKIP,
      [.text "extension.env not found — run pre-build.sh first"], ""⟩
  | _ =>
    if instrSender = [] then
      ⟨"test", "E1", "INSTRUCTION_SENDER valid", .FAIL,
        [.text "INSTRUCTION_SENDER not set — run pre-build.sh"],
        "Run scripts/pre-build.sh to deploy and register the extension"⟩
    else if addressRegex instrSender = false then
      ⟨"test", "E1", "INSTRUCTION_SENDER valid", .FAIL,
        [.text "INSTRUCTION_SENDER malformed"], rebuild⟩
    else ⟨"test", "E1", "INSTRUCTION_SENDER valid", .PASS, [.value instrSender], ""⟩

/-- What the registries answer. -/
structure Chain where
  nextPublicExtensionId : Except Str Nat
  getTeeExtensionInstructionsSender : Nat → Except Str Account
  /-- For the EVM key type. -/
  isKeyTypeSupported : Nat → Except Str Bool
  /-- For the account of the deployer. -/
  isAllowedTeeMachineOwner : Nat → Except Str Bool

/-- The outcomes of a query for a Boolean. -/
def checkBool (id name query : String) (yes no fix : String) : Except Str Bool → CheckResult
  | .error e => ⟨"register", id, name, .FAIL, [.text query, .error e], ""⟩
  | .ok true => ⟨"register", id, name, .PASS, [.text yes], ""⟩
  | .ok false => ⟨"register", id, name, .FAIL, [.text no], fix⟩

/-- R1. -/
def checkCounter (chain : Chain) : CheckResult :=
  match chain.nextPublicExtensionId with
  | .error e =>
    ⟨"register", "R1", "next public extension id", .FAIL,
      [.text "failed to query nextPublicExtensionId: ", .error e], ""⟩
  | .ok 0 =>
    ⟨"register", "R1", "next public extension id", .WARN,
      [.text "nextPublicExtensionId is 0 — no public extensions registered yet"], ""⟩
  | .ok counter =>
    ⟨"register", "R1", "next public extension id", .PASS,
      [.text "nextPublicExtensionId = ", .number counter], ""⟩

/-- R2. -/
def checkSender (chain : Chain) (extensionID : Nat) (instrSender : Text) : CheckResult :=
  match chain.getTeeExtensionInstructionsSender extensionID with
  | .error e =>
    ⟨"register", "R2", "instruction sender matches on-chain", .FAIL,
      [.text "failed to query instruction sender: ", .error e], ""⟩
  | .ok sender =>
    if sender = hexToAddress instrSender then
      ⟨"register", "R2", "instruction sender matches on-chain", .PASS,
        [.text "on-chain sender ", .address sender, .text " matches extension.env"], ""⟩
    else
      ⟨"register", "R2", "instruction sender matches on-chain", .FAIL,
        [.text "on-chain sender ", .address sender, .text " != extension.env ", .value instrSender],
        "Re-register the extension or update extension.env"⟩

/-- `counter.Int64()`: the low 64 bits. -/
def int64 (n : Nat) : Int := (BitVec.ofNat 64 n).toInt

/-- The ids below a counter that have the sender; a query that fails is passed over. -/
def matchingIDs (chain : Chain) (sender : Account) (counter : Nat) : List Nat :=
  (List.range (int64 counter).toNat).filter fun i =>
    match chain.getTeeExtensionInstructionsSender i with
    | .ok s => decide (s = sender)
    | .error _ => false

/-- R7. -/
def checkUnique (chain : Chain) (counter : Nat) (instrSender : Text) : CheckResult :=
  let ids := matchingIDs chain (hexToAddress instrSender) counter
  if 1 < ids.length then
    ⟨"register", "R7", "unique instruction sender", .WARN,
      [.text "INSTRUCTION_SENDER ", .value instrSender,
        .text " is used by multiple extensions: "] ++
        (ids.map Part.number).intersperse (.text ", "), ""⟩
  else
    ⟨"register", "R7", "unique instruction sender", .PASS,
      [.text "instruction sender is unique across registered extensions"], ""⟩

/-- The registration checks, with a path given and every client connected. -/
def registrationChecks (chain : Chain) (file : File) : List CheckResult :=
  let env := parseExtensionEnv file
  if env.extensionID = [] ∧ env.instructionSender = [] then
    [⟨"register", "R1-R7", "registration checks", .SKIP,
      [.text "config/extension.env not found — run pre-build.sh first"], ""⟩]
  else if extensionIDRegex env.extensionID = false then
    [checkCounter chain,
      ⟨"register", "R2", "EXTENSION_ID format", .FAIL,
        [.text "malformed EXTENSION_ID: ", .quoted env.extensionID], rebuild⟩]
  else
    let extensionID := hexNumber env.extensionID
    [checkCounter chain] ++
    (if addressRegex env.instructionSender = true then
      [checkSender chain extensionID env.instructionSender] else []) ++
    [checkBool "R3" "deployer is allowed TEE machine owner" "failed to query allowlist: "
        "deployer is on the TEE machine owner allowlist"
        "deployer is NOT on the TEE machine owner allowlist"
        "Run the register step to add the deployer as a TEE machine owner"
        (chain.isAllowedTeeMachineOwner extensionID),
      checkBool "R4" "EVM key type supported" "failed to query key type support: "
        "EVM key type is supported for this extension"
        "EVM key type is NOT supported for this extension"
        "Run the register step to add EVM key type support"
        (chain.isKeyTypeSupported extensionID)] ++
    match chain.nextPublicExtensionId with
    | .ok counter =>
      if 0 < counter ∧ addressRegex env.instructionSender = true then
        [checkUnique chain counter env.instructionSender] else []
    | .error _ => []

/-! ## 5. One file, one verdict -/

theorem setVar_none {vars : Text → Option Text} {line : Text} (h : assignment line = none) :
    setVar vars line = vars := by
  unfold setVar
  rw [h]

theorem setVar_some {vars : Text → Option Text} {line key val : Text}
    (h : assignment line = some (key, val)) :
    setVar vars line = Function.update vars key (some val) := by
  unfold setVar
  rw [h]

/-- What a variable was assigned last. -/
def lastAssigned (content key : Text) : Option Text :=
  ((scan content).filterMap assignment).reverse.lookup key

theorem foldl_setVar (lines : List Text) (vars : Text → Option Text) (key : Text) :
    lines.foldl setVar vars key =
      ((lines.filterMap assignment).reverse.lookup key).or (vars key) := by
  induction lines generalizing vars with
  | nil => rfl
  | cons line lines ih =>
    rw [List.foldl_cons, ih]
    cases hline : assignment line with
    | none => rw [setVar_none hline, List.filterMap_cons_none hline]
    | some entry =>
      obtain ⟨key', val⟩ := entry
      rw [setVar_some hline, List.filterMap_cons_some hline, List.reverse_cons,
        List.lookup_append, Option.or_assoc]
      congr 1
      by_cases hkey : key = key'
      · subst hkey
        simp [List.lookup_cons_self]
      · have hne : (key == key') = false := by simpa using hkey
        simp [List.lookup_cons, hne, Function.update_of_ne hkey]

theorem vars_eq (content key : Text) : vars content key = lastAssigned content key := by
  rw [vars, foldl_setVar, Option.or_none]
  rfl

/-- The two readings of a file. -/
structure Reads (vars : Text → Option Text) (env : Env) : Prop where
  extensionID : env.extensionID = (vars (ascii "EXTENSION_ID")).getD []
  instructionSender : env.instructionSender = (vars (ascii "INSTRUCTION_SENDER")).getD []

theorem Reads.line {vars : Text → Option Text} {env : Env} (h : Reads vars env) (line : Text) :
    Reads (setVar vars line) (env.line line) := by
  have hdiff : ascii "INSTRUCTION_SENDER" ≠ ascii "EXTENSION_ID" := by decide
  unfold Env.line
  cases hline : assignment line with
  | none =>
    rw [setVar_none hline]
    exact h
  | some entry =>
    obtain ⟨key, val⟩ := entry
    rw [setVar_some hline]
    dsimp only
    split
    case isTrue hkey =>
      subst hkey
      constructor
      · rw [Function.update_self]
        rfl
      · rw [Function.update_of_ne hdiff]
        exact h.instructionSender
    case isFalse hkey =>
      split
      case isTrue hkey' =>
        subst hkey'
        constructor
        · rw [Function.update_of_ne hdiff.symm]
          exact h.extensionID
        · rw [Function.update_self]
          rfl
      case isFalse hkey' =>
        constructor
        · rw [Function.update_of_ne (Ne.symm hkey)]
          exact h.extensionID
        · rw [Function.update_of_ne (Ne.symm hkey')]
          exact h.instructionSender

theorem reads (content : Text) : Reads (vars content) (parseExtensionEnv (.content content)) := by
  have hrun : ∀ (lines : List Text) (vars : Text → Option Text) (env : Env), Reads vars env →
      Reads (lines.foldl setVar vars) (lines.foldl Env.line env) := by
    intro lines
    induction lines with
    | nil => exact fun _ _ h => h
    | cons line lines ih => exact fun vars env h => ih _ _ (h.line line)
  exact hrun _ _ _ ⟨rfl, rfl⟩

def verdict (regex : Text → Bool) (val : Text) : Status := if regex val = true then .PASS else .FAIL

theorem matchesHex_nil (n : Nat) : matchesHex n [] = false := by
  have hlen : ¬ ([] : Text).length = n + 2 := by
    rw [List.length_nil]
    omega
  rw [matchesHex, decide_eq_false hlen, Bool.false_and, Bool.false_and]

theorem addressRegex_nil : addressRegex [] = false := matchesHex_nil 40

theorem extensionIDRegex_nil : extensionIDRegex [] = false := matchesHex_nil 64

theorem checkVar_status (name : String) {regex : Text → Bool} (hnil : regex [] = false)
    (val : Option Text) : (checkVar name regex val).status = verdict regex (val.getD []) := by
  cases val with
  | none =>
    rw [Option.getD_none, verdict, if_neg (by rw [hnil]; decide)]
    rfl
  | some val =>
    rw [Option.getD_some]
    cases hval : regex val with
    | false => simp [checkVar, verdict, hval]
    | true => simp [checkVar, verdict, hval]

/-- A check of a value that is there and of the right form. -/
theorem status_eq {regex : Text → Bool} (hnil : regex [] = false) (val : Text)
    {empty malformed good : CheckResult} (hempty : empty.status = .FAIL)
    (hmalformed : malformed.status = .FAIL) (hgood : good.status = .PASS) :
    (if val = [] then empty else if regex val = false then malformed else good).status =
      verdict regex val := by
  unfold verdict
  split
  case isTrue h =>
    rw [h, if_neg (by rw [hnil]; decide), hempty]
  case isFalse =>
    cases regex val with
    | false => exact hmalformed
    | true => exact hgood

theorem servicesExtensionID_status (file : File) :
    (servicesExtensionID file).status =
      verdict extensionIDRegex (parseExtensionEnv file).extensionID :=
  status_eq extensionIDRegex_nil _ rfl rfl rfl

theorem teeVersionExtensionID_status (content : Text) :
    (teeVersionExtensionID (.content content)).status =
      verdict extensionIDRegex (parseExtensionEnv (.content content)).extensionID :=
  status_eq extensionIDRegex_nil _ rfl rfl rfl

theorem testInstructionSender_status (content : Text) :
    (testInstructionSender (.content content)).status =
      verdict addressRegex (parseExtensionEnv (.content content)).instructionSender :=
  status_eq addressRegex_nil _ rfl rfl rfl

/-- The report names a malformed id. -/
def formatFails (report : List CheckResult) : Bool :=
  report.any fun r => decide (r.name = "EXTENSION_ID format")

section Names

variable (chain : Chain)

theorem checkCounter_name : (checkCounter chain).name = "next public extension id" := by
  unfold checkCounter
  split <;> rfl

theorem checkSender_name (extensionID : Nat) (instrSender : Text) :
    (checkSender chain extensionID instrSender).name = "instruction sender matches on-chain" := by
  unfold checkSender
  split
  · rfl
  · split <;> rfl

theorem checkBool_name (id name query yes no fix : String) (answer : Except Str Bool) :
    (checkBool id name query yes no fix answer).name = name := by
  unfold checkBool
  split <;> rfl

theorem checkUnique_name (counter : Nat) (instrSender : Text) :
    (checkUnique chain counter instrSender).name = "unique instruction sender" := by
  unfold checkUnique
  dsimp only
  split <;> rfl

end Names

theorem registrationChecks_format (chain : Chain) (file : File) :
    formatFails (registrationChecks chain file) = true ↔
      extensionIDRegex (parseExtensionEnv file).extensionID = false ∧ parseExtensionEnv file ≠ {} := by
  have hempty : ∀ env : Env, env.extensionID = [] ∧ env.instructionSender = [] ↔ env = {} := by
    rintro ⟨extensionID, instructionSender⟩
    rw [Env.mk.injEq]
  unfold registrationChecks formatFails
  simp only [hempty]
  split
  case isTrue hnone => simp [hnone]
  case isFalse hsome =>
    split
    case isTrue hbad => simp [hbad, hsome]
    case isFalse hgood =>
      rw [iff_false_right fun h => hgood h.1, Bool.not_eq_true]
      simp only [List.any_append, Bool.or_eq_false_iff]
      refine ⟨⟨⟨?_, ?_⟩, ?_⟩, ?_⟩
      · simp [checkCounter_name]
      · split <;> simp [checkSender_name]
      · simp [checkBool_name]
      · split
        · split <;> simp [checkUnique_name]
        · rfl

/-- **On every file the checks read the values that it assigns last, and agree on them.**  The map
holds them for every name and the switch for the two it knows, an absent one being empty; so the
verdicts are verdicts on one value each, and the registration checks complain of an id exactly when
it fails and the file says anything at all. -/
theorem checks_agree (content path : Text) (chain : Chain) :
    let env := parseExtensionEnv (.content content)
    let id := verdict extensionIDRegex env.extensionID
    let sender := verdict addressRegex env.instructionSender
    (∀ key, vars content key = lastAssigned content key) ∧
      env = ⟨(lastAssigned content (ascii "EXTENSION_ID")).getD [],
        (lastAssigned content (ascii "INSTRUCTION_SENDER")).getD []⟩ ∧
      (checkExtensionEnvFormat path (.content content)).map CheckResult.status = [sender, id] ∧
      (servicesExtensionID (.content content)).status = id ∧
      (teeVersionExtensionID (.content content)).status = id ∧
      (testInstructionSender (.content content)).status = sender ∧
      (formatFails (registrationChecks chain (.content content)) = true ↔
        id = .FAIL ∧ env ≠ {}) := by
  have hreads := reads content
  have hid := hreads.extensionID
  have hsender := hreads.instructionSender
  have hfail : ∀ (regex : Text → Bool) (val : Text), regex val = false ↔ verdict regex val = .FAIL := by
    intro regex val
    unfold verdict
    cases regex val <;> decide
  refine ⟨vars_eq content, ?_, ?_, servicesExtensionID_status _, teeVersionExtensionID_status content,
    testInstructionSender_status content, ?_⟩
  · rw [← vars_eq, ← vars_eq, ← hid, ← hsender]
  · rw [hid, hsender, checkExtensionEnvFormat, List.map_cons, List.map_singleton,
      checkVar_status _ addressRegex_nil, checkVar_status _ extensionIDRegex_nil]
  · rw [registrationChecks_format, hfail]

/-! ## 6. What `pre-build.sh` writes -/

/-- The comment at the head of `config/extension.env`. -/
def heading : Text :=
  ascii "# Auto-generated by pre-build.sh " ++ [0xE2, 0x80, 0x94] ++ ascii " do not edit manually"

/-- The line of a variable. -/
def setting (key val : Text) : Text := key ++ 61 :: val

def prebuilt (id sender : Text) : Text :=
  heading ++ 10 :: (setting (ascii "EXTENSION_ID") id ++
    10 :: (setting (ascii "INSTRUCTION_SENDER") sender ++ [10]))

/-- A byte of a printed ASCII character that is not a blank. -/
def Graphic (b : UInt8) : Prop := 33 ≤ b.toNat ∧ b.toNat ≤ 126

instance (b : UInt8) : Decidable (Graphic b) := inferInstanceAs (Decidable (_ ∧ _))

theorem splitLines_line {line : Text} (h : 10 ∉ line) (rest : Text) :
    splitLines (line ++ 10 :: rest) = line :: splitLines rest := by
  induction line with
  | nil => rfl
  | cons b line ih =>
    have hb : b ≠ 10 := fun hb => h (hb ▸ List.mem_cons_self)
    rw [List.cons_append, splitLines, if_neg hb, ih fun hmem => h (List.mem_cons_of_mem _ hmem)]

theorem dropFront_eq {seps : List Text} {s : Text}
    (h : ∀ sep ∈ seps, ∃ b ∈ sep, b ∉ s) (n : Nat) : dropFront seps n s = s := by
  cases n with
  | zero => rfl
  | succ n =>
    have hnone : (seps.find? fun sep => sep.isPrefixOf s) = none := by
      rw [List.find?_eq_none]
      intro sep hsep hprefix
      obtain ⟨b, hb, hnot⟩ := h sep hsep
      exact hnot ((List.isPrefixOf_iff_prefix.mp hprefix).subset hb)
    rw [dropFront, hnone]

theorem spaces_blank : ∀ sep ∈ spaces, ∃ b ∈ sep, ¬ Graphic b := by decide

theorem trimSpace_graphic {s : Text} (h : ∀ b ∈ s, Graphic b) : trimSpace s = s := by
  have hleft : trimLeft s = s := by
    refine dropFront_eq (fun sep hsep => ?_) _
    obtain ⟨b, hb, hblank⟩ := spaces_blank sep hsep
    exact ⟨b, hb, fun hmem => hblank (h b hmem)⟩
  have hright : trimRight s = s := by
    rw [trimRight, dropFront_eq (fun sep hsep => ?_), List.reverse_reverse]
    obtain ⟨space, hspace, rfl⟩ := List.mem_map.mp hsep
    obtain ⟨b, hb, hblank⟩ := spaces_blank space hspace
    exact ⟨b, List.mem_reverse.mpr hb, fun hmem => hblank (h b (List.mem_reverse.mp hmem))⟩
  rw [trimSpace, hleft, hright]

theorem splitN_eq {key : Text} (h : 61 ∉ key) (val : Text) :
    splitN (key ++ 61 :: val) = some (key, val) := by
  have hkey : ∀ b ∈ key, (decide (b ≠ 61)) = true := fun b hb =>
    decide_eq_true fun heq => h (heq ▸ hb)
  unfold splitN
  rw [if_pos (List.mem_append_right _ List.mem_cons_self), List.takeWhile_append_of_pos hkey,
    List.dropWhile_append_of_pos hkey]
  simp

theorem ascii_0x : ∀ b ∈ ascii "0x", Graphic b := by decide +kernel

theorem toNat_char (b : UInt8) : (Char.ofNat b.toNat).toNat = b.toNat := by
  have hlt : b.toNat < 256 := b.toNat_lt
  rw [Char.ofNat, dif_pos (Or.inl (by omega))]
  rfl

theorem matchesHex_graphic {n : Nat} {s : Text} (h : matchesHex n s = true) :
    ∀ b ∈ s, Graphic b := by
  simp only [matchesHex, Bool.and_eq_true, decide_eq_true_eq, List.all_eq_true] at h
  obtain ⟨⟨-, htake⟩, hdrop⟩ := h
  intro b hb
  rw [← List.take_append_drop 2 s] at hb
  rcases List.mem_append.mp hb with hb | hb
  · rw [htake] at hb
    exact ascii_0x b hb
  · have hdigit : Bytes.isHexDigit (Char.ofNat b.toNat) = true := hdrop b hb
    rw [Bytes.isHexDigit_iff, toNat_char] at hdigit
    constructor <;> omega

/-- A name of a variable. -/
structure Named (key : Text) : Prop where
  graphic : ∀ b ∈ key, Graphic b
  noEquals : 61 ∉ key
  noHash : key.head? ≠ some 35
  nonempty : key ≠ []
  short : key.length ≤ 18

theorem named_extensionID : Named (ascii "EXTENSION_ID") := by
  constructor <;> decide +kernel

theorem named_instructionSender : Named (ascii "INSTRUCTION_SENDER") := by
  constructor <;> decide +kernel

section Setting

variable {key val : Text}

theorem setting_graphic (hkey : Named key) (hval : ∀ b ∈ val, Graphic b) :
    ∀ b ∈ setting key val, Graphic b := by
  intro b hb
  rcases List.mem_append.mp hb with hb | hb
  · exact hkey.graphic b hb
  · rcases List.mem_cons.mp hb with rfl | hb
    · decide
    · exact hval b hb

theorem assignment_setting (hkey : Named key) (hval : ∀ b ∈ val, Graphic b) :
    assignment (setting key val) = some (key, val) := by
  unfold assignment
  rw [trimSpace_graphic (setting_graphic hkey hval)]
  dsimp only
  rw [if_neg, setting, splitN_eq hkey.noEquals, Option.map_some, trimSpace_graphic hkey.graphic,
    trimSpace_graphic hval]
  rintro (hnil | hhead)
  · exact hkey.nonempty (List.append_eq_nil_iff.mp hnil).1
  · obtain ⟨b, rest, rfl⟩ := List.exists_cons_of_ne_nil hkey.nonempty
    exact hkey.noHash hhead

theorem not_mem_setting {c : UInt8} (hblank : ¬ Graphic c) (hkey : Named key)
    (hval : ∀ b ∈ val, Graphic b) : c ∉ setting key val :=
  fun hmem => hblank (setting_graphic hkey hval c hmem)

theorem setting_short (hkey : Named key) (hval : val.length ≤ 66) :
    decide ((setting key val).length < 65536) = true := by
  have hlen := hkey.short
  rw [decide_eq_true_eq, setting, List.length_append, List.length_cons]
  omega

end Setting

theorem dropCR_eq {line : Text} (h : 13 ∉ line) : dropCR line = line :=
  if_neg fun hlast => h (List.mem_of_getLast? hlast)

theorem matchesHex_length {n : Nat} {s : Text} (h : matchesHex n s = true) : s.length = n + 2 := by
  simp only [matchesHex, Bool.and_eq_true, decide_eq_true_eq] at h
  exact h.1.1

theorem not_graphic_newline : ¬ Graphic 10 := by decide

theorem not_graphic_return : ¬ Graphic 13 := by decide

theorem scan_prebuilt {id sender : Text} (hid : extensionIDRegex id = true)
    (hsender : addressRegex sender = true) :
    scan (prebuilt id sender) =
      [heading, setting (ascii "EXTENSION_ID") id, setting (ascii "INSTRUCTION_SENDER") sender] := by
  have hid' := matchesHex_graphic hid
  have hsender' := matchesHex_graphic hsender
  have hheading : 10 ∉ heading ∧ 13 ∉ heading ∧ decide (heading.length < 65536) = true := by decide
  obtain ⟨hnewline, hreturn, hshort⟩ := hheading
  unfold scan prebuilt
  rw [splitLines_line hnewline,
    splitLines_line (not_mem_setting not_graphic_newline named_extensionID hid'),
    splitLines_line (not_mem_setting not_graphic_newline named_instructionSender hsender'),
    splitLines]
  have hidShort := setting_short named_extensionID (matchesHex_length hid).le
  have hsenderShort := setting_short named_instructionSender
    ((matchesHex_length hsender).le.trans (by decide))
  simp only [List.takeWhile_cons, List.takeWhile_nil, hshort, hidShort, hsenderShort, if_true]
  rw [List.map_cons, List.map_cons, List.map_singleton, dropCR_eq hreturn,
    dropCR_eq (not_mem_setting not_graphic_return named_extensionID hid'),
    dropCR_eq (not_mem_setting not_graphic_return named_instructionSender hsender')]

theorem parse_prebuilt {id sender : Text} (hid : extensionIDRegex id = true)
    (hsender : addressRegex sender = true) :
    parseExtensionEnv (.content (prebuilt id sender)) = ⟨id, sender⟩ := by
  have hheading : assignment heading = none := by decide
  have hdiff : ascii "INSTRUCTION_SENDER" ≠ ascii "EXTENSION_ID" := by decide
  rw [parseExtensionEnv, scan_prebuilt hid hsender]
  simp only [List.foldl_cons, List.foldl_nil, Env.line, hheading,
    assignment_setting named_extensionID (matchesHex_graphic hid),
    assignment_setting named_instructionSender (matchesHex_graphic hsender), if_pos, if_neg hdiff]

/-- **What `pre-build.sh` writes is read back as it was, and passes every check**: both values
have their format, and the services, the TEE version and the sender are those of the file. -/
theorem prebuilt_passes {id sender : Text} (hid : extensionIDRegex id = true)
    (hsender : addressRegex sender = true) (path : Text) :
    let file := File.content (prebuilt id sender)
    parseExtensionEnv file = ⟨id, sender⟩ ∧
      (checkExtensionEnvFormat path file).map CheckResult.status = [.PASS, .PASS] ∧
      (servicesExtensionID file).status = .PASS ∧ (teeVersionExtensionID file).status = .PASS ∧
      (testInstructionSender file).status = .PASS := by
  have hparse := parse_prebuilt hid hsender
  have hreads := reads (prebuilt id sender)
  have hidPass : verdict extensionIDRegex id = .PASS := if_pos hid
  have hsenderPass : verdict addressRegex sender = .PASS := if_pos hsender
  refine ⟨hparse, ?_, ?_, ?_, ?_⟩
  · rw [checkExtensionEnvFormat, List.map_cons, List.map_singleton,
      checkVar_status _ addressRegex_nil, checkVar_status _ extensionIDRegex_nil,
      ← hreads.extensionID, ← hreads.instructionSender, hparse, hidPass, hsenderPass]
  · rw [servicesExtensionID_status, hparse, hidPass]
  · rw [teeVersionExtensionID_status, hparse, hidPass]
  · rw [testInstructionSender_status, hparse, hsenderPass]

/-! ## 7. A verified id -/

/-- The report has a check of that name, and it passes. -/
def Passes (report : List CheckResult) (name : String) : Prop :=
  ∃ r ∈ report, r.name = name ∧ r.status = .PASS

/-- What the contract is told by the same registry. -/
def Chain.directory (chain : Chain) : Directory where
  nextPublicExtensionId := chain.nextPublicExtensionId.toOption
  getTeeExtensionInstructionsSender i := (chain.getTeeExtensionInstructionsSender i).toOption

theorem directory_named {chain : Chain} {i : Nat} {a : Account}
    (h : chain.getTeeExtensionInstructionsSender i = .ok a) :
    chain.directory.getTeeExtensionInstructionsSender i = some a := by
  show (chain.getTeeExtensionInstructionsSender i).toOption = some a
  rw [h]
  rfl

section Report

variable {chain : Chain} {file : File}

/-- The checks that do not compare senders. -/
def otherChecks : List String :=
  ["registration checks", "next public extension id", "EXTENSION_ID format",
    "deployer is allowed TEE machine owner", "EVM key type supported"]

theorem registrationChecks_cases {r : CheckResult} (h : r ∈ registrationChecks chain file) :
    r.name ∈ otherChecks ∨
      r = checkSender chain (hexNumber (parseExtensionEnv file).extensionID)
        (parseExtensionEnv file).instructionSender ∨
      ∃ counter, chain.nextPublicExtensionId = .ok counter ∧
        r = checkUnique chain counter (parseExtensionEnv file).instructionSender := by
  have hcounter : (checkCounter chain).name ∈ otherChecks := by
    rw [checkCounter_name]
    decide
  unfold registrationChecks at h
  dsimp only at h
  split at h
  case isTrue =>
    rw [List.mem_singleton.mp h]
    exact Or.inl (by decide)
  case isFalse =>
    split at h
    case isTrue =>
      rcases List.mem_cons.mp h with rfl | h
      · exact Or.inl hcounter
      · rw [List.mem_singleton.mp h]
        exact Or.inl (by simp [otherChecks])
    case isFalse =>
      simp only [List.mem_append] at h
      rcases h with ((h | h) | h) | h
      · rw [List.mem_singleton.mp h]
        exact Or.inl hcounter
      · split at h
        case isTrue => exact Or.inr (Or.inl (List.mem_singleton.mp h))
        case isFalse => exact absurd h List.not_mem_nil
      · rcases List.mem_cons.mp h with rfl | h
        · rw [checkBool_name]
          exact Or.inl (by decide)
        · rw [List.mem_singleton.mp h, checkBool_name]
          exact Or.inl (by decide)
      · split at h
        case h_1 counter hcounter =>
          split at h
          case isTrue => exact Or.inr (Or.inr ⟨counter, hcounter, List.mem_singleton.mp h⟩)
          case isFalse => exact absurd h List.not_mem_nil
        case h_2 => exact absurd h List.not_mem_nil

/-- Of a well-formed file the senders are compared. -/
theorem senders_compared {counter : Nat} (hcounter : chain.nextPublicExtensionId = .ok counter)
    (hpos : 0 < counter) (hid : extensionIDRegex (parseExtensionEnv file).extensionID = true)
    (hsender : addressRegex (parseExtensionEnv file).instructionSender = true) :
    checkSender chain (hexNumber (parseExtensionEnv file).extensionID)
        (parseExtensionEnv file).instructionSender ∈ registrationChecks chain file ∧
      checkUnique chain counter (parseExtensionEnv file).instructionSender ∈
        registrationChecks chain file := by
  have hsome : ¬((parseExtensionEnv file).extensionID = [] ∧
      (parseExtensionEnv file).instructionSender = []) := by
    rintro ⟨hnil, -⟩
    rw [hnil, extensionIDRegex_nil] at hid
    cases hid
  unfold registrationChecks
  dsimp only
  rw [if_neg hsome, if_neg (by rw [hid]; decide), if_pos hsender, hcounter]
  dsimp only
  rw [if_pos ⟨hpos, hsender⟩]
  constructor
  · simp
  · simp

/-- R2 passes: the registry names the contract for the id of the file. -/
theorem sender_of_passes
    (h : Passes (registrationChecks chain file) "instruction sender matches on-chain") :
    chain.getTeeExtensionInstructionsSender (hexNumber (parseExtensionEnv file).extensionID) =
      .ok (hexToAddress (parseExtensionEnv file).instructionSender) := by
  obtain ⟨r, hr, hname, hpass⟩ := h
  rcases registrationChecks_cases hr with hother | rfl | ⟨counter, -, rfl⟩
  · rw [hname] at hother
    exact absurd hother (by decide)
  · unfold checkSender at hpass
    split at hpass
    case h_1 => cases hpass
    case h_2 sender hsender =>
      split at hpass
      case isTrue heq => rw [hsender, heq]
      case isFalse => cases hpass
  · rw [checkUnique_name] at hname
    exact absurd hname (by decide)

/-- R7 passes: no two ids below the counter name the contract. -/
theorem unique_of_passes
    (h : Passes (registrationChecks chain file) "unique instruction sender") :
    ∃ counter, chain.nextPublicExtensionId = .ok counter ∧
      (matchingIDs chain (hexToAddress (parseExtensionEnv file).instructionSender) counter).length ≤
        1 := by
  obtain ⟨r, hr, hname, hpass⟩ := h
  rcases registrationChecks_cases hr with hother | rfl | ⟨counter, hcounter, rfl⟩
  · rw [hname] at hother
    exact absurd hother (by decide)
  · rw [checkSender_name] at hname
    exact absurd hname (by decide)
  · refine ⟨counter, hcounter, ?_⟩
    unfold checkUnique at hpass
    dsimp only at hpass
    split at hpass
    case isTrue => cases hpass
    case isFalse hfew => omega

end Report

theorem int64_of_lt {n : Nat} (h : n < 2 ^ 63) : (int64 n).toNat = n := by
  have hmod : n % 2 ^ 64 = n := Nat.mod_eq_of_lt (h.trans (by decide))
  rw [int64, BitVec.toInt_eq_toNat_of_lt] <;> rw [BitVec.toNat_ofNat, hmod]
  · exact Int.toNat_natCast n
  · omega

theorem mem_matchingIDs {chain : Chain} {sender : Account} {counter i : Nat}
    (hsmall : counter < 2 ^ 63) :
    i ∈ matchingIDs chain sender counter ↔
      i < counter ∧ chain.getTeeExtensionInstructionsSender i = .ok sender := by
  rw [matchingIDs, List.mem_filter, List.mem_range, int64_of_lt hsmall]
  refine and_congr_right fun _ => ?_
  cases chain.getTeeExtensionInstructionsSender i with
  | ok s => simp
  | error e => simp

theorem eq_of_mem_of_length {α : Type} {l : List α} (hlen : l.length ≤ 1) {a b : α} (ha : a ∈ l)
    (hb : b ∈ l) : a = b := by
  match l, hlen with
  | [], _ => exact absurd ha List.not_mem_nil
  | [c], _ => rw [List.mem_singleton.mp ha, List.mem_singleton.mp hb]

/-- The registry answers for every public id it has counted, and has not counted past `int64`. -/
structure Answers (chain : Chain) : Prop where
  small : ∀ counter, chain.nextPublicExtensionId = .ok counter → counter < 2 ^ 63
  total : ∀ counter i, chain.nextPublicExtensionId = .ok counter → firstPublicExtensionId ≤ i →
    i < counter → ∃ sender, chain.getTeeExtensionInstructionsSender i = .ok sender

/-- An id is public and counted. -/
def Counted (chain : Chain) (id : Nat) : Prop :=
  firstPublicExtensionId ≤ id ∧
    ∃ counter, chain.nextPublicExtensionId = .ok counter ∧ id < counter

theorem registered_iff {chain : Chain} {file : File} (hanswers : Answers chain)
    (hsender : Passes (registrationChecks chain file) "instruction sender matches on-chain")
    (hunique : Passes (registrationChecks chain file) "unique instruction sender") :
    Registered chain.directory (hexToAddress (parseExtensionEnv file).instructionSender)
        (hexNumber (parseExtensionEnv file).extensionID) ↔
      Counted chain (hexNumber (parseExtensionEnv file).extensionID) := by
  have hnamed := sender_of_passes hsender
  obtain ⟨counter, hcounter, hfew⟩ := unique_of_passes hunique
  have hdirectory : chain.directory.nextPublicExtensionId = some counter := by
    rw [Chain.directory, hcounter]
    rfl
  constructor
  · rintro ⟨hpublic, ⟨next, hnext, hlt⟩, -, -⟩
    rw [hdirectory, Option.some.injEq] at hnext
    subst hnext
    exact ⟨hpublic, counter, hcounter, hlt⟩
  · rintro ⟨hpublic, counter', hcounter', hlt⟩
    rw [hcounter, Except.ok.injEq] at hcounter'
    subst hcounter'
    refine ⟨hpublic, ⟨counter, hdirectory, hlt⟩, ?_, fun i hle hi => ?_⟩
    · exact directory_named hnamed
    · obtain ⟨other, hother⟩ := hanswers.total counter i hcounter hle (hi.trans hlt)
      refine ⟨other, directory_named hother, fun heq => ?_⟩
      rw [heq] at hother
      have hsmall := hanswers.small counter hcounter
      have hsame := eq_of_mem_of_length hfew ((mem_matchingIDs hsmall).mpr ⟨hi.trans hlt, hother⟩)
        ((mem_matchingIDs hsmall).mpr ⟨hlt, hnamed⟩)
      omega

/-- **A report that the contract is the sender of its extension and of no other holds good**: the
first `setExtensionId` that runs against such a registry settles on the id of the file if that id is
public and counted, whatever came before it and whatever comes after. -/
theorem verified_id_settles {chain : Chain} {file : File} (hanswers : Answers chain)
    (hsender : Passes (registrationChecks chain file) "instruction sender matches on-chain")
    (hunique : Passes (registrationChecks chain file) "unique instruction sender") :
    let this := hexToAddress (parseExtensionEnv file).instructionSender
    let id := hexNumber (parseExtensionEnv file).extensionID
    ∀ past tx rest, (∀ tx' ∈ past, ∀ id', ¬ Settles this tx' id') → tx.call = .setExtensionId →
      tx.directory = chain.directory →
      (Settles this tx id ↔ Counted chain id) ∧
        (Counted chain id → (Deployed.run this (past ++ tx :: rest)).contract.extensionId = id) := by
  intro this id past tx rest hpast hcall hdirectory
  have hregistered := registered_iff hanswers hsender hunique
  have hsettles : Settles this tx id ↔ Counted chain id := by
    rw [Settles, hdirectory, and_iff_right hcall]
    exact hregistered
  refine ⟨hsettles, fun hcounted => ?_⟩
  have hfirst : FirstSettled this (past ++ tx :: rest) id :=
    ⟨past, tx, rest, rfl, hsettles.mpr hcounted, hpast⟩
  exact ((foldl_unset rfl id).mpr hfirst).1

/-! ## 8. An example -/

namespace Sample

def id : Text := ascii "0x0000000000000000000000000000000000000000000000000000000000010000"

def sender : Text := ascii "0x00000000000000000000000000000000000000aa"

def file : File := .content (prebuilt id sender)

/-- One public extension, which is the contract's. -/
def chain : Chain where
  nextPublicExtensionId := .ok 65537
  getTeeExtensionInstructionsSender i := .ok (if i = 65536 then 0xaa else 0)
  isKeyTypeSupported _ := .ok true
  isAllowedTeeMachineOwner _ := .ok true

theorem parsed : parseExtensionEnv file = ⟨id, sender⟩ := parse_prebuilt (by decide) (by decide)

theorem answers : Answers chain where
  small := by
    rintro counter ⟨⟩
    decide
  total _ _ _ _ _ := ⟨_, rfl⟩

theorem hexToAddress_sender : hexToAddress sender = 0xaa := by decide +kernel

theorem hexNumber_id : hexNumber id = 65536 := by decide +kernel

theorem registered {i : Nat}
    (h : chain.getTeeExtensionInstructionsSender i = .ok (hexToAddress sender)) : i = 65536 := by
  rw [hexToAddress_sender] at h
  by_contra hne
  have hzero : chain.getTeeExtensionInstructionsSender i = .ok 0 := congrArg _ (if_neg hne)
  rw [hzero] at h
  revert h
  decide

theorem sender_passes :
    Passes (registrationChecks chain file) "instruction sender matches on-chain" := by
  have hmem := (@senders_compared chain file 65537 rfl (by decide)
    (by rw [parsed]; decide) (by rw [parsed]; decide)).1
  rw [parsed] at hmem
  refine ⟨_, hmem, checkSender_name .., ?_⟩
  dsimp only
  rw [hexNumber_id, checkSender, hexToAddress_sender]
  rfl

theorem unique_passes :
    Passes (registrationChecks chain file) "unique instruction sender" := by
  have hmem := (@senders_compared chain file 65537 rfl (by decide)
    (by rw [parsed]; decide) (by rw [parsed]; decide)).2
  rw [parsed] at hmem
  refine ⟨_, hmem, checkUnique_name .., ?_⟩
  have hfew : ¬ 1 < (matchingIDs chain (hexToAddress sender) 65537).length := by
    have hnodup : (matchingIDs chain (hexToAddress sender) 65537).Nodup :=
      List.nodup_range.filter _
    have hall : matchingIDs chain (hexToAddress sender) 65537 ⊆ [65536] := fun i hi =>
      List.mem_singleton.mpr (registered ((mem_matchingIDs (by decide)).mp hi).2)
    exact (hnodup.length_le_of_subset hall).not_gt
  rw [checkUnique, if_neg hfew]

theorem sender_ne : (7 : Account) ≠ 0 := by decide

/-- Somebody sets the id, against the registry that was asked. -/
def tx : Latch.Sender.Transaction where
  sender := 7
  sender_ne := sender_ne
  directory := chain.directory
  registries := ⟨fun _ _ => none, fun _ _ => false⟩
  call := .setExtensionId

theorem counted : Counted chain 65536 := ⟨by decide, 65537, rfl, by decide⟩

end Sample

theorem prebuilt_passes_sample :
    parseExtensionEnv Sample.file = ⟨Sample.id, Sample.sender⟩ ∧
      (servicesExtensionID Sample.file).status = .PASS := by
  have h := @prebuilt_passes Sample.id Sample.sender (by decide) (by decide) []
  exact ⟨h.1, h.2.2.1⟩

/-- The first call, by anybody, sets the id. -/
theorem verified_id_settles_sample :
    (Deployed.run 0xaa [Sample.tx]).contract.extensionId = 65536 := by
  have h := verified_id_settles Sample.answers Sample.sender_passes Sample.unique_passes [] Sample.tx
    [] (fun _ hmem => absurd hmem List.not_mem_nil) rfl rfl
  rw [Sample.parsed] at h
  dsimp only at h
  rw [Sample.hexToAddress_sender, Sample.hexNumber_id] at h
  exact h.2 Sample.counted

end OneSig.Tools.VerifyDeploy
