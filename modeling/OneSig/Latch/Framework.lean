/-
# `Framework`: dispatch by name

A registry holds the `bytes32` of the names it was given, and a lookup compares hex texts: once
with the op command that is asked for, and once more with the empty one.  The file says why that is
a lookup by name, and where it is not.

Two conversions stand between a name and the text it is compared as.  A name is a string of UTF-16
units; `TextEncoder` makes it text, with U+FFFD for every surrogate that has no partner, and writes
the text as UTF-8.  The bytes are padded with zeros to thirty-two.  The second step loses nothing:
a name without a NUL is what is left of its `bytes32` when the padding is taken off.  The first one
loses the lone surrogates, so names are told apart by their text (`Name.scalars`), and a name that
is well formed is told apart from every other well-formed one.  On the side that asks, the normal
form of an identifier depends on the `bytes32` it spells and not on its case or prefix.

* The result is the first of the exact registrations, or else the first of the ones for every
  command, and how the two kinds are ordered among themselves plays no part (`dispatch_exact`).
* What is dispatched to was registered under a name of the same text, or for every command; for
  well-formed names that is the name itself.
* Two names of which one has a lone surrogate where the other has U+FFFD are one entry of the
  registry: the second is dispatched to the handler of the first (`lone_surrogate_dispatched`).

The names of this repository are ASCII, so nothing it registers is affected by the last point.  What
a thrown error carries is its message, as a string of units like the name in it.
-/
import OneSig.Lib.Utf16
import OneSig.Latch.HttpContract

namespace OneSig.Latch

/-! ## 1. The source -/

/-- A string of JavaScript, by its units. -/
abbrev JsString := List UInt16

/-- `new TextEncoder().encode`. -/
def TextEncoder.encode (s : JsString) : List UInt8 := Utf8.encode (Utf16.scalars s)

/-- `stringToBytes32Hex` of any string; it throws a message. -/
def Encoding.stringToBytes32Hex (s : JsString) : Except JsString Hex :=
  let encoded := TextEncoder.encode s
  if 32 < encoded.length then
    .error (Utf16.units ("string too long for bytes32 (".toList ++ intText encoded.length ++
      " bytes): ".toList) ++ s)
  else .ok (bytesToHex (encoded ++ List.replicate (32 - encoded.length) 0))

/-- The registrations: op type, op command and handler, in order. -/
structure Framework (H : Type) where
  handlers : List (Hex × Hex × H) := []
  deriving DecidableEq

namespace Framework

variable {H : Type}

def handle (opType opCommand : JsString) (handler : H) (f : Framework H) :
    Except JsString (Framework H) := do
  let t ← Encoding.stringToBytes32Hex opType
  let c ← Encoding.stringToBytes32Hex opCommand
  return ⟨f.handlers ++ [(t, c, handler)]⟩

/-- One of the two loops of `lookup`. -/
def search (f : Framework H) (t c : Hex) : Option H :=
  (f.handlers.find? fun entry => entry.1 = t ∧ entry.2.1 = c).map fun entry => entry.2.2

/-- Exact (opType, opCommand) match first, then the opCommand wildcard. -/
def lookup (f : Framework H) (opType opCommand : Json) : Except JsError (Option H) := do
  let t ← normalize opType
  let c ← normalize opCommand
  return (f.search t c).or (f.search t EMPTY_BYTES32)

/-- A `register` function: registrations, one after the other. -/
def register (entries : List (JsString × JsString × H)) : Except JsString (Framework H) :=
  entries.foldlM (fun f entry => f.handle entry.1 entry.2.1 entry.2.2) {}

end Framework

/-! ## 2. Names -/

/-- A name that a `bytes32` can hold. -/
structure Name where
  text : JsString
  noNul : 0 ∉ text
  short : (TextEncoder.encode text).length ≤ 32
  deriving DecidableEq

namespace Name

/-- The op command that stands for every one. -/
def empty : Name := ⟨[], List.not_mem_nil, Nat.zero_le _⟩

/-- The name as text: a lone surrogate is U+FFFD here. -/
def scalars (n : Name) : Str := Utf16.scalars n.text

/-- The name has no lone surrogate. -/
def wellFormed (n : Name) : Bool := Utf16.wellFormed n.text

/-- The name, padded with zeros on the right. -/
def bytes32 (n : Name) : Bytes32 where
  bytes := TextEncoder.encode n.text ++ List.replicate (32 - (TextEncoder.encode n.text).length) 0
  length_eq := by
    rw [List.length_append, List.length_replicate]
    exact Nat.add_sub_cancel' n.short

theorem stringToBytes32Hex_text (n : Name) :
    Encoding.stringToBytes32Hex n.text = .ok n.bytes32.hex := by
  rw [Encoding.stringToBytes32Hex]
  exact if_neg (Nat.not_lt.mpr n.short)

theorem hex_empty : empty.bytes32.hex = EMPTY_BYTES32 := by decide

/-- Two padded texts without a zero are one text. -/
theorem pad_inj {a b : List UInt8} {k l : Nat} (ha : 0 ∉ a) (hb : 0 ∉ b)
    (h : a ++ List.replicate k 0 = b ++ List.replicate l 0) : a = b := by
  have htake : ∀ (a : List UInt8) k, 0 ∉ a →
      (a ++ List.replicate k 0).takeWhile (fun x => decide (x ≠ 0)) = a := by
    intro a k ha
    have hall : ∀ x ∈ a, decide (x ≠ 0) = true := fun x hx =>
      decide_eq_true fun h0 => ha (h0 ▸ hx)
    rw [List.takeWhile_append_of_pos hall]
    cases k with
    | zero => simp
    | succ k => simp [List.replicate_succ]
  rw [← htake a k ha, h, htake b l hb]

theorem ext {n n' : Name} (h : n.text = n'.text) : n = n' := by
  cases n
  cases n'
  cases h
  rfl

/-- **The `bytes32` of a name tells its text**, and nothing else: two names that differ in lone
surrogates only have the same text and the same bytes. -/
theorem bytes32_eq_iff {n n' : Name} : n.bytes32 = n'.bytes32 ↔ n.scalars = n'.scalars := by
  constructor
  · intro h
    have hbytes := pad_inj (Utf8.zero_notMem_encode (Utf16.nul_notMem_scalars n.noNul))
      (Utf8.zero_notMem_encode (Utf16.nul_notMem_scalars n'.noNul)) (congrArg Bytes32.bytes h)
    exact Utf8.encode_inj hbytes
  · intro h
    have hencoded : TextEncoder.encode n.text = TextEncoder.encode n'.text := congrArg Utf8.encode h
    simp only [bytes32, hencoded]

/-- Well-formed names are told apart by their text. -/
theorem eq_of_scalars {n n' : Name} (hn : n.wellFormed = true) (hn' : n'.wellFormed = true)
    (h : n.scalars = n'.scalars) : n = n' := ext (Utf16.scalars_inj hn hn' h)

/-- No other name has the text of the empty one. -/
theorem scalars_empty {n : Name} : n.scalars = empty.scalars ↔ n = empty := by
  constructor
  · intro h
    exact ext (Utf16.scalars_eq_nil.mp h)
  · rintro rfl
    rfl

end Name

/-! ## 3. Identifiers -/

/-- A text that stands for a `bytes32`: its digits in any case, with or without a prefix. -/
def Spells (s : Str) (b : Bytes32) : Prop :=
  ∃ digits, Bytes.hexDecode digits = some b.bytes ∧
    (s = digits ∨ s = hexPrefix ++ digits ∨ s = "0X".toList ++ digits)

theorem Bytes32.hex_inj {b b' : Bytes32} (h : b.hex = b'.hex) : b = b' := by
  have hbytes := congrArg hexToBytes h
  rw [Bytes32.hex, Bytes32.hex, hexToBytes_bytesToHex, hexToBytes_bytesToHex] at hbytes
  cases b
  cases b'
  cases hbytes
  rfl

/-- Digits have no prefix of their own. -/
theorem stripPrefix_digits {digits : Str} (h : ∀ c ∈ digits, Bytes.isHexDigit c = true) :
    stripPrefix digits = digits := by
  unfold stripPrefix
  split
  · exact absurd (h 'x' (by simp)) (by decide)
  · exact absurd (h 'X' (by simp)) (by decide)
  · rfl

/-- **The normal form of an identifier is the hex of what it spells**, with or without a mark in
front and in either case. -/
theorem normalize_spells {s : Str} {b : Bytes32} (h : Spells s b) :
    normalize (.str s) = .ok b.hex := by
  obtain ⟨digits, hdecode, hs⟩ := h
  have hne : digits ≠ [] := by
    rintro rfl
    have hlen := Bytes.length_of_hexDecode hdecode
    rw [b.length_eq] at hlen
    cases hlen
  have hstrip : stripPrefix s = digits := by
    rcases hs with rfl | rfl | rfl
    · exact stripPrefix_digits (Bytes.isHexDigit_of_hexDecode hdecode)
    · rfl
    · rfl
  have hs : s ≠ [] := by
    rintro rfl
    exact hne hstrip.symm
  rw [normalize_str hs, hstrip, toLowerCase, ← Bytes.hexEncode_hexDecode _ _ hdecode]
  rfl

/-! ## 4. The lookup -/

/-- A registration under names. -/
abbrev Registration (H : Type) := Name × Name × H

namespace Framework

variable {H : Type}

/-- The registrations for this op type and op command. -/
def exact (entries : List (Registration H)) (t c : Bytes32) : List (Registration H) :=
  entries.filter fun entry => entry.1.bytes32 = t ∧ entry.2.1.bytes32 = c

/-- Those for the op type and every command. -/
def wildcard (entries : List (Registration H)) (t : Bytes32) : List (Registration H) :=
  exact entries t Name.empty.bytes32

/-- The handler an identifier is for: the first exact one, or else the first for every command. -/
def dispatch (entries : List (Registration H)) (t c : Bytes32) : Option H :=
  ((exact entries t c).head?.or (wildcard entries t).head?).map fun entry => entry.2.2

/-- The registrations as the source is given them. -/
def texts (entries : List (Registration H)) : List (JsString × JsString × H) :=
  entries.map fun entry => (entry.1.text, entry.2.1.text, entry.2.2)

/-- The registry of such registrations. -/
def named (entries : List (Registration H)) : Framework H :=
  ⟨entries.map fun entry => (entry.1.bytes32.hex, entry.2.1.bytes32.hex, entry.2.2)⟩

theorem handle_named (entries : List (Registration H)) (n k : Name) (handler : H) :
    (named entries).handle n.text k.text handler = .ok (named (entries ++ [(n, k, handler)])) := by
  rw [handle, n.stringToBytes32Hex_text, k.stringToBytes32Hex_text]
  simp only [named, List.map_append]
  rfl

/-- **Registering under names does not fail**, and the registry holds each handler under the bytes
of its two names, in the order of the registrations. -/
theorem register_texts (entries : List (Registration H)) :
    register (texts entries) = .ok (named entries) := by
  have hfold : ∀ rest earlier : List (Registration H),
      (texts rest).foldlM (fun f entry => f.handle entry.1 entry.2.1 entry.2.2) (named earlier) =
        .ok (named (earlier ++ rest)) := by
    intro rest
    induction rest with
    | nil =>
      intro earlier
      rw [List.append_nil]
      rfl
    | cons entry rest ih =>
      intro earlier
      have hrest := ih (earlier ++ [entry])
      rw [List.append_assoc, List.singleton_append] at hrest
      rw [texts, List.map_cons, List.foldlM_cons, handle_named]
      exact hrest
  exact hfold entries []

theorem search_named (entries : List (Registration H)) (t c : Bytes32) :
    (named entries).search t.hex c.hex =
      (exact entries t c).head?.map fun entry => entry.2.2 := by
  rw [search, named, List.find?_map, exact, List.head?_filter, Option.map_map]
  have hsame : (fun entry : Registration H => decide (entry.1.bytes32.hex = t.hex ∧
      entry.2.1.bytes32.hex = c.hex)) =
      fun entry => decide (entry.1.bytes32 = t ∧ entry.2.1.bytes32 = c) := by
    funext entry
    rw [Bool.eq_iff_iff, decide_eq_true_eq, decide_eq_true_eq]
    constructor
    · rintro ⟨ht, hc⟩
      exact ⟨Bytes32.hex_inj ht, Bytes32.hex_inj hc⟩
    · rintro ⟨rfl, rfl⟩
      exact ⟨rfl, rfl⟩
  rw [← hsame]
  rfl

theorem lookup_named (entries : List (Registration H)) {t c : Bytes32} {opType opCommand : Str}
    (ht : Spells opType t) (hc : Spells opCommand c) :
    (named entries).lookup (.str opType) (.str opCommand) = .ok (dispatch entries t c) := by
  rw [lookup, normalize_spells ht, normalize_spells hc]
  refine congrArg Except.ok ?_
  rw [← Name.hex_empty, search_named, search_named, dispatch, wildcard, Option.map_or]

theorem mem_exact {entries : List (Registration H)} {n k : Name} {entry : Registration H} :
    entry ∈ exact entries n.bytes32 k.bytes32 ↔
      entry ∈ entries ∧ entry.1.scalars = n.scalars ∧ entry.2.1.scalars = k.scalars := by
  rw [exact, List.mem_filter, decide_eq_true_eq, Name.bytes32_eq_iff, Name.bytes32_eq_iff]

/-- What is dispatched to was registered under names of the texts asked for, or for every command. -/
theorem registered_of_dispatch {entries : List (Registration H)} {n k : Name} {handler : H}
    (h : dispatch entries n.bytes32 k.bytes32 = some handler) :
    ∃ entry ∈ entries, entry.1.scalars = n.scalars ∧
      (entry.2.1.scalars = k.scalars ∨ entry.2.1 = Name.empty) ∧ entry.2.2 = handler := by
  obtain ⟨entry, hentry, rfl⟩ := Option.map_eq_some_iff.mp h
  rcases Option.or_eq_some_iff.mp hentry with hexact | ⟨-, hwild⟩
  · obtain ⟨hmem, hn, hk⟩ := mem_exact.mp (List.mem_of_mem_head? hexact)
    exact ⟨entry, hmem, hn, .inl hk, rfl⟩
  · obtain ⟨hmem, hn, hk⟩ := mem_exact.mp (List.mem_of_mem_head? hwild)
    exact ⟨entry, hmem, hn, .inr (Name.scalars_empty.mp hk), rfl⟩

/-- Registries with the same exact registrations, and the same ones for every command, dispatch
alike, however the two kinds are mixed. -/
theorem lookup_congr {entries entries' : List (Registration H)} {t c : Bytes32}
    {opType opCommand : Str} (ht : Spells opType t) (hc : Spells opCommand c)
    (hexact : exact entries t c = exact entries' t c)
    (hwild : wildcard entries t = wildcard entries' t) :
    (named entries).lookup (.str opType) (.str opCommand) =
      (named entries').lookup (.str opType) (.str opCommand) := by
  rw [lookup_named entries ht hc, lookup_named entries' ht hc, dispatch, dispatch, hexact, hwild]

/-- The handlers of the extension are registered so, and looked up here. -/
example : register ([Command.arm, .status, .cancel, .collect].map fun command =>
    (Utf16.units OP_TYPE_LATCH.toList, Utf16.units command.name.toList, command)) =
      .ok ⟨Latch.handlers⟩ := by
  decide +kernel

theorem lookupHandler_eq_lookup (opType opCommand : Json) :
    lookupHandler opType opCommand = (⟨Latch.handlers⟩ : Framework Command).lookup opType opCommand :=
  rfl

end Framework

open Framework

/-- **Dispatch is exact**: whatever is registered under names, an identifier in any spelling gets the
first handler for its op type and op command, or else the first for every command of the op type;
which registrations these are is decided by the texts of the names alone, well-formed names of one
text are one name, and mixing the two kinds in another order changes nothing. -/
theorem dispatch_exact {H : Type} (entries : List (Registration H)) :
    ∃ f, register (texts entries) = .ok f ∧
      (∀ t c opType opCommand, Spells opType t → Spells opCommand c →
        f.lookup (.str opType) (.str opCommand) = .ok (dispatch entries t c)) ∧
      (∀ (n k : Name) entry, entry ∈ exact entries n.bytes32 k.bytes32 ↔
        entry ∈ entries ∧ entry.1.scalars = n.scalars ∧ entry.2.1.scalars = k.scalars) ∧
      (∀ (n k : Name) handler, dispatch entries n.bytes32 k.bytes32 = some handler → ∃ entry ∈ entries,
        entry.1.scalars = n.scalars ∧
          (entry.2.1.scalars = k.scalars ∨ entry.2.1 = Name.empty) ∧ entry.2.2 = handler) ∧
      (∀ n n' : Name, n.wellFormed = true → n'.wellFormed = true → n.scalars = n'.scalars →
        n = n') ∧
      ∀ entries' f', register (texts entries') = .ok f' → ∀ t c opType opCommand,
        Spells opType t → Spells opCommand c → exact entries t c = exact entries' t c →
        wildcard entries t = wildcard entries' t →
        f.lookup (.str opType) (.str opCommand) = f'.lookup (.str opType) (.str opCommand) := by
  refine ⟨named entries, register_texts entries, ?_, ?_, ?_, ?_, ?_⟩
  · intro t c opType opCommand ht hc
    exact lookup_named entries ht hc
  · intro n k entry
    exact mem_exact
  · intro n k handler h
    exact registered_of_dispatch h
  · intro n n' hn hn' h
    exact Name.eq_of_scalars hn hn' h
  · intro entries' f' hregister t c opType opCommand ht hc hexact hwild
    rw [register_texts entries'] at hregister
    cases hregister
    exact lookup_congr ht hc hexact hwild

namespace Sample

def latch : Name := ⟨Utf16.units "LATCH".toList, by decide, by decide⟩

def arm : Name := ⟨Utf16.units "ARM".toList, by decide, by decide⟩

/-- U+D800, the first half of a pair with nothing behind it. -/
def lone : Name := ⟨[0xD800], by decide, by decide⟩

/-- U+FFFD. -/
def replacement : Name := ⟨[0xFFFD], by decide, by decide⟩

/-- One registration for every command, and behind it one for a command. -/
def entries : List (Registration Nat) := [(latch, .empty, 1), (latch, arm, 2)]

/-- The same in the other order. -/
def swapped : List (Registration Nat) := [(latch, arm, 2), (latch, .empty, 1)]

/-- `LATCH`, in lower case without a prefix. -/
def latchDigits : Str := "4c41544348000000000000000000000000000000000000000000000000000000".toList

/-- `U+FFFD`, in upper case. -/
def replacementDigits : Str :=
  "0XEFBFBD0000000000000000000000000000000000000000000000000000000000".toList

theorem latch_spelled : Spells latchDigits latch.bytes32 :=
  ⟨latchDigits, by decide +kernel, .inl rfl⟩

theorem arm_spelled : Spells arm.bytes32.hex arm.bytes32 :=
  ⟨_, by decide +kernel, .inr (.inl rfl)⟩

theorem replacement_spelled : Spells replacementDigits replacement.bytes32 :=
  ⟨replacementDigits.drop 2, by decide +kernel, .inr (.inr rfl)⟩

end Sample

/-- The command has its own handler in either order, an op command that nothing is registered for gets
the one for every command, and an op type that nothing is registered for gets none. -/
theorem dispatch_exact_sample : ∃ f f', register (texts Sample.entries) = .ok f ∧
    register (texts Sample.swapped) = .ok f' ∧
    f.lookup (.str Sample.latchDigits) (.str Sample.arm.bytes32.hex) = .ok (some 2) ∧
    f'.lookup (.str Sample.latchDigits) (.str Sample.arm.bytes32.hex) = .ok (some 2) ∧
    f.lookup (.str Sample.latchDigits) (.str Sample.replacementDigits) = .ok (some 1) ∧
    f.lookup (.str Sample.replacementDigits) (.str Sample.latchDigits) = .ok none := by
  obtain ⟨f, hregister, hlookup, -, -, -, hmixed⟩ := dispatch_exact Sample.entries
  obtain ⟨f', hregister', -⟩ := dispatch_exact Sample.swapped
  have harm := hlookup _ _ _ _ Sample.latch_spelled Sample.arm_spelled
  have hsame := hmixed Sample.swapped f' hregister' _ _ _ _ Sample.latch_spelled
    Sample.arm_spelled (by decide +kernel) (by decide +kernel)
  have hother := hlookup _ _ _ _ Sample.latch_spelled Sample.replacement_spelled
  have hunknown := hlookup _ _ _ _ Sample.replacement_spelled Sample.latch_spelled
  have hdispatch : dispatch Sample.entries Sample.latch.bytes32 Sample.arm.bytes32 = some 2 := by
    decide +kernel
  have hwild : dispatch Sample.entries Sample.latch.bytes32 Sample.replacement.bytes32 = some 1 := by
    decide +kernel
  have hnone : dispatch Sample.entries Sample.replacement.bytes32 Sample.latch.bytes32 = none := by
    decide +kernel
  rw [hdispatch] at harm
  rw [hwild] at hother
  rw [hnone] at hunknown
  exact ⟨f, f', hregister, hregister', harm, hsame ▸ harm, hother, hunknown⟩

/-- **Two names, one entry**: U+FFFD is dispatched to the handler that was registered under a lone
surrogate. -/
theorem lone_surrogate_dispatched :
    Sample.lone ≠ Sample.replacement ∧ Sample.lone.wellFormed = false ∧
      ∃ f, register (texts [(Sample.lone, .empty, 1), (Sample.replacement, .empty, 2)]) = .ok f ∧
        f.lookup (.str Sample.replacement.bytes32.hex) (.str Name.empty.bytes32.hex) =
          .ok (some 1) := by
  refine ⟨by decide, by decide, named _, register_texts _, ?_⟩
  decide +kernel

end OneSig.Latch
