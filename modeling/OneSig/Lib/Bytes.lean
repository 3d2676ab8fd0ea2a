/-
# Big-endian integers and hexadecimal text

Two ways of writing a byte string that every wire format here is built from: a natural number as a
fixed number of bytes, most significant first, and a byte string as hexadecimal text, two digits a
byte.  Text is a list of characters, a byte string a list of bytes.

The writing functions are total.  The reading functions are total on what they are given and
partial where the format is: a digit has a value or it has none, and a text denotes a byte string
or it does not.  A number that is too large for its width loses its upper bytes, as an assignment
to a fixed-width integer does.

* `beNat_beBytes`: reading back what was written gives the number modulo `256 ^ w`, hence the
  number itself when it fits.  `beBytes_beNat` is the converse, for a byte string of any length.
* `hexDecode_hexEncode`: decoding undoes encoding.
* `hexEncode_hexDecode`: encoding what was decoded gives the text in lower case.  Together with
  `hexDecode_total` this is `hexDecode_eq_some_iff`: a text denotes a byte string exactly when its
  lower-case spelling is the encoding of it.
* `hexNat_hexEncode`: the numeral that a text of digits is denotes the number of its bytes.

`hexDecodePrefix` is the lenient reader, which stops at the first pair that is no pair of digits
and keeps what it has; on a text that decodes the two readers agree.

Facts about single digits are checked digit by digit, over the 22 characters that are one in
either case (`forall_anyHexDigits`), and lifted to texts by induction.
-/
import Mathlib.Algebra.Group.Nat.Defs
import Mathlib.Data.List.Induction
import Mathlib.Tactic.Common

namespace Bytes

/-! ## 1. Big-endian integers -/

/-- The `w` lowest bytes of `n`, most significant first. -/
def beBytes : (w : Nat) → Nat → List UInt8
  | 0, _ => []
  | w + 1, n => beBytes w (n / 256) ++ [UInt8.ofNat n]

/-- The number a big-endian byte string denotes. -/
def beNat (bs : List UInt8) : Nat := bs.foldl (fun n b => n * 256 + b.toNat) 0

@[simp] theorem length_beBytes (w n : Nat) : (beBytes w n).length = w := by
  induction w generalizing n with
  | zero => rfl
  | succ w ih => simp [beBytes, ih]

theorem beNat_concat (bs : List UInt8) (b : UInt8) :
    beNat (bs ++ [b]) = beNat bs * 256 + b.toNat := by
  simp [beNat]

/-- **Reading back what was written** loses only what did not fit: a number comes back modulo the
range of the bytes it was written to. -/
theorem beNat_beBytes (w n : Nat) : beNat (beBytes w n) = n % 256 ^ w := by
  induction w generalizing n with
  | zero => simp [beBytes, beNat, Nat.mod_one]
  | succ w ih =>
    have hb : (UInt8.ofNat n).toNat = n % 256 := by simp
    rw [beBytes, beNat_concat, ih, hb, Nat.pow_succ, Nat.mul_comm (256 ^ w) 256, Nat.mod_mul]
    omega

theorem beNat_beBytes_of_lt {w n : Nat} (h : n < 256 ^ w) : beNat (beBytes w n) = n := by
  rw [beNat_beBytes, Nat.mod_eq_of_lt h]

theorem beNat_lt (bs : List UInt8) : beNat bs < 256 ^ bs.length := by
  induction bs using List.reverseRecOn with
  | nil => exact Nat.one_pos
  | append_singleton bs b ih =>
    have hb := b.toNat_lt
    rw [beNat_concat, List.length_append, List.length_singleton, Nat.pow_succ]
    omega

/-- **Writing back what was read**: a byte string is the bytes of its number, at its own length,
so leading zeros are not lost. -/
theorem beBytes_beNat (bs : List UInt8) : beBytes bs.length (beNat bs) = bs := by
  induction bs using List.reverseRecOn with
  | nil => rfl
  | append_singleton bs b ih =>
    have hb := b.toNat_lt
    have hquot : (beNat bs * 256 + b.toNat) / 256 = beNat bs := by omega
    have hrest : UInt8.ofNat (beNat bs * 256 + b.toNat) = b := by
      apply UInt8.toNat_inj.mp
      rw [UInt8.toNat_ofNat']
      omega
    rw [beNat_concat, List.length_append, List.length_singleton, beBytes, hquot, hrest, ih]

/-- Byte strings of one length are told apart by their numbers. -/
theorem beNat_inj {bs bs' : List UInt8} (hlen : bs.length = bs'.length)
    (h : beNat bs = beNat bs') : bs = bs' := by
  rw [← beBytes_beNat bs, ← beBytes_beNat bs', hlen, h]

/-! ## 2. Hexadecimal digits -/

/-- The value of a hexadecimal digit, in either case. -/
def hexVal (c : Char) : Option Nat :=
  if '0' ≤ c ∧ c ≤ '9' then some (c.toNat - '0'.toNat)
  else if 'a' ≤ c ∧ c ≤ 'f' then some (c.toNat - 'a'.toNat + 10)
  else if 'A' ≤ c ∧ c ≤ 'F' then some (c.toNat - 'A'.toNat + 10)
  else none

/-- `[0-9a-fA-F]`. -/
def isHexDigit (c : Char) : Bool := (hexVal c).isSome

/-- `[0-9a-f]`. -/
def isLowerHexDigit (c : Char) : Bool := isHexDigit c && c.toLower == c

/-- The digits of the base-16 numerals, in lower case. -/
def hexDigits : List Char :=
  ['0', '1', '2', '3', '4', '5', '6', '7', '8', '9', 'a', 'b', 'c', 'd', 'e', 'f']

/-- Every hexadecimal digit, in either case. -/
def anyHexDigits : List Char := hexDigits ++ ['A', 'B', 'C', 'D', 'E', 'F']

/-- The digits by their numbers. -/
theorem isHexDigit_iff {c : Char} : isHexDigit c = true ↔ (48 ≤ c.toNat ∧ c.toNat ≤ 57) ∨
    (97 ≤ c.toNat ∧ c.toNat ≤ 102) ∨ (65 ≤ c.toNat ∧ c.toNat ≤ 70) := by
  have hle : ∀ a b : Char, a ≤ b ↔ a.toNat ≤ b.toNat := fun _ _ => Iff.rfl
  have h0 : '0'.toNat = 48 := rfl
  have h9 : '9'.toNat = 57 := rfl
  have ha : 'a'.toNat = 97 := rfl
  have hf : 'f'.toNat = 102 := rfl
  have hA : 'A'.toNat = 65 := rfl
  have hF : 'F'.toNat = 70 := rfl
  unfold isHexDigit hexVal
  simp only [hle, h0, h9, ha, hf, hA, hF]
  split_ifs <;> simp <;> omega

/-- Lower case moves the capital letters, and nothing else. -/
theorem toNat_toLower (c : Char) : c.toLower.toNat =
    if 65 ≤ c.toNat ∧ c.toNat ≤ 90 then c.toNat + 32 else c.toNat := by
  have hA : ('A' : Char).val.toNat = 65 := rfl
  have hZ : ('Z' : Char).val.toNat = 90 := rfl
  have hc : c.toNat = c.val.toNat := rfl
  unfold Char.toLower
  simp only [ge_iff_le, UInt32.le_iff_toNat_le, hA, hZ, ← hc]
  split_ifs with h
  · have hshift : ('a'.val - 'A'.val : UInt32).toNat = 32 := rfl
    change (c.val + ('a'.val - 'A'.val)).toNat = _
    rw [UInt32.toNat_add, hshift, ← hc]
    omega
  · rfl

theorem isHexDigit_toLower {c : Char} : isHexDigit c.toLower = true ↔ isHexDigit c = true := by
  rw [isHexDigit_iff, isHexDigit_iff, toNat_toLower]
  split_ifs <;> omega

theorem toNat_toUpper (c : Char) : c.toUpper.toNat =
    if 97 ≤ c.toNat ∧ c.toNat ≤ 122 then c.toNat - 32 else c.toNat := by
  have ha : ('a' : Char).val.toNat = 97 := rfl
  have hz : ('z' : Char).val.toNat = 122 := rfl
  have hc : c.toNat = c.val.toNat := rfl
  unfold Char.toUpper
  simp only [UInt32.le_iff_toNat_le, ha, hz, ← hc]
  split_ifs with h
  · have hshift : ('A'.val - 'a'.val : UInt32).toNat = 4294967264 := rfl
    change (c.val + ('A'.val - 'a'.val)).toNat = _
    rw [UInt32.toNat_add, hshift, ← hc]
    omega
  · rfl

theorem isHexDigit_toUpper {c : Char} : isHexDigit c.toUpper = true ↔ isHexDigit c = true := by
  rw [isHexDigit_iff, isHexDigit_iff, toNat_toUpper]
  split_ifs <;> omega

theorem mem_anyHexDigits {c : Char} (h : isHexDigit c = true) : c ∈ anyHexDigits := by
  have hrange := isHexDigit_iff.mp h
  have hcases : c.toNat ∈ [48, 49, 50, 51, 52, 53, 54, 55, 56, 57, 97, 98, 99, 100, 101, 102,
      65, 66, 67, 68, 69, 70] := by
    simp only [List.mem_cons, List.not_mem_nil, or_false]
    omega
  have hmap : Char.ofNat c.toNat ∈ anyHexDigits := by
    generalize c.toNat = n at hcases
    revert n
    decide
  rwa [Char.ofNat_toNat] at hmap

/-- A property of every digit is checked digit by digit. -/
theorem forall_anyHexDigits {p : Char → Prop} [DecidablePred p]
    (h : anyHexDigits.all (fun c => decide (p c)) = true) : ∀ c ∈ anyHexDigits, p c :=
  fun c hc => of_decide_eq_true (List.all_eq_true.mp h c hc)

/-- What a hexadecimal digit is in the other spellings of it. -/
theorem hexVal_case : ∀ c ∈ anyHexDigits,
    hexVal c.toLower = hexVal c ∧ hexVal c.toUpper = hexVal c ∧ isLowerHexDigit c.toLower = true :=
  forall_anyHexDigits (by decide)

theorem hexVal_toUpper {c : Char} (h : isHexDigit c = true) : hexVal c.toUpper = hexVal c :=
  (hexVal_case c (mem_anyHexDigits h)).2.1

theorem isHexDigit_of_lower {c : Char} (h : isLowerHexDigit c = true) : isHexDigit c = true := by
  rw [isLowerHexDigit, Bool.and_eq_true] at h
  exact h.1

theorem toLower_of_lower {c : Char} (h : isLowerHexDigit c = true) : c.toLower = c := by
  rw [isLowerHexDigit, Bool.and_eq_true, beq_iff_eq] at h
  exact h.2

theorem hexVal_lt {c : Char} {n : Nat} (h : hexVal c = some n) : n < 16 := by
  have hc : isHexDigit c = true := by rw [isHexDigit, h]; rfl
  have hall : ∀ c ∈ anyHexDigits, (hexVal c).all (fun n => decide (n < 16)) = true :=
    forall_anyHexDigits (by decide)
  have hlt := hall c (mem_anyHexDigits hc)
  rw [h] at hlt
  exact of_decide_eq_true hlt

/-- The digit of a value below 16. -/
def hexDigit (n : Nat) : Char := hexDigits.getD n '0'

theorem hexVal_hexDigit : ∀ n, n < 16 → hexVal (hexDigit n) = some n := by decide

theorem isLowerHexDigit_hexDigit : ∀ n, n < 16 → isLowerHexDigit (hexDigit n) = true := by decide

/-- The digit of a digit's value is the digit in lower case. -/
theorem hexDigit_hexVal {c : Char} {n : Nat} (h : hexVal c = some n) : hexDigit n = c.toLower := by
  have hc : isHexDigit c = true := by rw [isHexDigit, h]; rfl
  have hall : ∀ c ∈ anyHexDigits, (hexVal c).map hexDigit = some c.toLower :=
    forall_anyHexDigits (by decide)
  have := hall c (mem_anyHexDigits hc)
  rw [h] at this
  simpa using this

/-! ## 3. Byte strings as text -/

/-- One byte as two digits. -/
def byteHex (b : UInt8) : List Char := [hexDigit (b.toNat / 16), hexDigit (b.toNat % 16)]

/-- A byte string as text. -/
def hexEncode (bs : List UInt8) : List Char := bs.flatMap byteHex

/-- The byte string a text denotes; `none` at an odd length or a character that is no digit. -/
def hexDecode : List Char → Option (List UInt8)
  | [] => some []
  | [_] => none
  | a :: b :: rest =>
    match hexVal a, hexVal b with
    | some x, some y => (hexDecode rest).map (UInt8.ofNat (x * 16 + y) :: ·)
    | _, _ => none

/-- The bytes of the leading pairs of digits, up to the first pair that is none. -/
def hexDecodePrefix : List Char → List UInt8
  | a :: b :: rest =>
    match hexVal a, hexVal b with
    | some x, some y => UInt8.ofNat (x * 16 + y) :: hexDecodePrefix rest
    | _, _ => []
  | _ => []

@[simp] theorem hexEncode_cons (b : UInt8) (bs : List UInt8) :
    hexEncode (b :: bs) = hexDigit (b.toNat / 16) :: hexDigit (b.toNat % 16) :: hexEncode bs := rfl

@[simp] theorem length_hexEncode (bs : List UInt8) : (hexEncode bs).length = 2 * bs.length := by
  induction bs with
  | nil => rfl
  | cons b bs ih => rw [hexEncode_cons, List.length_cons, List.length_cons, ih, List.length_cons]; omega

theorem hexEncode_lower (bs : List UInt8) : ∀ c ∈ hexEncode bs, isLowerHexDigit c = true := by
  induction bs with
  | nil => simp [hexEncode]
  | cons b bs ih =>
    have hb : b.toNat < 256 := b.toNat_lt
    intro c hc
    rw [hexEncode_cons, List.mem_cons, List.mem_cons] at hc
    rcases hc with rfl | rfl | hc
    · exact isLowerHexDigit_hexDigit _ (by omega)
    · exact isLowerHexDigit_hexDigit _ (by omega)
    · exact ih c hc

/-- **Decoding undoes encoding**: the two digits written for a byte are read as that byte,
whatever stands behind them. -/
theorem hexDecode_hexEncode (bs : List UInt8) : hexDecode (hexEncode bs) = some bs := by
  induction bs with
  | nil => rfl
  | cons b bs ih =>
    have hb : b.toNat < 256 := b.toNat_lt
    have hbyte : UInt8.ofNat (b.toNat / 16 * 16 + b.toNat % 16) = b := by
      rw [Nat.div_add_mod', UInt8.ofNat_toNat]
    rw [hexEncode_cons, hexDecode, hexVal_hexDigit _ (by omega), hexVal_hexDigit _ (by omega), ih]
    simp [hbyte]

/-- Upper-casing the digits does not change what they denote. -/
theorem hexDecode_toUpper : ∀ s : List Char, (∀ c ∈ s, isHexDigit c = true) →
    hexDecode (s.map Char.toUpper) = hexDecode s
  | [], _ => rfl
  | [_], _ => rfl
  | a :: b :: rest, h => by
    have ha := hexVal_toUpper (h a (by simp))
    have hb := hexVal_toUpper (h b (by simp))
    have ih := hexDecode_toUpper rest (fun c hc => h c (by simp [hc]))
    simp only [List.map_cons, hexDecode, ha, hb, ih]

/-- **Encoding a decoded text lower-cases it**: the digits are written in lower case, and their
case is all that decoding forgets. -/
theorem hexEncode_hexDecode : ∀ (s : List Char) (bs : List UInt8), hexDecode s = some bs →
    hexEncode bs = s.map Char.toLower
  | [], bs, h => by
    simp only [hexDecode, Option.some.injEq] at h
    rw [← h]
    rfl
  | [_], _, h => by simp [hexDecode] at h
  | a :: b :: rest, bs, h => by
    rw [hexDecode] at h
    split at h
    case h_2 => simp at h
    case h_1 x y hx hy =>
      obtain ⟨bs', hbs, rfl⟩ := Option.map_eq_some_iff.mp h
      have hxlt := hexVal_lt hx
      have hylt := hexVal_lt hy
      have hnat : (UInt8.ofNat (x * 16 + y)).toNat = x * 16 + y := by
        rw [UInt8.toNat_ofNat', Nat.mod_eq_of_lt (by omega)]
      rw [hexEncode_cons, hnat, hexEncode_hexDecode rest bs' hbs, List.map_cons, List.map_cons,
        ← hexDigit_hexVal hx, ← hexDigit_hexVal hy]
      congr 2
      · omega
      · congr 1
        omega

theorem length_of_hexDecode {s : List Char} {bs : List UInt8} (h : hexDecode s = some bs) :
    s.length = 2 * bs.length := by
  rw [← length_hexEncode, hexEncode_hexDecode s bs h, List.length_map]

/-- A text that decodes is made of digits. -/
theorem isHexDigit_of_hexDecode : ∀ {s : List Char} {bs : List UInt8}, hexDecode s = some bs →
    ∀ c ∈ s, isHexDigit c = true
  | [], _, _, _, hc => by cases hc
  | [_], _, h, _, _ => by simp [hexDecode] at h
  | a :: b :: rest, bs, h, c, hc => by
    rw [hexDecode] at h
    split at h
    case h_2 => simp at h
    case h_1 x y hx hy =>
      obtain ⟨bs', hbs, rfl⟩ := Option.map_eq_some_iff.mp h
      rw [List.mem_cons, List.mem_cons] at hc
      rcases hc with rfl | rfl | hc
      · rw [isHexDigit, hx]
        rfl
      · rw [isHexDigit, hy]
        rfl
      · exact isHexDigit_of_hexDecode hbs c hc

/-- Any even number of digits denotes a byte string. -/
theorem hexDecode_total : ∀ s : List Char, (∀ c ∈ s, isHexDigit c = true) → s.length % 2 = 0 →
    ∃ bs, hexDecode s = some bs
  | [], _, _ => ⟨[], rfl⟩
  | [_], _, h => by simp at h
  | a :: b :: rest, h, hlen => by
    obtain ⟨x, hx⟩ := Option.isSome_iff_exists.mp (h a (by simp))
    obtain ⟨y, hy⟩ := Option.isSome_iff_exists.mp (h b (by simp))
    have hlen' : rest.length % 2 = 0 := by
      simp only [List.length_cons] at hlen
      omega
    obtain ⟨bs, hbs⟩ := hexDecode_total rest (fun c hc => h c (by simp [hc])) hlen'
    exact ⟨UInt8.ofNat (x * 16 + y) :: bs, by rw [hexDecode, hx, hy, hbs]; rfl⟩

/-- **What a text denotes, by its spelling in lower case**: some bytes are read from it exactly if
that spelling is their encoding. -/
theorem hexDecode_eq_some_iff {s : List Char} {bs : List UInt8} :
    hexDecode s = some bs ↔ s.map Char.toLower = hexEncode bs := by
  constructor
  · intro h
    exact (hexEncode_hexDecode s bs h).symm
  · intro h
    have hlen : s.length = 2 * bs.length := by
      rw [← length_hexEncode, ← h, List.length_map]
    have hdigits : ∀ c ∈ s, isHexDigit c = true := by
      intro c hc
      rw [← isHexDigit_toLower]
      have hmem : c.toLower ∈ hexEncode bs := h ▸ List.mem_map_of_mem hc
      exact isHexDigit_of_lower (hexEncode_lower bs _ hmem)
    obtain ⟨bs', hbs'⟩ := hexDecode_total s hdigits (by omega)
    have hsame : hexEncode bs' = hexEncode bs := (hexEncode_hexDecode s bs' hbs').trans h
    have hdecode := hexDecode_hexEncode bs
    rw [← hsame, hexDecode_hexEncode] at hdecode
    rw [hbs', hdecode]

theorem hexEncode_append (a b : List UInt8) : hexEncode (a ++ b) = hexEncode a ++ hexEncode b :=
  List.flatMap_append

/-- A text is decoded part by part. -/
theorem hexDecode_split {s : List Char} {a b : List UInt8} (h : hexDecode s = some (a ++ b)) :
    hexDecode (s.take (2 * a.length)) = some a ∧ hexDecode (s.drop (2 * a.length)) = some b := by
  rw [hexDecode_eq_some_iff, hexEncode_append] at h
  rw [hexDecode_eq_some_iff, hexDecode_eq_some_iff, List.map_take, List.map_drop, h,
    ← length_hexEncode]
  exact ⟨List.take_left, List.drop_left⟩

/-- A text that decodes is its own leading part. -/
theorem hexDecodePrefix_of_hexDecode : ∀ (s : List Char) (bs : List UInt8), hexDecode s = some bs →
    hexDecodePrefix s = bs
  | [], bs, h => by simpa [hexDecode, hexDecodePrefix] using h
  | [_], _, h => by simp [hexDecode] at h
  | a :: b :: rest, bs, h => by
    rw [hexDecode] at h
    split at h
    case h_2 => simp at h
    case h_1 x y hx hy =>
      obtain ⟨bs', hbs, rfl⟩ := Option.map_eq_some_iff.mp h
      rw [hexDecodePrefix, hx, hy, hexDecodePrefix_of_hexDecode rest bs' hbs]

/-! ## 4. Hexadecimal numerals -/

/-- The number a text of digits denotes; `none` when some character is no digit. -/
def hexNat (s : List Char) : Option Nat :=
  s.foldlM (fun n c => (hexVal c).map (n * 16 + ·)) 0

theorem hexNat_hexEncode (bs : List UInt8) : hexNat (hexEncode bs) = some (beNat bs) := by
  have hgen : ∀ (bs : List UInt8) (n : Nat),
      (hexEncode bs).foldlM (fun n c => (hexVal c).map (n * 16 + ·)) n
        = some (bs.foldl (fun n b => n * 256 + b.toNat) n) := by
    intro bs
    induction bs with
    | nil => intro n; rfl
    | cons b bs ih =>
      intro n
      have hb : b.toNat < 256 := b.toNat_lt
      rw [hexEncode_cons, List.foldlM_cons, hexVal_hexDigit _ (by omega), Option.map_some,
        Option.bind_eq_bind, Option.bind_some, List.foldlM_cons, hexVal_hexDigit _ (by omega),
        Option.map_some, Option.bind_eq_bind, Option.bind_some, ih, List.foldl_cons]
      congr 2
      omega
  exact hgen bs 0

end Bytes
