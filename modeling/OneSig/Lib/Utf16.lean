/-
# Strings of UTF-16 units

A string of JavaScript is a list of 16-bit units, and any list is one.  Two units that are a high
and a low surrogate, in this order, are one character beyond U+FFFF; every other unit is to be read
alone, and a surrogate that has to be read alone stands for nothing.  Where such a string has to
become text, each of these becomes U+FFFD (`scalars`, the conversion that `TextEncoder` and
`toWellFormed` make), and that is where the string is not kept: two strings that differ in a lone
surrogate, or of which one has U+FFFD in its place, are one text.

* `scalars` is the reading, by the two units in front; `wellFormed` says that no surrogate was read
  alone.
* `units` writes a text back, and on a well-formed string it is the inverse of the reading
  (`units_scalars`).  So well-formed strings are told apart by their text (`scalars_inj`).
* The reading loses no unit: a string that is not empty has a text that is not (`scalars_eq_nil`),
  and no NUL comes out that did not go in (`nul_notMem_scalars`).

The other half, that strings which are not well formed may be one text, is not a lemma of this file:
whoever reads a string by its text has to say what becomes of them.
-/
import OneSig.Lib.Utf8

namespace Utf16

/-- The first of the two units of a character. -/
def isHigh (u : UInt16) : Bool := 0xD800 ≤ u.toNat && u.toNat ≤ 0xDBFF

/-- The second of them. -/
def isLow (u : UInt16) : Bool := 0xDC00 ≤ u.toNat && u.toNat ≤ 0xDFFF

def isSurrogate (u : UInt16) : Bool := isHigh u || isLow u

/-- A unit that is read alone. -/
def single (u : UInt16) : Char := if isSurrogate u then Utf8.replacement else Char.ofNat u.toNat

/-- Two units that are one character. -/
def pair (u v : UInt16) : Char :=
  Char.ofNat (0x10000 + (u.toNat - 0xD800) * 0x400 + (v.toNat - 0xDC00))

/-- The text of a string, a lone surrogate read as U+FFFD. -/
def scalars : List UInt16 → List Char
  | [] => []
  | [u] => [single u]
  | u :: v :: rest =>
    if isHigh u && isLow v then pair u v :: scalars rest else single u :: scalars (v :: rest)

/-- No surrogate is read alone. -/
def wellFormed : List UInt16 → Bool
  | [] => true
  | [u] => !isSurrogate u
  | u :: v :: rest =>
    if isHigh u && isLow v then wellFormed rest else !isSurrogate u && wellFormed (v :: rest)

/-- The units of a code point. -/
def unitsOf (n : Nat) : List UInt16 :=
  if n < 0x10000 then [UInt16.ofNat n]
  else [UInt16.ofNat (0xD800 + (n - 0x10000) / 0x400), UInt16.ofNat (0xDC00 + (n - 0x10000) % 0x400)]

/-- The string of a text. -/
def units (s : List Char) : List UInt16 := s.flatMap fun c => unitsOf c.toNat

example : scalars [0x41, 0xD83D, 0xDE00, 0xDE00, 0xD83D] =
    ['A', Char.ofNat 0x1F600, Utf8.replacement, Utf8.replacement] := by decide

/-! ## A unit alone, and two -/

theorem toNat_ofNat {n : Nat} (h : n.isValidChar) : (Char.ofNat n).toNat = n := by
  unfold Char.ofNat
  rw [dif_pos h]
  rfl

theorem toNat_single {u : UInt16} (hs : isSurrogate u = false) : (single u).toNat = u.toNat := by
  have h := hs
  have hlt := u.toNat_lt
  simp only [isSurrogate, isHigh, isLow, Bool.or_eq_false_iff, Bool.and_eq_false_iff,
    decide_eq_false_iff_not] at h
  have hvalid : u.toNat.isValidChar := by
    rw [Nat.isValidChar]
    omega
  rw [single, if_neg (Bool.eq_false_iff.mp hs), toNat_ofNat hvalid]

theorem toNat_pair {u v : UInt16} (h : (isHigh u && isLow v) = true) :
    (pair u v).toNat = 0x10000 + (u.toNat - 0xD800) * 0x400 + (v.toNat - 0xDC00) := by
  simp only [isHigh, isLow, Bool.and_eq_true, decide_eq_true_eq] at h
  have hvalid : (0x10000 + (u.toNat - 0xD800) * 0x400 + (v.toNat - 0xDC00)).isValidChar := by
    rw [Nat.isValidChar]
    omega
  rw [pair, toNat_ofNat hvalid]

/-- A unit that is no surrogate comes back from its character. -/
theorem unitsOf_single {u : UInt16} (h : isSurrogate u = false) :
    unitsOf (single u).toNat = [u] := by
  rw [toNat_single h, unitsOf, if_pos u.toNat_lt, UInt16.ofNat_toNat]

/-- Two units come back from theirs. -/
theorem unitsOf_pair {u v : UInt16} (h : (isHigh u && isLow v) = true) :
    unitsOf (pair u v).toNat = [u, v] := by
  rw [toNat_pair h, unitsOf, if_neg (by omega)]
  simp only [isHigh, isLow, Bool.and_eq_true, decide_eq_true_eq] at h
  have hhigh : 0xD800 + (0x10000 + (u.toNat - 0xD800) * 0x400 + (v.toNat - 0xDC00) - 0x10000) / 0x400 =
      u.toNat := by omega
  have hlow : 0xDC00 + (0x10000 + (u.toNat - 0xD800) * 0x400 + (v.toNat - 0xDC00) - 0x10000) % 0x400 =
      v.toNat := by omega
  rw [hhigh, hlow, UInt16.ofNat_toNat, UInt16.ofNat_toNat]

/-! ## The reading -/

/-- A text is the characters' units in a row. -/
theorem units_cons (c : Char) (s : List Char) : units (c :: s) = unitsOf c.toNat ++ units s :=
  List.flatMap_cons

/-- **A well-formed string comes back from its text**: with no lone surrogate in it, nothing is
replaced, and each character gives the units it was read from. -/
theorem units_scalars {s : List UInt16} (h : wellFormed s = true) : units (scalars s) = s := by
  induction s using scalars.induct with
  | case1 => rfl
  | case2 u =>
    rw [wellFormed, Bool.not_eq_true'] at h
    rw [scalars, units_cons, unitsOf_single h]
    rfl
  | case3 u v rest hpair ih =>
    rw [wellFormed, if_pos hpair] at h
    rw [scalars, if_pos hpair, units_cons, unitsOf_pair hpair, ih h]
    rfl
  | case4 u v rest hpair ih =>
    rw [wellFormed, if_neg hpair, Bool.and_eq_true, Bool.not_eq_true'] at h
    rw [scalars, if_neg hpair, units_cons, unitsOf_single h.1, ih h.2]
    rfl

/-- Well-formed strings of one text are one string. -/
theorem scalars_inj {s t : List UInt16} (hs : wellFormed s = true) (ht : wellFormed t = true)
    (h : scalars s = scalars t) : s = t := by
  rw [← units_scalars hs, h, units_scalars ht]

/-- Nothing reads as nothing, and only that. -/
theorem scalars_eq_nil {s : List UInt16} : scalars s = [] ↔ s = [] := by
  constructor
  · intro h
    cases s using scalars.fun_cases with
    | case1 => rfl
    | case2 u => cases h
    | case3 u v rest hpair =>
      rw [scalars, if_pos hpair] at h
      cases h
    | case4 u v rest hpair =>
      rw [scalars, if_neg hpair] at h
      cases h
  · rintro rfl
    rfl

/-- A unit read alone is NUL only if it is one. -/
theorem single_ne_nul {u : UInt16} (h : u ≠ 0) : single u ≠ '\x00' := by
  intro hnul
  cases hs : isSurrogate u with
  | true =>
    rw [single, if_pos hs] at hnul
    exact absurd hnul (by decide)
  | false =>
    have hzero := toNat_single hs
    rw [hnul] at hzero
    exact h (UInt16.toNat_inj.mp hzero.symm)

theorem pair_ne_nul {u v : UInt16} (h : (isHigh u && isLow v) = true) : pair u v ≠ '\x00' := by
  intro hnul
  have hpoint := toNat_pair h
  rw [hnul] at hpoint
  have hzero : '\x00'.toNat = 0 := rfl
  omega

/-- No NUL comes out that did not go in. -/
theorem nul_notMem_scalars {s : List UInt16} (h : 0 ∉ s) : '\x00' ∉ scalars s := by
  induction s using scalars.induct with
  | case1 => exact List.not_mem_nil
  | case2 u =>
    rw [scalars, List.mem_singleton]
    exact fun hnul => single_ne_nul (fun hu => h (List.mem_singleton.mpr hu.symm)) hnul.symm
  | case3 u v rest hpair ih =>
    have hrest : 0 ∉ rest := fun hmem => h (List.mem_cons_of_mem u (List.mem_cons_of_mem v hmem))
    rw [scalars, if_pos hpair, List.mem_cons, not_or]
    exact ⟨fun hnul => pair_ne_nul hpair hnul.symm, ih hrest⟩
  | case4 u v rest hpair ih =>
    obtain ⟨hu, hrest⟩ := List.ne_and_not_mem_of_not_mem_cons h
    rw [scalars, if_neg hpair, List.mem_cons, not_or]
    exact ⟨fun hnul => single_ne_nul (Ne.symm hu) hnul.symm, ih hrest⟩

end Utf16
