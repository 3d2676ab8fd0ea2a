/-
# Bytes as UTF-8

The decoder of the Encoding Standard: a byte at a time, with the bytes a started character still
needs and the range its next byte has to lie in.  That range is what keeps out the encodings that
are longer than necessary, the surrogates and the code points beyond U+10FFFF.  A byte outside it
ends the character with a replacement character and is read again from the start, so decoding
never fails: every byte string is some text.

`State` is where the decoder stands, `step` what one byte does, `run` the rest of the bytes and
`decode` all of them from the start.  At the end of the bytes a started character becomes a
replacement character too.

Two results about decoding and two about encoding are used elsewhere:

* `length_decode`: a text has at most as many characters as there were bytes.  A byte gives one
  character or starts one, never both, which is `step_length`; this is what bounds the text that a
  message of a given length can hold.
* `decode_encode`: a text comes back from its bytes.  The proof reads a character off its one,
  two, three or four bytes (`run_encodePoint`), one lemma for each kind of first byte.
* `encode_inj`: no two texts have the same bytes.
* `zero_notMem_encode`: a text without a NUL has no zero byte.

A character is a Unicode scalar value, so a lone surrogate has no place in a text of this module.
-/
import Mathlib.Tactic.Common

namespace Utf8

/-- Where the decoder stands: no character is started when `needed` is 0. -/
structure State where
  needed : Nat
  codePoint : Nat
  lower : Nat
  upper : Nat

def State.initial : State := ⟨0, 0, 0x80, 0xBF⟩

/-- U+FFFD. -/
def replacement : Char := Char.ofNat 0xFFFD

/-- A byte read from the start. -/
def first (b : Nat) : State × List Char :=
  if b ≤ 0x7F then (.initial, [Char.ofNat b])
  else if 0xC2 ≤ b ∧ b ≤ 0xDF then (⟨1, b % 0x20, 0x80, 0xBF⟩, [])
  else if b = 0xE0 then (⟨2, b % 0x10, 0xA0, 0xBF⟩, [])
  else if b = 0xED then (⟨2, b % 0x10, 0x80, 0x9F⟩, [])
  else if 0xE1 ≤ b ∧ b ≤ 0xEF then (⟨2, b % 0x10, 0x80, 0xBF⟩, [])
  else if b = 0xF0 then (⟨3, b % 0x8, 0x90, 0xBF⟩, [])
  else if 0xF1 ≤ b ∧ b ≤ 0xF3 then (⟨3, b % 0x8, 0x80, 0xBF⟩, [])
  else if b = 0xF4 then (⟨3, b % 0x8, 0x80, 0x8F⟩, [])
  else (.initial, [replacement])

/-- One byte: the state after it and the characters it completes. -/
def step (s : State) (b : Nat) : State × List Char :=
  match s.needed with
  | 0 => first b
  | n + 1 =>
    if s.lower ≤ b ∧ b ≤ s.upper then
      let codePoint := s.codePoint * 0x40 + b % 0x40
      if n = 0 then (.initial, [Char.ofNat codePoint])
      else (⟨n, codePoint, 0x80, 0xBF⟩, [])
    else ((first b).1, replacement :: (first b).2)

/-- The characters of the rest of the bytes. -/
def run (s : State) : List UInt8 → List Char
  | [] => if s.needed = 0 then [] else [replacement]
  | b :: bs => (step s b.toNat).2 ++ run (step s b.toNat).1 bs

/-- The text of a byte string. -/
def decode (bs : List UInt8) : List Char := run .initial bs

/-- A character is started. -/
def State.pending (s : State) : Nat := if s.needed = 0 then 0 else 1

/-- A byte read from the start gives a character or starts one. -/
theorem first_length (b : Nat) : (first b).2.length + (first b).1.pending = 1 := by
  unfold first
  split_ifs <;> rfl

theorem step_length (s : State) (b : Nat) :
    (step s b).2.length + (step s b).1.pending ≤ s.pending + 1 := by
  have hfirst := first_length b
  unfold step
  split
  case h_1 hn =>
    have hs : s.pending = 0 := by simp [State.pending, hn]
    rw [hs]
    exact Nat.le_of_eq hfirst
  case h_2 n hn =>
    have hs : s.pending = 1 := by simp [State.pending, hn]
    rw [hs]
    split_ifs with hrange hzero
    · exact Nat.le_succ 1
    · simp only [State.pending, if_neg hzero, List.length_nil]
      omega
    · simp only [List.length_cons]
      omega

theorem run_length (s : State) (bs : List UInt8) : (run s bs).length ≤ s.pending + bs.length := by
  induction bs generalizing s with
  | nil =>
    unfold run State.pending
    split <;> simp
  | cons b bs ih =>
    have hstep := step_length s b.toNat
    have hrest := ih (step s b.toNat).1
    rw [run, List.length_append, List.length_cons]
    omega

/-- **A text has at most as many characters as bytes**, also where a malformed sequence is
replaced: a replacement stands for one byte at least. -/
theorem length_decode (bs : List UInt8) : (decode bs).length ≤ bs.length := by
  have h := run_length .initial bs
  have hnone : State.initial.pending = 0 := rfl
  rw [hnone, Nat.zero_add] at h
  exact h

example : decode [0x7B, 0xC3, 0xA9, 0xE1, 0x80, 0x41] =
    ['{', 'é', replacement, 'A'] := by decide

/-! ## Encoding -/

/-- The bytes of a code point. -/
def encodePoint (n : Nat) : List Nat :=
  if n < 0x80 then [n]
  else if n < 0x800 then [0xC0 + n / 0x40, 0x80 + n % 0x40]
  else if n < 0x10000 then [0xE0 + n / 0x1000, 0x80 + n / 0x40 % 0x40, 0x80 + n % 0x40]
  else [0xF0 + n / 0x40000, 0x80 + n / 0x1000 % 0x40, 0x80 + n / 0x40 % 0x40, 0x80 + n % 0x40]

/-- The bytes of a text. -/
def encode (s : List Char) : List UInt8 :=
  s.flatMap fun c => (encodePoint c.toNat).map UInt8.ofNat

/-- A character is a Unicode scalar value. -/
theorem toNat_lt (c : Char) : c.toNat < 0xD800 ∨ (0xDFFF < c.toNat ∧ c.toNat < 0x110000) := c.valid

@[simp] theorem encode_nil : encode [] = [] := rfl

theorem encode_cons (c : Char) (s : List Char) :
    encode (c :: s) = (encodePoint c.toNat).map UInt8.ofNat ++ encode s := List.flatMap_cons

/-- A byte that the decoder reads. -/
theorem run_cons {s : State} {n : Nat} (h : n < 256) (bs : List UInt8) :
    run s (UInt8.ofNat n :: bs) = (step s n).2 ++ run (step s n).1 bs := by
  rw [run, UInt8.toNat_ofNat_of_lt' h]

/-- A byte that continues a character. -/
theorem step_continue {k cp lo hi b : Nat} (h : lo ≤ b ∧ b ≤ hi) :
    step ⟨k + 1, cp, lo, hi⟩ b =
      if k = 0 then (.initial, [Char.ofNat (cp * 0x40 + b % 0x40)])
      else (⟨k, cp * 0x40 + b % 0x40, 0x80, 0xBF⟩, []) := by
  simp only [step]
  rw [if_pos h]

/-- The first byte of two. -/
theorem first_two {b : Nat} (h : 0xC2 ≤ b ∧ b ≤ 0xDF) :
    first b = (⟨1, b % 0x20, 0x80, 0xBF⟩, []) := by
  unfold first
  rw [if_neg (by omega), if_pos h]

/-- The first byte of three, with the range that leaves out the surrogates and what is shorter. -/
theorem first_three {b : Nat} (h : 0xE0 ≤ b ∧ b ≤ 0xEF) : ∃ lo hi,
    first b = (⟨2, b % 0x10, lo, hi⟩, []) ∧ lo = (if b = 0xE0 then 0xA0 else 0x80) ∧
      hi = (if b = 0xED then 0x9F else 0xBF) := by
  unfold first
  rw [if_neg (by omega), if_neg (by omega)]
  by_cases hE0 : b = 0xE0
  · exact ⟨_, _, if_pos hE0, (if_pos hE0).symm, by rw [if_neg (by omega)]⟩
  · rw [if_neg hE0, if_neg hE0]
    by_cases hED : b = 0xED
    · exact ⟨_, _, if_pos hED, rfl, (if_pos hED).symm⟩
    · rw [if_neg hED, if_pos (by omega), if_neg hED]
      exact ⟨_, _, rfl, rfl, rfl⟩

/-- The first byte of four. -/
theorem first_four {b : Nat} (h : 0xF0 ≤ b ∧ b ≤ 0xF4) : ∃ lo hi,
    first b = (⟨3, b % 0x8, lo, hi⟩, []) ∧ lo = (if b = 0xF0 then 0x90 else 0x80) ∧
      hi = (if b = 0xF4 then 0x8F else 0xBF) := by
  unfold first
  rw [if_neg (by omega), if_neg (by omega), if_neg (by omega), if_neg (by omega),
    if_neg (by omega)]
  by_cases hF0 : b = 0xF0
  · exact ⟨_, _, if_pos hF0, (if_pos hF0).symm, by rw [if_neg (by omega)]⟩
  · rw [if_neg hF0, if_neg hF0]
    by_cases hF4 : b = 0xF4
    · rw [if_neg (by omega), if_pos hF4, if_pos hF4]
      exact ⟨_, _, rfl, rfl, rfl⟩
    · rw [if_pos (by omega), if_neg hF4]
      exact ⟨_, _, rfl, rfl, rfl⟩

/-- The decoder reads a character off its bytes. -/
theorem run_encodePoint (c : Char) (bs : List UInt8) :
    run .initial ((encodePoint c.toNat).map UInt8.ofNat ++ bs) = c :: run .initial bs := by
  have hc := toNat_lt c
  have hchar : Char.ofNat c.toNat = c := Char.ofNat_toNat c
  generalize hn : c.toNat = n at hc hchar ⊢
  unfold encodePoint
  split_ifs with h1 h2 h3
  · have hfirst : step .initial n = (.initial, [Char.ofNat n]) := if_pos (by omega)
    rw [List.map_singleton, List.singleton_append, run_cons (by omega), hfirst, hchar]
    rfl
  · have hpoint : (0xC0 + n / 0x40) % 0x20 * 0x40 + (0x80 + n % 0x40) % 0x40 = n := by omega
    have hfirst := first_two (b := 0xC0 + n / 0x40) (by omega)
    simp only [List.map_cons, List.map_nil, List.cons_append, List.nil_append]
    rw [run_cons (by omega), run_cons (by omega)]
    change (first _).2 ++ ((step (first _).1 _).2 ++ run (step (first _).1 _).1 bs) = _
    rw [hfirst, step_continue (by omega), if_pos rfl, hpoint, hchar]
    rfl
  · obtain ⟨lo, hi, hfirst, hlo, hhi⟩ := first_three (b := 0xE0 + n / 0x1000) (by omega)
    have hrange : lo ≤ 0x80 + n / 0x40 % 0x40 ∧ 0x80 + n / 0x40 % 0x40 ≤ hi := by
      rw [hlo, hhi]
      split_ifs <;> omega
    have hpoint : ((0xE0 + n / 0x1000) % 0x10 * 0x40 + (0x80 + n / 0x40 % 0x40) % 0x40) * 0x40 +
        (0x80 + n % 0x40) % 0x40 = n := by omega
    simp only [List.map_cons, List.map_nil, List.cons_append, List.nil_append]
    rw [run_cons (by omega), run_cons (by omega), run_cons (by omega)]
    change (first _).2 ++ ((step (first _).1 _).2 ++ ((step (step (first _).1 _).1 _).2 ++
      run (step (step (first _).1 _).1 _).1 bs)) = _
    rw [hfirst, step_continue hrange, if_neg (by omega), step_continue (by omega), if_pos rfl,
      hpoint, hchar]
    rfl
  · obtain ⟨lo, hi, hfirst, hlo, hhi⟩ := first_four (b := 0xF0 + n / 0x40000) (by omega)
    have hrange : lo ≤ 0x80 + n / 0x1000 % 0x40 ∧ 0x80 + n / 0x1000 % 0x40 ≤ hi := by
      rw [hlo, hhi]
      split_ifs <;> omega
    have hpoint : (((0xF0 + n / 0x40000) % 0x8 * 0x40 + (0x80 + n / 0x1000 % 0x40) % 0x40) * 0x40 +
        (0x80 + n / 0x40 % 0x40) % 0x40) * 0x40 + (0x80 + n % 0x40) % 0x40 = n := by omega
    simp only [List.map_cons, List.map_nil, List.cons_append, List.nil_append]
    rw [run_cons (by omega), run_cons (by omega), run_cons (by omega), run_cons (by omega)]
    change (first _).2 ++ ((step (first _).1 _).2 ++ ((step (step (first _).1 _).1 _).2 ++
      ((step (step (step (first _).1 _).1 _).1 _).2 ++
        run (step (step (step (first _).1 _).1 _).1 _).1 bs))) = _
    rw [hfirst, step_continue hrange, if_neg (by omega), step_continue (by omega),
      if_neg (by omega), step_continue (by omega), if_pos rfl, hpoint, hchar]
    rfl

/-- **A text comes back from its bytes**: the decoder replaces nothing in what the encoder has
written, of any length and with any characters. -/
theorem decode_encode (s : List Char) : decode (encode s) = s := by
  have hrun : ∀ s, run .initial (encode s) = s := by
    intro s
    induction s with
    | nil => rfl
    | cons c s ih => rw [encode_cons, run_encodePoint, ih]
  exact hrun s

/-- A text without a NUL has no zero byte. -/
theorem zero_notMem_encode {s : List Char} (h : '\x00' ∉ s) : 0 ∉ encode s := by
  intro hmem
  obtain ⟨c, hc, hbyte⟩ := List.mem_flatMap.mp hmem
  obtain ⟨n, hn, hzero⟩ := List.mem_map.mp hbyte
  have hpoint : c.toNat ≠ 0 := by
    intro h0
    have hchar := Char.ofNat_toNat c
    rw [h0] at hchar
    exact h (hchar ▸ hc)
  have hvalid := toNat_lt c
  have hrange : 0 < n ∧ n < 256 := by
    unfold encodePoint at hn
    split_ifs at hn <;> simp only [List.mem_cons, List.not_mem_nil, or_false] at hn <;> omega
  have hnat := congrArg UInt8.toNat hzero
  rw [UInt8.toNat_ofNat_of_lt' hrange.2] at hnat
  exact absurd hnat (Nat.ne_of_gt hrange.1)

/-- No two texts have the same bytes. -/
theorem encode_inj {s t : List Char} (h : encode s = encode t) : s = t := by
  rw [← decode_encode s, h, decode_encode]

end Utf8
