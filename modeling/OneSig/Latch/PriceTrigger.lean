/-
# `triggers.ts`: the verdict on a price

`readFeed` takes a price apart into an integer and its decimals, and `isTriggered` compares the
integer alone with the threshold, which is written "in the feed's own units".  So the threshold
moves with the scale: a trigger means the price at the scale of the reading it is checked against.

* A threshold that was parsed is a natural number (`bigInt_of_isDecimal`), so the comparison never
  throws and the verdict on a reading is a comparison of two integers.
* Read as prices, that is a comparison at one scale: GTE fires exactly when the price denoted is at
  least the price that the threshold denotes with the decimals of the reading (`fires_iff`).
* So among readings of one scale the verdict is a function of the price, growing with it for GTE and
  falling for LTE (`price_verdict_at_scale`).
* Among readings of different scales it is not: 42 without decimals and 420 with one are one price,
  and a threshold of 100 tells them apart (`price_verdict_depends_on_scale`).

The last point is not reached as long as a feed keeps its decimals, which the code nowhere checks.
Prices are rational numbers here, so nothing is rounded in the comparison; what `readFeed` rounds is
in `Feed.lean`.
-/
import Mathlib.Algebra.Order.Field.Basic
import Mathlib.Tactic.NormNum
import OneSig.Latch.Feed

namespace OneSig.Latch

/-! ## 1. The threshold -/

theorem digit_cases {c : Char} (h : c.isDigit = true) : isJsSpace c = false ∧
    c ∉ "xXoObB+-".toList ∧
    ((Bytes.hexVal c).filter fun d => decide (d < 10)).isSome = true := by
  have hall : ∀ c ∈ Bytes.anyHexDigits, c.isDigit = true → isJsSpace c = false ∧
      c ∉ "xXoObB+-".toList ∧
      ((Bytes.hexVal c).filter fun d => decide (d < 10)).isSome = true :=
    Bytes.forall_anyHexDigits (by decide)
  refine hall c (Bytes.mem_anyHexDigits (Bytes.isHexDigit_iff.mpr (.inl ?_))) h
  rw [Char.isDigit, Bool.and_eq_true, decide_eq_true_eq, decide_eq_true_eq] at h
  exact h

/-- The digits of a text make up a number. -/
theorem foldlM_digits {s : Str} (h : ∀ c ∈ s, c.isDigit = true) (n : Nat) : ∃ m,
    s.foldlM (fun n c => ((Bytes.hexVal c).filter fun d => decide (d < 10)).map (n * 10 + ·)) n =
      some m := by
  induction s generalizing n with
  | nil => exact ⟨n, rfl⟩
  | cons c s ih =>
    obtain ⟨-, -, hval⟩ := digit_cases (h c (List.mem_cons_self ..))
    obtain ⟨d, hd⟩ := Option.isSome_iff_exists.mp hval
    obtain ⟨m, hm⟩ := ih (fun c hc => h c (List.mem_cons_of_mem _ hc)) (n * 10 + d)
    refine ⟨m, ?_⟩
    simp only [List.foldlM_cons, hd, Option.map_some]
    exact hm

/-- **A threshold that was parsed is a number**: the decimal texts that the parser of triggers
lets through are among those that `BigInt` reads. -/
theorem bigInt_of_isDecimal {s : Str} (h : isDecimal s = true) :
    ∃ n : Nat, bigIntOfString s = .ok n := by
  rw [isDecimal, Bool.and_eq_true, decide_eq_true_eq, List.all_eq_true] at h
  obtain ⟨hne, hdigits⟩ := h
  have hspace : ∀ c ∈ s, isJsSpace c = false := fun c hc => (digit_cases (hdigits c hc)).1
  have htrim : trim s = s :=
    trim_eq (fun c hc => hspace c (List.mem_of_mem_head? hc)) fun c hc =>
      hspace c (List.mem_of_getLast? hc)
  obtain ⟨n, hn⟩ := foldlM_digits hdigits 0
  have hvalue : digitsValue 10 s = some n := by
    rw [digitsValue, if_neg hne]
    exact hn
  -- no sign and no base in front of the digits
  have hplain : ∀ c ∈ s, c ∉ "xXoObB+-".toList := fun c hc => (digit_cases (hdigits c hc)).2.1
  refine ⟨n, ?_⟩
  have hread : stringToBigInt s = some (Int.ofNat n) := by
    rw [stringToBigInt, htrim]
    split
    case h_1 => exact absurd rfl hne
    case h_2 => exact absurd (by decide) (hplain 'x' (by simp))
    case h_3 => exact absurd (by decide) (hplain 'X' (by simp))
    case h_4 => exact absurd (by decide) (hplain 'o' (by simp))
    case h_5 => exact absurd (by decide) (hplain 'O' (by simp))
    case h_6 => exact absurd (by decide) (hplain 'b' (by simp))
    case h_7 => exact absurd (by decide) (hplain 'B' (by simp))
    case h_8 => exact absurd (by decide) (hplain '-' (by simp))
    case h_9 => exact absurd (by decide) (hplain '+' (by simp))
    case h_10 =>
      rw [hvalue]
      rfl
  rw [bigIntOfString, hread]
  rfl

theorem parsePrice_value {t : Json} {feedId : Hex} {op : Comparator} {value : Str}
    (h : parsePrice t = .ok (.price feedId op value)) : isDecimal value = true := by
  unfold parsePrice at h
  obtain ⟨feedId', -, h⟩ := bind_ok h
  obtain ⟨op', -, h⟩ := bind_ok h
  obtain ⟨value', hvalue, h⟩ := bind_ok h
  cases h
  exact (stringField_ok hvalue).2

theorem parseTrigger_value {raw : Option Json} {feedId : Hex} {op : Comparator} {value : Str}
    (h : parseTrigger raw = .ok (.price feedId op value)) : isDecimal value = true := by
  have hkind : ∀ kind, unsupportedKind kind ≠ .ok (.price feedId op value) := by
    intro kind hkind
    unfold unsupportedKind at hkind
    split at hkind
    · cases hkind
    · split at hkind
      · cases hkind
      · cases hkind
  unfold parseTrigger at h
  split at h
  · exact absurd h (hkind _)
  · dsimp only at h
    split at h
    · split_ifs at h
      · exact parsePrice_value h
      · obtain ⟨notBefore, -, htime⟩ := bind_ok h
        cases htime
      · exact absurd h (hkind _)
    · exact absurd h (hkind _)
  · cases h

/-! ## 2. The verdict -/

/-- The price a reading denotes. -/
def FeedReading.price (r : FeedReading) : ℚ := r.value * 10 ^ (-r.decimals)

/-- The trigger fires on this reading. -/
def Fires (trigger : Trigger) (now : ℚ) (r : FeedReading) : Prop :=
  isTriggered trigger now (some r) = .ok ⟨true, some r⟩

/-- It does not. -/
def Declines (trigger : Trigger) (now : ℚ) (r : FeedReading) : Prop :=
  isTriggered trigger now (some r) = .ok ⟨false, some r⟩

/-- The price that a threshold means at a scale. -/
def thresholdAt (threshold : Nat) (decimals : Int) : ℚ := threshold * 10 ^ (-decimals)

/-- The comparison of prices. -/
def Comparator.Meets : Comparator → ℚ → ℚ → Prop
  | .gte, price, threshold => threshold ≤ price
  | .lte, price, threshold => price ≤ threshold

section Verdict

variable {feedId : Hex} {op : Comparator} {value : Str} {threshold : Nat} (now : ℚ)

theorem isTriggered_price (hvalue : bigIntOfString value = .ok threshold) (r : FeedReading) :
    isTriggered (.price feedId op value) now (some r) =
      .ok ⟨op.holds r.value threshold, some r⟩ := by
  simp only [isTriggered, hvalue]
  rfl

/-- Two integers at one scale compare as the prices they denote. -/
theorem scaled_le_iff (a b decimals : Int) :
    (a : ℚ) * 10 ^ (-decimals) ≤ b * 10 ^ (-decimals) ↔ a ≤ b := by
  have hpos : (0 : ℚ) < 10 ^ (-decimals) := zpow_pos (by norm_num) _
  rw [mul_le_mul_iff_left₀ hpos, Int.cast_le]

/-- **The threshold is a price at the scale of the reading**: the trigger fires exactly if the
price of the reading compares with the threshold divided by the reading's power of ten. -/
theorem fires_iff (hvalue : bigIntOfString value = .ok threshold) (r : FeedReading) :
    Fires (.price feedId op value) now r ↔ op.Meets r.price (thresholdAt threshold r.decimals) := by
  have hcast : thresholdAt threshold r.decimals =
      ((threshold : Int) : ℚ) * 10 ^ (-r.decimals) := by
    rw [thresholdAt, Int.cast_natCast]
  have hfired : Fires (.price feedId op value) now r ↔ op.holds r.value threshold = true := by
    rw [Fires, isTriggered_price now hvalue]
    simp
  rw [hfired, hcast, FeedReading.price]
  cases op with
  | gte => exact decide_eq_true_iff.trans (scaled_le_iff _ _ _).symm
  | lte => exact decide_eq_true_iff.trans (scaled_le_iff _ _ _).symm

theorem declines_iff (hvalue : bigIntOfString value = .ok threshold) (r : FeedReading) :
    Declines (.price feedId op value) now r ↔ ¬Fires (.price feedId op value) now r := by
  rw [Declines, Fires, isTriggered_price now hvalue]
  cases op.holds r.value threshold with
  | true => simp
  | false => simp

/-- A higher price meets what a lower one does, and the other way round. -/
theorem Comparator.Meets.mono (op : Comparator) {price price' : ℚ} (threshold : ℚ)
    (h : price ≤ price') :
    match op with
    | .gte => op.Meets price threshold → op.Meets price' threshold
    | .lte => op.Meets price' threshold → op.Meets price threshold := by
  cases op with
  | gte => exact fun hle => hle.trans h
  | lte => exact fun hle => h.trans hle

end Verdict

/-- **A price trigger depends on the price at the scale of the reading**: the threshold means a
price at that scale, and among readings of one scale the verdict is a function of the denoted
price, which grows with it for GTE and falls for LTE. -/
theorem price_verdict_at_scale {raw : Option Json} {feedId : Hex} {op : Comparator} {value : Str}
    (h : parseTrigger raw = .ok (.price feedId op value)) (now : ℚ) :
    ∃ threshold : Nat, bigIntOfString value = .ok threshold ∧
      (∀ r, (Fires (.price feedId op value) now r ↔
          op.Meets r.price (thresholdAt threshold r.decimals)) ∧
        (Declines (.price feedId op value) now r ↔ ¬Fires (.price feedId op value) now r)) ∧
      ∀ r r', r.decimals = r'.decimals →
        (r.price = r'.price →
          (Fires (.price feedId op value) now r ↔ Fires (.price feedId op value) now r')) ∧
        (r.price ≤ r'.price → match op with
          | .gte => Fires (.price feedId op value) now r → Fires (.price feedId op value) now r'
          | .lte => Fires (.price feedId op value) now r' →
              Fires (.price feedId op value) now r) := by
  obtain ⟨threshold, hvalue⟩ := bigInt_of_isDecimal (parseTrigger_value h)
  refine ⟨threshold, hvalue, fun r => ⟨fires_iff now hvalue r, declines_iff now hvalue r⟩,
    fun r r' hscale => ⟨fun hprice => ?_, fun hle => ?_⟩⟩
  · rw [fires_iff now hvalue, fires_iff now hvalue, hprice, hscale]
  · have hmono := Comparator.Meets.mono op (thresholdAt threshold r'.decimals) hle
    rw [fires_iff now hvalue, fires_iff now hvalue, hscale]
    cases op with
    | gte => exact hmono
    | lte => exact hmono

namespace SamplePrice

def feedId : Hex := hexPrefix ++ List.replicate 42 '0'

/-- A trigger at 100, as it comes in. -/
def raw : Json := .obj [("kind".toList, .str "PRICE".toList), ("feedId".toList, .str feedId),
  ("op".toList, .str "GTE".toList), ("value".toList, .str "100".toList)]

def trigger : Trigger := .price feedId .gte "100".toList

/-- A reply to the call: three words that end in these digits. -/
def reply (value decimals timestamp : String) : Reply :=
  let word (digits : String) := List.replicate (64 - digits.length) '0' ++ digits.toList
  SampleFeed.reply (hexPrefix ++ word value ++ word decimals ++ word timestamp)

/-- 42, and 420 with one decimal. -/
def coarse : FeedReading := ⟨42, 0, 1⟩

def fine : FeedReading := ⟨420, 1, 1⟩

theorem parse_raw : parseTrigger (some raw) = .ok trigger := by decide +kernel

end SamplePrice

open SamplePrice in
theorem price_verdict_at_scale_sample : ∃ threshold : Nat,
    bigIntOfString "100".toList = .ok threshold ∧
    (Fires trigger 0 fine ↔ thresholdAt threshold fine.decimals ≤ fine.price) := by
  obtain ⟨threshold, hvalue, hall, -⟩ := price_verdict_at_scale parse_raw 0
  exact ⟨threshold, hvalue, (hall fine).1⟩

open SamplePrice in
/-- **One price at two scales**, and the trigger fires on the finer one only, since its threshold
is compared with the digits and not with the price. -/
theorem price_verdict_depends_on_scale :
    parseTrigger (some raw) = .ok trigger ∧
    Feed.readFeed SampleFeed.engine (reply "2a" "0" "1") 0 = .ok (some coarse) ∧
    Feed.readFeed SampleFeed.engine (reply "1a4" "1" "1") 0 = .ok (some fine) ∧
    coarse.price = fine.price ∧ Declines trigger 0 coarse ∧ Fires trigger 0 fine := by
  refine ⟨parse_raw, by decide +kernel, by decide +kernel, ?_, ?_, ?_⟩
  · norm_num [coarse, fine, FeedReading.price]
  · unfold Declines
    decide +kernel
  · unfold Fires
    decide +kernel

end OneSig.Latch
