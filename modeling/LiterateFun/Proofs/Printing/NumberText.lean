import LiterateFun.Proofs.Printing.Literals
import Mathlib.Algebra.Order.Ring.Rat
import Mathlib.Data.List.TakeWhile
import Mathlib.Tactic.IntervalCases
import Mathlib.Tactic.Positivity
import Mathlib.Tactic.Ring

/-!
This module contains the theorem that the text of a finite number tells it apart from all other
finite numbers. After the sign, the text denotes a rational that rounds to the magnitude of the
number, and no rational rounds to two magnitudes.
-/

namespace LiterateFun

namespace Decimal

def value (d : Decimal) : ℚ :=
  d.digits * 10 ^ d.exponent

namespace Interval

def Spans (i : Interval) (r : ℚ) : Prop :=
  if i.closed then i.low ≤ r * i.unit ∧ r * i.unit ≤ i.high
  else i.low < r * i.unit ∧ r * i.unit < i.high

theorem contains_iff_spans (i : Interval) (n : Nat) : i.contains n ↔ i.Spans n := by
  unfold contains Spans
  split <;> rw [decide_eq_true_eq] <;> norm_cast

theorem spans_measuredIn (i : Interval) (exponent : Int) (r : ℚ) :
    (i.measuredIn exponent).Spans r ↔ i.Spans (r * 10 ^ exponent) := by
  cases exponent with
  | ofNat k =>
    have hunit : r * 10 ^ (Int.ofNat k) * i.unit = r * (i.unit * 10 ^ k : ℕ) := by
      push_cast
      rw [Int.ofNat_eq_natCast, zpow_natCast]
      ring
    simp only [measuredIn, Spans, hunit]
    rfl
  | negSucc k =>
    have hpos : (0 : ℚ) < 10 ^ (k + 1) := by positivity
    have hscale : r * 10 ^ (Int.negSucc k) * i.unit = r * i.unit / 10 ^ (k + 1) := by
      rw [zpow_negSucc]
      ring
    have hcast (n : ℕ) : ((n * Nat.pow 10 (k + 1) : ℕ) : ℚ) = n * 10 ^ (k + 1) := by
      push_cast
      norm_num
    simp only [measuredIn, Spans, hscale, hcast, le_div_iff₀ hpos, div_le_iff₀ hpos,
      lt_div_iff₀ hpos, div_lt_iff₀ hpos]

theorem contains_of_nearest? {i : Interval} {n : Nat} (h : i.nearest? = some n) :
    i.contains n := by
  unfold nearest? at h
  dsimp only at h
  split at h
  next hbelow habove =>
    cases h
    split
    · exact habove
    · exact hbelow
  next hbelow _ =>
    cases h
    exact hbelow
  next _ habove =>
    cases h
    exact habove
  next => cases h

theorem spans_of_search {i : Interval} {exponent : Int} {grids : Nat} {d : Decimal}
    (h : i.search exponent grids = some d) : i.Spans d.value := by
  induction grids generalizing exponent with
  | zero => cases h
  | succ grids ih =>
    rw [search] at h
    split at h
    next digits hdigits =>
      cases h
      have hcontains := contains_of_nearest? hdigits
      rwa [contains_iff_spans, spans_measuredIn] at hcontains
    next => exact ih h

theorem exists_search {i : Interval} {exponent : Int} {grids skipped : Nat}
    (hskipped : skipped < grids) (h : (i.measuredIn (exponent - skipped)).nearest? ≠ none) :
    ∃ d, i.search exponent grids = some d := by
  induction grids generalizing exponent skipped with
  | zero => exact absurd hskipped (Nat.not_lt_zero _)
  | succ grids ih =>
    rw [search]
    split
    next digits _ => exact ⟨_, rfl⟩
    next hnone =>
      cases skipped with
      | zero =>
        rw [Int.ofNat_zero, Int.sub_zero] at h
        exact absurd hnone h
      | succ skipped =>
        apply ih (Nat.lt_of_succ_lt_succ hskipped)
        have hexponent : exponent - 1 - skipped = exponent - (skipped + 1 : ℕ) := by
          push_cast
          ring
        rwa [hexponent]

theorem nearest?_ne_none {i : Interval} (hlow : i.low < i.value) (hhigh : i.value < i.high)
    (hdvd : i.unit ∣ i.value) : i.nearest? ≠ none := by
  have hcontains : i.contains (i.value / i.unit) := by
    unfold contains
    rw [Nat.div_mul_cancel hdvd]
    split <;> simp <;> omega
  unfold nearest?
  dsimp only
  rw [hcontains]
  cases i.contains (i.value / i.unit + 1) <;> simp

end Interval

end Decimal

namespace Number

def pattern (x : Number) : Nat :=
  x.bits.toNat % 0x8000000000000000

theorem exponentField_eq (x : Number) : x.exponentField = x.pattern / 0x10000000000000 := by
  have hmask : x.bits.toNat >>> 52 &&& 2047 = (x.bits.toNat >>> 52) % 2048 :=
    Nat.and_two_pow_sub_one_eq_mod _ 11
  rw [exponentField, UInt64.toNat_and, UInt64.toNat_shiftRight]
  apply hmask.trans
  rw [Nat.shiftRight_eq_div_pow, pattern]
  omega

theorem fractionField_eq (x : Number) : x.fractionField = x.pattern % 0x10000000000000 := by
  have hmask : x.bits.toNat &&& 0xfffffffffffff = x.bits.toNat % 0x10000000000000 :=
    Nat.and_two_pow_sub_one_eq_mod _ 52
  rw [fractionField, UInt64.toNat_and]
  apply hmask.trans
  rw [pattern]
  omega

theorem eq_of_pattern_eq {x y : Number} (hsign : x.isNegative = y.isNegative)
    (h : x.pattern = y.pattern) : x = y := by
  have hnegative (x : Number) :
      x.isNegative = decide (x.bits.toNat / 0x8000000000000000 = 1) := by
    rw [isNegative, decide_eq_decide, ← UInt64.toNat_inj, UInt64.toNat_shiftRight,
      ← Nat.shiftRight_eq_div_pow _ 63]
    rfl
  have hbits (x : Number) : x.bits.toNat < 0x10000000000000000 := x.bits.toNat_lt
  rw [hnegative, hnegative, decide_eq_decide] at hsign
  rw [pattern, pattern] at h
  have hx := hbits x
  have hy := hbits y
  have heq : x.bits.toNat = y.bits.toNat := by omega
  exact Number.mk.injEq .. |>.mpr (UInt64.toNat_inj.1 heq)

def patternSignificand (pattern : Nat) : Nat :=
  if pattern / 0x10000000000000 = 0 then pattern % 0x10000000000000
  else 0x10000000000000 + pattern % 0x10000000000000

/-- The ends of all intervals are multiples of the unit `2 ^ -1076`. -/
def patternScale : Nat :=
  1076

/-- The least rational that rounds to the number with a bit pattern, in that unit. -/
def patternLow (pattern : Nat) : Nat :=
  (4 * patternSignificand pattern -
      if pattern % 0x10000000000000 = 0 ∧ 1 < pattern / 0x10000000000000 then 1 else 2) *
    2 ^ (pattern / 0x10000000000000 - 1)

def patternHigh (pattern : Nat) : Nat :=
  (4 * patternSignificand pattern + 2) * 2 ^ (pattern / 0x10000000000000 - 1)

theorem patternLow_lt_patternHigh (pattern : Nat) : patternLow pattern < patternHigh pattern := by
  unfold patternLow patternHigh
  apply Nat.mul_lt_mul_of_pos_right _ (by positivity)
  omega

theorem patternLow_succ (pattern : Nat) : patternLow (pattern + 1) = patternHigh pattern := by
  unfold patternLow patternHigh patternSignificand
  have hdiv := Nat.div_add_mod pattern 0x10000000000000
  have hlt := Nat.mod_lt pattern (show 0x10000000000000 > 0 by decide)
  generalize pattern / 0x10000000000000 = e at *
  generalize pattern % 0x10000000000000 = f at *
  subst hdiv
  by_cases hf : f + 1 < 0x10000000000000
  · have hdiv : (0x10000000000000 * e + f + 1) / 0x10000000000000 = e := by omega
    have hmod : (0x10000000000000 * e + f + 1) % 0x10000000000000 = f + 1 := by omega
    rw [hdiv, hmod, if_neg (by omega : ¬(f + 1 = 0 ∧ 1 < e))]
    split
    · congr 1
    · congr 1
  · have hdiv : (0x10000000000000 * e + f + 1) / 0x10000000000000 = e + 1 := by omega
    have hmod : (0x10000000000000 * e + f + 1) % 0x10000000000000 = 0 := by omega
    obtain rfl : f = 0xfffffffffffff := by omega
    rw [hdiv, hmod, if_neg (by omega : ¬e + 1 = 0)]
    cases e with
    | zero => rfl
    | succ e =>
      rw [if_pos ⟨rfl, by omega⟩, if_neg (by omega : ¬e + 1 = 0), Nat.add_sub_cancel,
        Nat.add_sub_cancel, pow_succ]
      ring_nf

theorem patternHigh_strictMono : StrictMono patternHigh := by
  apply strictMono_nat_of_lt_succ
  intro pattern
  rw [← patternLow_succ]
  exact patternLow_lt_patternHigh (pattern + 1)

theorem significand_eq (x : Number) : x.significand = patternSignificand x.pattern := by
  rw [significand, exponentField_eq, fractionField_eq, patternSignificand]

theorem significand_mod_two (x : Number) : x.significand % 2 = x.pattern % 2 := by
  rw [significand_eq, patternSignificand]
  split <;> omega

theorem exists_unit_ofNumber (x : Number) :
    ∃ t, 0 < t ∧ patternLow x.pattern = (Decimal.Interval.ofNumber x).low * t ∧
      patternHigh x.pattern = (Decimal.Interval.ofNumber x).high * t ∧
      2 ^ patternScale = (Decimal.Interval.ofNumber x).unit * t := by
  have hexponent := exponentField_eq x
  have hbinade : x.isBinadeStart ↔
      x.pattern % 0x10000000000000 = 0 ∧ 1 < x.pattern / 0x10000000000000 := by
    rw [isBinadeStart, fractionField_eq, hexponent, decide_eq_true_eq]
  have hlow : (if x.isBinadeStart then 4 * x.significand - 1 else 4 * x.significand - 2) =
      4 * patternSignificand x.pattern -
        if x.pattern % 0x10000000000000 = 0 ∧ 1 < x.pattern / 0x10000000000000 then 1
        else 2 := by
    simp only [hbinade, significand_eq]
    split <;> rfl
  have hscale : x.scale + 1074 = (x.pattern / 0x10000000000000 - 1 : ℕ) := by
    rw [scale, hexponent]
    split <;> omega
  unfold patternLow patternHigh Decimal.Interval.ofNumber
  dsimp only
  rw [hlow, significand_eq]
  cases hq : x.scale - 2 with
  | ofNat q =>
    have hshift : x.pattern / 0x10000000000000 - 1 = q + patternScale := by
      rw [Int.ofNat_eq_natCast] at hq
      unfold patternScale
      omega
    refine ⟨2 ^ patternScale, Nat.two_pow_pos _, ?_, ?_, (one_mul _).symm⟩ <;>
    · dsimp only
      rw [hshift, Nat.shiftLeft_eq, pow_add, mul_assoc]
  | negSucc q =>
    have hshift : q + 1 + (x.pattern / 0x10000000000000 - 1) = patternScale := by
      rw [Int.negSucc_eq] at hq
      unfold patternScale
      omega
    refine ⟨2 ^ (x.pattern / 0x10000000000000 - 1), Nat.two_pow_pos _, rfl, rfl, ?_⟩
    dsimp only
    rw [Nat.shiftLeft_eq, one_mul, ← pow_add, hshift]

theorem bounds_of_spans {x : Number} {r : ℚ}
    (hr : (Decimal.Interval.ofNumber x).Spans r) :
    patternLow x.pattern ≤ r * 2 ^ patternScale ∧ r * 2 ^ patternScale ≤ patternHigh x.pattern ∧
      (r * 2 ^ patternScale = patternLow x.pattern ∨ r * 2 ^ patternScale = patternHigh x.pattern →
        x.pattern % 2 = 0) := by
  obtain ⟨t, ht, hlow, hhigh, hunit⟩ := exists_unit_ofNumber x
  have ht : (0 : ℚ) < t := by exact_mod_cast ht
  have hunit : (2 : ℚ) ^ patternScale = (Decimal.Interval.ofNumber x).unit * t := by
    exact_mod_cast hunit
  have hclosed : (Decimal.Interval.ofNumber x).closed = decide (x.pattern % 2 = 0) := by
    unfold Decimal.Interval.ofNumber
    rw [← significand_mod_two]
    dsimp only
    split <;> rfl
  rw [hlow, hhigh, hunit]
  push_cast
  rw [← mul_assoc, mul_le_mul_iff_left₀ ht, mul_le_mul_iff_left₀ ht, mul_left_inj' ht.ne',
    mul_left_inj' ht.ne']
  unfold Decimal.Interval.Spans at hr
  rw [hclosed] at hr
  split at hr
  next heven =>
    exact ⟨hr.1, hr.2, fun _ => of_decide_eq_true heven⟩
  next =>
    refine ⟨hr.1.le, hr.2.le, ?_⟩
    rintro (heq | heq)
    · exact absurd heq hr.1.ne'
    · exact absurd heq hr.2.ne

theorem pattern_eq_of_spans {x y : Number} {r : ℚ} (hr : (Decimal.Interval.ofNumber x).Spans r)
    (hr' : (Decimal.Interval.ofNumber y).Spans r) : x.pattern = y.pattern := by
  have hnot {x y : Number} (hr : (Decimal.Interval.ofNumber x).Spans r)
      (hr' : (Decimal.Interval.ofNumber y).Spans r) : ¬x.pattern < y.pattern := by
    intro hlt
    obtain ⟨-, hhigh, heven⟩ := bounds_of_spans hr
    obtain ⟨hlow, -, heven'⟩ := bounds_of_spans hr'
    obtain ⟨n, hn⟩ : ∃ n, y.pattern = n + 1 := ⟨y.pattern - 1, by omega⟩
    rw [hn, patternLow_succ] at hlow heven'
    have hle : patternHigh n ≤ patternHigh x.pattern := by exact_mod_cast hlow.trans hhigh
    have hn' : n = x.pattern := by
      have := patternHigh_strictMono.le_iff_le.1 hle
      omega
    -- The two are neighbours, and only the one with the even pattern has the end between them.
    rw [hn'] at hlow heven'
    have heq := le_antisymm hhigh hlow
    have h1 := heven (.inr heq)
    have h2 := heven' (.inl heq)
    omega
  have h1 := hnot hr hr'
  have h2 := hnot hr' hr
  omega

end Number

namespace Decimal

namespace Interval

theorem ofNumber_low_lt_value {x : Number} (h : x.significand ≠ 0) :
    (ofNumber x).low < (ofNumber x).value ∧ (ofNumber x).value < (ofNumber x).high := by
  have hlow : (if x.isBinadeStart then 4 * x.significand - 1 else 4 * x.significand - 2) <
      4 * x.significand := by
    split <;> omega
  unfold ofNumber
  dsimp only
  cases x.scale - 2 with
  | ofNat q =>
    simp only [Nat.shiftLeft_eq]
    constructor
    · exact Nat.mul_lt_mul_of_pos_right hlow (Nat.two_pow_pos q)
    · exact Nat.mul_lt_mul_of_pos_right (by omega) (Nat.two_pow_pos q)
  | negSucc q => exact ⟨hlow, by dsimp only; omega⟩

theorem measuredIn_low_lt_value {i : Interval} (h : i.low < i.value ∧ i.value < i.high)
    (exponent : Int) : (i.measuredIn exponent).low < (i.measuredIn exponent).value ∧
      (i.measuredIn exponent).value < (i.measuredIn exponent).high := by
  cases exponent with
  | ofNat k => exact h
  | negSucc k =>
    have hpos : 0 < Nat.pow 10 (k + 1) := Nat.pow_pos (by decide)
    exact ⟨Nat.mul_lt_mul_of_pos_right h.1 hpos, Nat.mul_lt_mul_of_pos_right h.2 hpos⟩

theorem unit_dvd_value (x : Number) :
    ((ofNumber x).measuredIn (min x.scale 0)).unit ∣
      ((ofNumber x).measuredIn (min x.scale 0)).value := by
  unfold ofNumber
  dsimp only
  cases hq : x.scale - 2 with
  | ofNat q =>
    have hmin : min x.scale 0 = Int.ofNat 0 := by
      rw [Int.ofNat_eq_natCast] at hq
      exact Int.min_eq_right (by omega)
    rw [hmin]
    exact one_dvd _
  | negSucc q =>
    rw [Int.negSucc_eq] at hq
    rcases Nat.lt_or_ge q 2 with hlt | hge
    · have hmin : min x.scale 0 = Int.ofNat 0 := Int.min_eq_right (by omega)
      have hfour : 1 <<< (q + 1) ∣ 4 := by
        interval_cases q <;> decide
      rw [hmin]
      simp only [measuredIn, Nat.pow_eq, pow_zero, mul_one]
      exact hfour.mul_right _
    · obtain ⟨k, rfl⟩ := Nat.exists_eq_add_of_le hge
      have hmin : min x.scale 0 = Int.negSucc k := by
        rw [Int.negSucc_eq, Int.min_eq_left (by omega)]
        omega
      rw [hmin]
      simp only [measuredIn, Nat.pow_eq]
      refine ⟨x.significand * 5 ^ (k + 1), ?_⟩
      have hten : 10 ^ (k + 1) = 2 ^ (k + 1) * 5 ^ (k + 1) := Nat.mul_pow 2 5 (k + 1)
      rw [Nat.shiftLeft_eq, hten]
      ring

end Interval

theorem spans_shortest {x : Number} (h : x.significand ≠ 0) :
    (Interval.ofNumber x).Spans (shortest x).value := by
  unfold shortest
  dsimp only
  generalize (Nat.toDigits 10 ((Interval.ofNumber x).value / (Interval.ofNumber x).unit)).length =
    highest
  have hlowest : min x.scale 0 ≤ 0 := Int.min_le_right _ _
  have hgrid : (highest : Int) - ((highest : Int) - min x.scale 0).toNat = min x.scale 0 := by
    omega
  have hbounds := Interval.measuredIn_low_lt_value (Interval.ofNumber_low_lt_value h)
    (min x.scale 0)
  have hnearest := Interval.nearest?_ne_none hbounds.1 hbounds.2 (Interval.unit_dvd_value x)
  rw [← hgrid] at hnearest
  have hgrids : ((highest : Int) - min x.scale 0).toNat <
      ((highest : Int) - min x.scale 0 + 1).toNat := by
    omega
  obtain ⟨d, hd⟩ := Interval.exists_search hgrids hnearest
  rw [hd]
  exact Interval.spans_of_search hd

def ofText (text : List Char) : ℚ :=
  Nat.ofDigitChars 10 (text.filter (· ≠ '.')) 0 / 10 ^ ((text.dropWhile (· ≠ '.')).length - 1)

theorem ofText_of_no_point {text : List Char} (h : '.' ∉ text) :
    ofText text = Nat.ofDigitChars 10 text 0 := by
  have hne : ∀ c ∈ text, (c ≠ '.') := fun c hc heq => h (heq ▸ hc)
  have hfilter : text.filter (· ≠ '.') = text := by
    rw [List.filter_eq_self]
    simpa using hne
  have hdrop : text.dropWhile (· ≠ '.') = [] := by
    rw [List.dropWhile_eq_nil_iff]
    simpa using hne
  rw [ofText, hfilter, hdrop]
  simp

theorem ofText_of_point {whole fraction : List Char} (hwhole : '.' ∉ whole)
    (hfraction : '.' ∉ fraction) :
    ofText (whole ++ '.' :: fraction) =
      Nat.ofDigitChars 10 (whole ++ fraction) 0 / 10 ^ fraction.length := by
  have hne {text : List Char} (h : '.' ∉ text) : ∀ c ∈ text, (c ≠ '.') :=
    fun c hc heq => h (heq ▸ hc)
  have hfilter {text : List Char} (h : '.' ∉ text) : text.filter (· ≠ '.') = text := by
    rw [List.filter_eq_self]
    simpa using hne h
  have hdrop : (whole ++ '.' :: fraction).dropWhile (· ≠ '.') = '.' :: fraction := by
    rw [List.dropWhile_append_of_pos (by simpa using hne hwhole)]
    simp
  rw [ofText, hdrop, List.filter_append, List.filter_cons_of_neg (by simp), hfilter hwhole,
    hfilter hfraction, List.length_cons, Nat.add_sub_cancel]

theorem point_notMem_toDigits (n : Nat) : '.' ∉ Nat.toDigits 10 n := by
  intro h
  have hdigit := Nat.isDigit_of_mem_toDigits (by decide) (by decide) h
  contradiction

theorem point_notMem_replicate (n : Nat) : '.' ∉ List.replicate n '0' := by
  intro h
  cases List.eq_of_mem_replicate h

theorem ofText_text (d : Decimal) : ofText d.text.toList = d.value := by
  obtain ⟨n, exponent⟩ := d
  unfold text value
  dsimp only
  cases exponent with
  | ofNat k =>
    have htext : (String.ofList (Nat.toDigits 10 n) ++ zeros k).toList =
        Nat.toDigits 10 n ++ List.replicate k '0' := by
      simp [zeros]
    rw [htext, ofText_of_no_point, Nat.ofDigitChars_append, Nat.ofDigitChars_ten_toDigits,
      Nat.ofDigitChars_replicate_zero, Int.ofNat_eq_natCast, zpow_natCast]
    · push_cast
      ring
    · exact List.not_mem_append (point_notMem_toDigits n) (point_notMem_replicate k)
  | negSucc k =>
    rw [zpow_negSucc, ← div_eq_mul_inv]
    dsimp only
    split
    next hlt =>
      have htext : (String.ofList
            ((Nat.toDigits 10 n).take ((Nat.toDigits 10 n).length - (k + 1))) ++ "." ++
          String.ofList ((Nat.toDigits 10 n).drop ((Nat.toDigits 10 n).length - (k + 1)))).toList =
            (Nat.toDigits 10 n).take ((Nat.toDigits 10 n).length - (k + 1)) ++ '.' ::
              (Nat.toDigits 10 n).drop ((Nat.toDigits 10 n).length - (k + 1)) := by
        simp
      have hlength :
          ((Nat.toDigits 10 n).drop ((Nat.toDigits 10 n).length - (k + 1))).length = k + 1 := by
        rw [List.length_drop]
        omega
      rw [htext, ofText_of_point, List.take_append_drop, Nat.ofDigitChars_ten_toDigits, hlength]
      · exact fun h => point_notMem_toDigits n (List.mem_of_mem_take h)
      · exact fun h => point_notMem_toDigits n (List.mem_of_mem_drop h)
    next hge =>
      have htext : ("0." ++ zeros (k + 1 - (Nat.toDigits 10 n).length) ++
          String.ofList (Nat.toDigits 10 n)).toList =
            ['0'] ++ '.' :: (List.replicate (k + 1 - (Nat.toDigits 10 n).length) '0' ++
              Nat.toDigits 10 n) := by
        simp [zeros]
      have hlength : (List.replicate (k + 1 - (Nat.toDigits 10 n).length) '0' ++
          Nat.toDigits 10 n).length = k + 1 := by
        rw [List.length_append, List.length_replicate]
        omega
      have hzero : Nat.ofDigitChars 10 ['0'] 0 = 0 := rfl
      rw [htext, ofText_of_point, hlength, Nat.ofDigitChars_append, Nat.ofDigitChars_append, hzero,
        Nat.ofDigitChars_replicate_zero, Nat.mul_zero, Nat.ofDigitChars_ten_toDigits]
      · decide
      · exact List.not_mem_append (point_notMem_replicate _) (point_notMem_toDigits n)

end Decimal

namespace Number

def magnitudeText (x : Number) : String :=
  if x.significand = 0 then "0" else (Decimal.shortest x).text

theorem toList_text_of_isFinite {x : Number} (h : x.isFinite) :
    x.text.toList = (if x.isNegative then ['-'] else []) ++ x.magnitudeText.toList := by
  have hnan : ¬x.isNaN := by
    simp_all [isNaN, isFinite]
  rw [text, if_neg hnan, h, String.toList_append]
  congr 1
  split <;> rfl

theorem mem_magnitudeText {x : Number} {c : Char} (h : c ∈ x.magnitudeText.toList) :
    c.isDigit ∨ c = '.' := by
  unfold magnitudeText at h
  split at h
  · rw [List.mem_singleton.1 h]
    exact .inl rfl
  · exact Decimal.mem_text h

theorem pattern_eq_zero {x : Number} (h : x.significand = 0) : x.pattern = 0 := by
  rw [significand_eq, patternSignificand] at h
  split at h <;> omega

theorem ofText_text_ne_zero {x : Number} (h : x.significand ≠ 0) :
    Decimal.ofText (Decimal.shortest x).text.toList ≠ 0 := by
  rw [Decimal.ofText_text]
  intro hvalue
  obtain ⟨hlow, -⟩ := bounds_of_spans (Decimal.spans_shortest h)
  obtain ⟨n, hn⟩ : ∃ n, x.pattern = n + 1 := by
    refine ⟨x.pattern - 1, ?_⟩
    have hpattern : x.pattern ≠ 0 := by
      intro hzero
      apply h
      rw [significand_eq, hzero]
      rfl
    omega
  have hpos : 0 < patternHigh n := by
    unfold patternHigh
    positivity
  rw [hvalue, zero_mul, hn, patternLow_succ] at hlow
  have hle : patternHigh n ≤ 0 := by exact_mod_cast hlow
  omega

theorem pattern_eq_of_magnitudeText_eq {x y : Number} (h : x.magnitudeText = y.magnitudeText) :
    x.pattern = y.pattern := by
  have hzero : Decimal.ofText "0".toList = 0 := by
    rw [Decimal.ofText_of_no_point (by decide)]
    rfl
  unfold magnitudeText at h
  by_cases hx : x.significand = 0
  · by_cases hy : y.significand = 0
    · exact (pattern_eq_zero hx).trans (pattern_eq_zero hy).symm
    · rw [if_pos hx, if_neg hy] at h
      rw [h] at hzero
      exact absurd hzero (ofText_text_ne_zero hy)
  · by_cases hy : y.significand = 0
    · rw [if_neg hx, if_pos hy] at h
      rw [← h] at hzero
      exact absurd hzero (ofText_text_ne_zero hx)
    · rw [if_neg hx, if_neg hy] at h
      have hvalue : (Decimal.shortest x).value = (Decimal.shortest y).value := by
        rw [← Decimal.ofText_text, h, Decimal.ofText_text]
      have hspans := Decimal.spans_shortest hx
      rw [hvalue] at hspans
      exact pattern_eq_of_spans hspans (Decimal.spans_shortest hy)

theorem eq_of_text_eq {x y : Number} (hx : x.isFinite) (hy : y.isFinite) (h : x.text = y.text) :
    x = y := by
  rw [← String.toList_inj, toList_text_of_isFinite hx, toList_text_of_isFinite hy] at h
  have hminus (x : Number) : '-' ∉ x.magnitudeText.toList := by
    intro hmem
    have hchar := mem_magnitudeText hmem
    contradiction
  have hsign (x : Number) :
      x.isNegative ↔ '-' ∈ (if x.isNegative then ['-'] else []) ++ x.magnitudeText.toList := by
    cases x.isNegative <;> simp [hminus x]
  have hsign : x.isNegative = y.isNegative := by
    rw [Bool.eq_iff_iff, hsign x, hsign y, h]
  rw [hsign] at h
  have hmagnitude := String.toList_inj.1 (List.append_cancel_left h)
  exact eq_of_pattern_eq hsign (pattern_eq_of_magnitudeText_eq hmagnitude)

end Number

end LiterateFun
