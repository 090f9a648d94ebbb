import InterfaceTables.Decimal.Binary64
import Mathlib.Algebra.Order.Field.Power
import Mathlib.Data.Rat.Cast.Order
import Mathlib.Tactic.FieldSimp
import Mathlib.Tactic.Linarith
import Mathlib.Tactic.Positivity
import Mathlib.Tactic.Ring

/-!
Fractions rounded to binary64. Every number of the format has an interval around it, which reaches half
way to its neighbours, and each fraction in the interval becomes that number.
-/

namespace InterfaceTables.Binary64

/-- The mantissas and exponents of finite numbers. -/
structure InFormat (m : ℕ) (e : ℤ) : Prop where
  mantissa_lt : m < 2 * leastNormal
  minExponent_le : minExponent ≤ e
  le_maxExponent : e ≤ maxExponent
  normal : leastNormal ≤ m ∨ e = minExponent

def WellFormed : Binary64 → Prop
  | .finite _ m e => InFormat m e
  | _ => True

/-- How far the interval of a number reaches down, in quarters of its unit. Below a power of two the next
number is nearer. -/
def reachBelow (m : ℕ) (e : ℤ) : ℕ := if m = leastNormal ∧ minExponent < e then 1 else 2

/-- A fraction in the interval of a number. The ends of the interval are in it if the mantissa is even. -/
structure Rounds (m : ℕ) (e : ℤ) (v : ℚ) : Prop where
  low : (m - reachBelow m e / 4 : ℚ) * 2 ^ e ≤ v
  high : v ≤ (m + 1 / 2 : ℚ) * 2 ^ e
  inside : m % 2 = 1 → (m - reachBelow m e / 4 : ℚ) * 2 ^ e < v ∧ v < (m + 1 / 2 : ℚ) * 2 ^ e

theorem leastNormal_pos : (0 : ℚ) < leastNormal := by norm_num [leastNormal]

theorem two_zpow_pos (e : ℤ) : (0 : ℚ) < 2 ^ e := by positivity

theorem two_zpow_pred (e : ℤ) : (2 : ℚ) ^ e = 2 * 2 ^ (e - 1) := by
  rw [zpow_sub_one₀ (by norm_num)]
  ring

/-! ## Fractions in units of an exponent -/

theorem unscale_pos {num den : ℕ} (hd : 0 < den) (e : ℤ) : 0 < (unscale num den e).2 := by
  unfold unscale
  split_ifs
  · exact hd
  · exact Nat.mul_pos hd (Nat.pow_pos (by decide))

theorem unscale_ratio (num den : ℕ) (e : ℤ) :
    ((unscale num den e).1 : ℚ) / (unscale num den e).2 = num / den / 2 ^ e := by
  unfold unscale
  split_ifs with he
  · obtain ⟨k, rfl⟩ : ∃ k : ℕ, e = -k := ⟨(-e).toNat, by omega⟩
    simp only [neg_neg, Int.toNat_natCast, Nat.pow_eq, Nat.cast_mul, Nat.cast_pow, Nat.cast_ofNat,
      zpow_neg, zpow_natCast, div_inv_eq_mul]
    ring
  · obtain ⟨k, rfl⟩ : ∃ k : ℕ, e = k := ⟨e.toNat, by omega⟩
    simp only [Int.toNat_natCast, Nat.pow_eq, Nat.cast_mul, Nat.cast_pow, Nat.cast_ofNat, zpow_natCast,
      div_div]

/-- The quotient without its fraction is the nearest whole number or the one below it. -/
theorem eq_or_eq_succ_of_near {q r d m : ℕ} (hd : 0 < d) (hr : r < d)
    (hlow : 2 * m * d ≤ 2 * (d * q + r) + d) (hhigh : 2 * (d * q + r) ≤ 2 * m * d + d) :
    m = q ∨ m = q + 1 := by
  have hup : 2 * m * d < (2 * q + 3) * d := by
    calc 2 * m * d ≤ 2 * (d * q + r) + d := hlow
      _ < (2 * q + 3) * d := by rw [add_mul]; linarith
  have hdown : 2 * q * d ≤ (2 * m + 1) * d := by
    calc 2 * q * d ≤ 2 * (d * q + r) := by linarith [Nat.zero_le r]
      _ ≤ (2 * m + 1) * d := by rw [add_mul]; linarith
  have hup' := Nat.lt_of_mul_lt_mul_right hup
  have hdown' := Nat.le_of_mul_le_mul_right hdown hd
  omega

theorem roundQuotient_of_near {n d m : ℕ} (hd : 0 < d) (hlow : 2 * m * d ≤ 2 * n + d)
    (hhigh : 2 * n ≤ 2 * m * d + d)
    (hodd : m % 2 = 1 → 2 * m * d < 2 * n + d ∧ 2 * n < 2 * m * d + d) :
    roundQuotient n d = m := by
  have hn : d * (n / d) + n % d = n := Nat.div_add_mod n d
  have hr : n % d < d := Nat.mod_lt n hd
  unfold roundQuotient
  generalize n / d = q at hn
  generalize n % d = r at hn hr
  subst hn
  obtain rfl | rfl := eq_or_eq_succ_of_near hd hr hlow hhigh
  · have hle : 2 * r ≤ d := by linarith
    rw [if_neg]
    rintro (hgt | ⟨heq, hm⟩)
    · omega
    · linarith [(hodd hm).2]
  · have hge : d ≤ 2 * r := by linarith
    refine if_pos ?_
    by_cases heq : 2 * r = d
    · refine .inr ⟨heq, ?_⟩
      by_contra hq
      linarith [(hodd (by omega)).1]
    · omega

/-- A quotient within half a unit of a whole number is rounded to it; half way it is the even one. -/
theorem roundQuotient_eq {n d m : ℕ} (hd : 0 < d) (hlow : (m - 1 / 2 : ℚ) ≤ n / d)
    (hhigh : (n / d : ℚ) ≤ m + 1 / 2)
    (hodd : m % 2 = 1 → (m - 1 / 2 : ℚ) < n / d ∧ (n / d : ℚ) < m + 1 / 2) :
    roundQuotient n d = m := by
  have hd' : (0 : ℚ) < d := by exact_mod_cast hd
  refine roundQuotient_of_near hd ?_ ?_ fun hm => ?_
  · rw [le_div_iff₀ hd'] at hlow
    have hq : (2 * m * d : ℚ) ≤ 2 * n + d := by linarith
    exact_mod_cast hq
  · rw [div_le_iff₀ hd'] at hhigh
    have hq : (2 * n : ℚ) ≤ 2 * m * d + d := by linarith
    exact_mod_cast hq
  · obtain ⟨hl, hh⟩ := hodd hm
    rw [lt_div_iff₀ hd'] at hl
    rw [div_lt_iff₀ hd'] at hh
    have hl' : (2 * m * d : ℚ) < 2 * n + d := by linarith
    have hh' : (2 * n : ℚ) < 2 * m * d + d := by linarith
    exact ⟨by exact_mod_cast hl', by exact_mod_cast hh'⟩

/-! ## The exponent of a fraction -/

/-- The exponent at which a fraction has as many digits as the format allows. -/
structure IsScale (v : ℚ) (e : ℤ) : Prop where
  minExponent_le : minExponent ≤ e
  lt : v < 2 * leastNormal * 2 ^ e
  normal : leastNormal * 2 ^ e ≤ v ∨ e = minExponent

theorem IsScale.le {v : ℚ} {e e' : ℤ} (h : IsScale v e) (h' : IsScale v e') : e ≤ e' := by
  by_contra hlt
  obtain hnormal | hmin := h.normal
  · have hpow : (2 : ℚ) ^ (e' + 1) ≤ 2 ^ e := zpow_le_zpow_right₀ (by norm_num) (by omega)
    rw [zpow_add_one₀ (by norm_num)] at hpow
    have hscaled := mul_le_mul_of_nonneg_left hpow leastNormal_pos.le
    have hlt' := h'.lt
    linarith
  · have hmin' := h'.minExponent_le
    omega

theorem IsScale.unique {v : ℚ} {e e' : ℤ} (h : IsScale v e) (h' : IsScale v e') : e = e' :=
  le_antisymm (h.le h') (h'.le h)

/-- The exponent as the lengths of numerator and denominator tell it. -/
def guess (num den : ℕ) : ℤ := (num.log2 : ℤ) - den.log2 - 52

/-- The guess, made smaller by one if it was too large. -/
def corrected (num den : ℕ) : ℤ :=
  if (unscale num den (guess num den)).1 / (unscale num den (guess num den)).2 < leastNormal
  then guess num den - 1 else guess num den

/-- The exponent that numerator and denominator are scaled by. -/
def scale (num den : ℕ) : ℤ := max minExponent (corrected num den)

/-- A mantissa with its exponent as a number. A mantissa that is too large by one is halved. -/
def settle (negative : Bool) (m : ℕ) (e : ℤ) : Binary64 :=
  let (m, e) := if m = 2 * leastNormal then (leastNormal, e + 1) else (m, e)
  if e > maxExponent then .infinite negative else .finite negative m e

theorem ofRatio_eq_settle {num : ℕ} (hn : num ≠ 0) (negative : Bool) (den : ℕ) :
    ofRatio negative num den =
      settle negative (roundQuotient (unscale num den (scale num den)).1
        (unscale num den (scale num den)).2) (scale num den) := by
  unfold ofRatio
  rw [if_neg hn]
  rfl

theorem log2_bounds {n : ℕ} (hn : 0 < n) : (2 : ℚ) ^ n.log2 ≤ n ∧ (n : ℚ) < 2 * 2 ^ n.log2 := by
  have hlow := Nat.log2_self_le hn.ne'
  have hhigh := Nat.lt_log2_self (n := n)
  rw [Nat.pow_succ, mul_comm] at hhigh
  exact ⟨by exact_mod_cast hlow, by exact_mod_cast hhigh⟩

/-- The guess is at most one too large. -/
theorem guess_bounds {num den : ℕ} (hn : 0 < num) (hd : 0 < den) :
    (leastNormal : ℚ) * 2 ^ (guess num den - 1) ≤ num / den ∧
      (num / den : ℚ) < 2 * leastNormal * 2 ^ guess num den := by
  obtain ⟨hnlow, hnhigh⟩ := log2_bounds hn
  obtain ⟨hdlow, hdhigh⟩ := log2_bounds hd
  have hd' : (0 : ℚ) < den := by exact_mod_cast hd
  have hpow : (leastNormal : ℚ) * 2 ^ guess num den * 2 ^ den.log2 = 2 ^ num.log2 := by
    have hleast : (leastNormal : ℚ) = 2 ^ (52 : ℤ) := by norm_num [leastNormal]
    rw [hleast, ← zpow_natCast, ← zpow_natCast, ← zpow_add₀ (by norm_num), ← zpow_add₀ (by norm_num),
      guess]
    congr 1
    omega
  have hhalf := two_zpow_pred (guess num den)
  constructor
  · rw [le_div_iff₀ hd']
    calc (leastNormal : ℚ) * 2 ^ (guess num den - 1) * den
      _ ≤ leastNormal * 2 ^ (guess num den - 1) * (2 * 2 ^ den.log2) :=
        mul_le_mul_of_nonneg_left hdhigh.le (mul_pos leastNormal_pos (two_zpow_pos _)).le
      _ = 2 ^ num.log2 := by rw [← hpow, hhalf]; ring
      _ ≤ num := hnlow
  · rw [div_lt_iff₀ hd']
    calc (num : ℚ) < 2 * 2 ^ num.log2 := hnhigh
      _ = 2 * leastNormal * 2 ^ guess num den * 2 ^ den.log2 := by rw [← hpow]; ring
      _ ≤ 2 * leastNormal * 2 ^ guess num den * den :=
        mul_le_mul_of_nonneg_left hdlow (by positivity)

/-- Apart from the least exponent, the fraction is normal at the corrected guess. -/
theorem corrected_bounds {num den : ℕ} (hn : 0 < num) (hd : 0 < den) :
    (leastNormal : ℚ) * 2 ^ corrected num den ≤ num / den ∧
      (num / den : ℚ) < 2 * leastNormal * 2 ^ corrected num den := by
  obtain ⟨hlow, hhigh⟩ := guess_bounds hn hd
  have hd' : (0 : ℚ) < (unscale num den (guess num den)).2 := by exact_mod_cast unscale_pos hd _
  have hsmall : (unscale num den (guess num den)).1 / (unscale num den (guess num den)).2 < leastNormal ↔
      (num / den : ℚ) < leastNormal * 2 ^ guess num den := by
    rw [Nat.div_lt_iff_lt_mul (unscale_pos hd _), ← div_lt_iff₀ (two_zpow_pos _), ← unscale_ratio,
      div_lt_iff₀ hd']
    exact_mod_cast Iff.rfl
  unfold corrected
  split_ifs with h
  · refine ⟨hlow, ?_⟩
    have hlt := hsmall.mp h
    rw [two_zpow_pred (guess num den)] at hlt
    linarith
  · exact ⟨not_lt.mp fun hlt => h (hsmall.mpr hlt), hhigh⟩

theorem isScale_scale {num den : ℕ} (hn : 0 < num) (hd : 0 < den) :
    IsScale (num / den) (scale num den) := by
  obtain ⟨hlow, hhigh⟩ := corrected_bounds hn hd
  obtain hmax | hmax := le_total minExponent (corrected num den)
  · rw [scale, max_eq_right hmax]
    exact ⟨hmax, hhigh, .inl hlow⟩
  · rw [scale, max_eq_left hmax]
    refine ⟨le_rfl, hhigh.trans_le ?_, .inr rfl⟩
    exact mul_le_mul_of_nonneg_left (zpow_le_zpow_right₀ (by norm_num) hmax) (by positivity)

/-! ## Rounding -/

variable {num den m : ℕ} {e : ℤ} {v : ℚ}

theorem ofRatio_of_isScale (hn : 0 < num) (hd : 0 < den) (hs : IsScale (num / den) e)
    (negative : Bool) :
    ofRatio negative num den =
      settle negative (roundQuotient (unscale num den e).1 (unscale num den e).2) e := by
  rw [ofRatio_eq_settle hn.ne', (isScale_scale hn hd).unique hs]

theorem reachBelow_le (m : ℕ) (e : ℤ) : (reachBelow m e : ℚ) ≤ 2 := by
  unfold reachBelow
  split_ifs <;> norm_num

theorem Rounds.pos (h : Rounds m e v) (hm : m ≠ 0) : 0 < v := by
  have hone : (1 : ℚ) ≤ m := by exact_mod_cast Nat.one_le_iff_ne_zero.mpr hm
  have hlow : (0 : ℚ) < (m - reachBelow m e / 4) * 2 ^ e :=
    mul_pos (by linarith [reachBelow_le m e]) (two_zpow_pos e)
  exact hlow.trans_le h.low

/-- A fraction in the interval of a number is at most half a unit away from it. -/
theorem Rounds.roundQuotient (hd : 0 < den) (h : Rounds m e (num / den)) :
    Binary64.roundQuotient (unscale num den e).1 (unscale num den e).2 = m := by
  have hreach := reachBelow_le m e
  have hpow := two_zpow_pos e
  refine roundQuotient_eq (unscale_pos hd e) ?_ ?_ fun hm => ?_
  · rw [unscale_ratio, le_div_iff₀ hpow]
    exact le_trans (mul_le_mul_of_nonneg_right (by linarith) hpow.le) h.low
  · rw [unscale_ratio, div_le_iff₀ hpow]
    exact h.high
  · rw [unscale_ratio, lt_div_iff₀ hpow, div_lt_iff₀ hpow]
    obtain ⟨hlow, hhigh⟩ := h.inside hm
    exact ⟨lt_of_le_of_lt (mul_le_mul_of_nonneg_right (by linarith) hpow.le) hlow, hhigh⟩

theorem settle_of_inFormat (h : InFormat m e) (negative : Bool) :
    settle negative m e = .finite negative m e := by
  have hm := h.mantissa_lt
  have he := h.le_maxExponent
  unfold settle
  rw [if_neg (by omega)]
  exact if_neg (by omega)

/-- A mantissa that was rounded up to the next power of two is written at the exponent above. -/
theorem settle_carry (he : e ≤ maxExponent) (negative : Bool) :
    settle negative (2 * leastNormal) (e - 1) = .finite negative leastNormal e := by
  unfold settle
  rw [if_pos rfl]
  simp only [sub_add_cancel]
  exact if_neg (by omega)

/-- Only the interval of a power of two reaches below all normal fractions of its exponent. -/
theorem Rounds.eq_leastNormal (hf : InFormat m e) (h : Rounds m e v) (hmin : e ≠ minExponent)
    (hbelow : v < leastNormal * 2 ^ e) : m = leastNormal ∧ reachBelow m e = 1 := by
  have hnormal : leastNormal ≤ m := hf.normal.resolve_right hmin
  have hfirst : m = leastNormal := by
    by_contra hne
    have hlarge : (leastNormal : ℚ) + 1 ≤ m := by
      exact_mod_cast (show leastNormal + 1 ≤ m by omega)
    have hscaled := mul_le_mul_of_nonneg_right
      (show (leastNormal : ℚ) ≤ m - reachBelow m e / 4 by linarith [reachBelow_le m e])
      (two_zpow_pos e).le
    linarith [h.low]
  exact ⟨hfirst, if_pos ⟨hfirst, lt_of_le_of_ne hf.minExponent_le hmin.symm⟩⟩

/-- A fraction a little below a power of two is rounded up to it at the exponent below. -/
theorem roundQuotient_below_power (hd : 0 < den)
    (hlow : (leastNormal - 1 / 4 : ℚ) * (2 * 2 ^ (e - 1)) ≤ num / den)
    (hbelow : (num / den : ℚ) < leastNormal * (2 * 2 ^ (e - 1))) :
    roundQuotient (unscale num den (e - 1)).1 (unscale num den (e - 1)).2 = 2 * leastNormal := by
  have hpow := two_zpow_pos (e - 1)
  refine roundQuotient_eq (unscale_pos hd _) ?_ ?_ fun hodd => by omega
  · rw [unscale_ratio, le_div_iff₀ hpow]
    push_cast
    linarith
  · rw [unscale_ratio, div_le_iff₀ hpow]
    push_cast
    linarith

/-- Each fraction in the interval of a number becomes that number. -/
theorem Rounds.ofRatio (hf : InFormat m e) (hm : m ≠ 0) (hd : 0 < den)
    (h : Rounds m e (num / den)) (negative : Bool) :
    Binary64.ofRatio negative num den = .finite negative m e := by
  have hv := h.pos hm
  have hn : 0 < num := by
    rw [Nat.pos_iff_ne_zero]
    rintro rfl
    simp at hv
  have hmantissa : (m : ℚ) + 1 ≤ 2 * leastNormal := by exact_mod_cast hf.mantissa_lt
  have hlt : (num / den : ℚ) < 2 * leastNormal * 2 ^ e :=
    h.high.trans_lt (mul_lt_mul_of_pos_right (by linarith) (two_zpow_pos e))
  by_cases hnormal : leastNormal * 2 ^ e ≤ (num / den : ℚ) ∨ e = minExponent
  · have hs : IsScale (num / den) e := ⟨hf.minExponent_le, hlt, hnormal⟩
    rw [ofRatio_of_isScale hn hd hs, h.roundQuotient hd, settle_of_inFormat hf]
  · obtain ⟨hbelow, hmin⟩ := not_or.mp hnormal
    rw [not_le] at hbelow
    obtain ⟨rfl, hreach⟩ := h.eq_leastNormal hf hmin hbelow
    have hlow := h.low
    rw [hreach, Nat.cast_one, two_zpow_pred e] at hlow
    rw [two_zpow_pred e] at hbelow
    have hleast : (1 : ℚ) ≤ leastNormal := by norm_num [leastNormal]
    have hs : IsScale (num / den) (e - 1) := by
      have hle := hf.minExponent_le
      refine ⟨by omega, by linarith, .inl ?_⟩
      nlinarith [two_zpow_pos (e - 1)]
    rw [ofRatio_of_isScale hn hd hs, roundQuotient_below_power hd hlow hbelow,
      settle_carry hf.le_maxExponent]

/-! ## Numbers of the format -/

theorem wellFormed_zero (negative : Bool) : (zero negative).WellFormed :=
  ⟨by decide, le_rfl, by decide, .inr rfl⟩

theorem roundQuotient_bounds (n d : ℕ) : n / d ≤ roundQuotient n d ∧ roundQuotient n d ≤ n / d + 1 := by
  unfold roundQuotient
  dsimp only
  split_ifs
  · exact ⟨Nat.le_succ _, le_rfl⟩
  · exact ⟨le_rfl, Nat.le_succ _⟩

theorem wellFormed_settle (hmin : minExponent ≤ e) (hm : m ≤ 2 * leastNormal)
    (hnormal : leastNormal ≤ m ∨ e = minExponent) (negative : Bool) :
    (settle negative m e).WellFormed := by
  unfold settle
  by_cases hcarry : m = 2 * leastNormal
  · simp only [if_pos hcarry]
    split_ifs with he
    · trivial
    · exact ⟨by decide, by omega, by omega, .inl le_rfl⟩
  · simp only [if_neg hcarry]
    split_ifs with he
    · trivial
    · exact ⟨lt_of_le_of_ne hm hcarry, hmin, by omega, hnormal⟩

/-- What a fraction becomes is a number of the format. -/
theorem wellFormed_ofRatio (hd : 0 < den) (negative : Bool) (num : ℕ) :
    (Binary64.ofRatio negative num den).WellFormed := by
  by_cases hn : num = 0
  · rw [Binary64.ofRatio, if_pos hn]
    exact wellFormed_zero negative
  have hs := isScale_scale (Nat.pos_of_ne_zero hn) hd
  rw [ofRatio_eq_settle hn]
  generalize scale num den = e at hs
  have hd' : 0 < (unscale num den e).2 := unscale_pos hd e
  have hratio := unscale_ratio num den e
  obtain ⟨hdown, hup⟩ := roundQuotient_bounds (unscale num den e).1 (unscale num den e).2
  have hlt : (unscale num den e).1 / (unscale num den e).2 < 2 * leastNormal := by
    have hv := hs.lt
    rw [← div_lt_iff₀ (two_zpow_pos e), ← hratio, div_lt_iff₀ (by exact_mod_cast hd')] at hv
    rw [Nat.div_lt_iff_lt_mul hd']
    exact_mod_cast hv
  refine wellFormed_settle hs.minExponent_le (by omega) (hs.normal.imp_left fun hv => ?_) negative
  rw [← le_div_iff₀ (two_zpow_pos e), ← hratio, le_div_iff₀ (by exact_mod_cast hd')] at hv
  refine le_trans ?_ hdown
  rw [Nat.le_div_iff_mul_le hd']
  exact_mod_cast hv

theorem wellFormed_ofDecimal (negative : Bool) (digits : ℕ) (exponent : ℤ) :
    (ofDecimal negative digits exponent).WellFormed := by
  unfold ofDecimal
  dsimp only
  split_ifs
  · exact wellFormed_zero negative
  · trivial
  · exact wellFormed_zero negative
  · exact wellFormed_ofRatio (Nat.pow_pos (by decide)) negative _
  · exact wellFormed_ofRatio Nat.one_pos negative _

end InterfaceTables.Binary64
