import InterfaceTables.Decimal.Reader
import InterfaceTables.Decimal.Shortest
import InterfaceTables.Proofs.Rounding

/-!
The shortest digits of a binary64 number lie in its interval. At the latest the grid of seventeen digits
has a point there, since its step is smaller than the interval.
-/

namespace InterfaceTables.Decimal

open Binary64

/-! ## Powers and fractions -/

theorem ten_zpow_pos (e : ℤ) : (0 : ℚ) < 10 ^ e := by positivity

theorem ratio_value (m : ℕ) (e : ℤ) : ((ratio m e).1 : ℚ) / (ratio m e).2 = m * 2 ^ e := by
  unfold ratio
  split_ifs with he
  · obtain ⟨k, rfl⟩ : ∃ k : ℕ, e = -k := ⟨(-e).toNat, by omega⟩
    simp only [neg_neg, Int.toNat_natCast, Nat.pow_eq, Nat.cast_pow, Nat.cast_ofNat, zpow_neg,
      zpow_natCast, div_eq_mul_inv]
  · obtain ⟨k, rfl⟩ : ∃ k : ℕ, e = k := ⟨e.toNat, by omega⟩
    simp only [Int.toNat_natCast, Nat.pow_eq, Nat.cast_mul, Nat.cast_pow, Nat.cast_ofNat, zpow_natCast,
      Nat.cast_one, div_one]

theorem ratio_pos (m : ℕ) (e : ℤ) : 0 < (ratio m e).2 := by
  unfold ratio
  split_ifs
  · exact Nat.pow_pos (by decide)
  · exact Nat.one_pos

theorem tenPower_value (e : ℤ) : ((tenPower e).1 : ℚ) / (tenPower e).2 = 10 ^ e := by
  unfold tenPower
  split_ifs with he
  · obtain ⟨k, rfl⟩ : ∃ k : ℕ, e = -k := ⟨(-e).toNat, by omega⟩
    simp only [neg_neg, Int.toNat_natCast, Nat.pow_eq, Nat.cast_pow, Nat.cast_ofNat, Nat.cast_one,
      zpow_neg, zpow_natCast, one_div]
  · obtain ⟨k, rfl⟩ : ∃ k : ℕ, e = k := ⟨e.toNat, by omega⟩
    simp only [Int.toNat_natCast, Nat.pow_eq, Nat.cast_pow, Nat.cast_ofNat, Nat.cast_one, zpow_natCast,
      div_one]

theorem tenPower_pos (e : ℤ) : 0 < (tenPower e).1 ∧ 0 < (tenPower e).2 := by
  unfold tenPower
  split_ifs
  · exact ⟨Nat.one_pos, Nat.pow_pos (by decide)⟩
  · exact ⟨Nat.pow_pos (by decide), Nat.one_pos⟩

theorem length_toDigits_bounds {n : ℕ} (hn : 0 < n) :
    10 ^ ((Nat.toDigits 10 n).length - 1) ≤ n ∧ n < 10 ^ (Nat.toDigits 10 n).length := by
  have hpos : 0 < (Nat.toDigits 10 n).length := Nat.length_toDigits_pos
  refine ⟨?_, (Nat.length_toDigits_le_iff (by decide) hpos).mp le_rfl⟩
  by_cases hone : (Nat.toDigits 10 n).length = 1
  · rw [hone]
    exact hn
  · rw [← not_lt, ← Nat.length_toDigits_le_iff (by decide) (by omega)]
    omega

/-- A fraction is below the power of ten of its magnitude, and not below the one before. -/
theorem magnitude_bounds {num den : ℕ} (hn : 0 < num) (hd : 0 < den) :
    (10 : ℚ) ^ (magnitude num den - 1) ≤ num / den ∧ (num / den : ℚ) < 10 ^ magnitude num den := by
  have hn' : (0 : ℚ) < num := by exact_mod_cast hn
  have hd' : (0 : ℚ) < den := by exact_mod_cast hd
  unfold magnitude
  split_ifs with hle
  · obtain ⟨hlow, hhigh⟩ := length_toDigits_bounds (Nat.div_pos hle hd)
    have hlen : 0 < (Nat.toDigits 10 (num / den)).length := Nat.length_toDigits_pos
    generalize (Nat.toDigits 10 (num / den)).length = len at hlow hhigh hlen
    rw [Nat.le_div_iff_mul_le hd] at hlow
    rw [Nat.div_lt_iff_lt_mul hd] at hhigh
    have hcast : (len : ℤ) - 1 = (len - 1 : ℕ) := by omega
    rw [hcast, zpow_natCast, zpow_natCast, le_div_iff₀ hd', div_lt_iff₀ hd']
    exact ⟨by exact_mod_cast hlow, by exact_mod_cast hhigh⟩
  · -- Below one the magnitude is told from the fraction turned over.
    obtain ⟨hlow, hhigh⟩ := length_toDigits_bounds (Nat.div_pos (not_le.mp hle).le hn)
    have hlen : 0 < (Nat.toDigits 10 (den / num)).length := Nat.length_toDigits_pos
    generalize (Nat.toDigits 10 (den / num)).length = len at hlow hhigh hlen
    obtain ⟨k, rfl⟩ : ∃ k, len = k + 1 := ⟨len - 1, by omega⟩
    simp only [Nat.add_sub_cancel, Nat.pow_eq] at hlow ⊢
    rw [Nat.le_div_iff_mul_le hn] at hlow
    rw [Nat.div_lt_iff_lt_mul hn, pow_succ] at hhigh
    have hlow' : (10 : ℚ) ^ k * num ≤ den := by exact_mod_cast hlow
    have hhigh' : (den : ℚ) < 10 ^ k * 10 * num := by exact_mod_cast hhigh
    have hten : (0 : ℚ) < 10 ^ k := by positivity
    split_ifs with hpow
    · have hpow' : (den : ℚ) ≤ num * 10 ^ k := by exact_mod_cast hpow
      rw [show (1 : ℤ) - k - 1 = -k by omega, zpow_sub₀ (by norm_num), zpow_one, zpow_neg, zpow_natCast,
        inv_eq_one_div, div_le_div_iff₀ hten hd', div_lt_div_iff₀ hd' hten]
      exact ⟨by linarith, by linarith⟩
    · have hpow' : (num : ℚ) * 10 ^ k < den := by exact_mod_cast not_le.mp hpow
      rw [zpow_sub₀ (by norm_num), zpow_one, zpow_neg, zpow_natCast, inv_eq_one_div, div_div,
        div_le_div_iff₀ (by positivity) hd', div_lt_div_iff₀ hd' hten]
      exact ⟨by linarith, by linarith⟩

/-! ## Points of a decimal grid -/

/-- One number is below another, or equal to it where the interval is closed. -/
def Below (closed : Bool) (a b : ℚ) : Prop := a ≤ b ∧ (closed = false → a < b)

theorem Below.of_lt {closed : Bool} {a b : ℚ} (h : a < b) : Below closed a b := ⟨h.le, fun _ => h⟩

theorem le_of_not_below {closed : Bool} {a b : ℚ} (h : ¬ Below closed a b) : b ≤ a :=
  le_of_not_gt fun hlt => h (.of_lt hlt)

/-- The point of the grid that is next below a number. -/
def gridBelow (value unit : ℕ) (grid : ℤ) : ℕ :=
  value * (tenPower grid).2 / ((tenPower grid).1 * unit)

section Grid

variable {unit : ℕ}

/-- The comparison of a number with a point of the grid, carried out in whole numbers. -/
theorem scaled_lt_iff (hu : 0 < unit) (a c : ℕ) (grid : ℤ) :
    a * (tenPower grid).2 < c * ((tenPower grid).1 * unit) ↔ (a / unit : ℚ) < c * 10 ^ grid := by
  have hu' : (0 : ℚ) < unit := by exact_mod_cast hu
  have hden : (0 : ℚ) < (tenPower grid).2 := by exact_mod_cast (tenPower_pos grid).2
  rw [← tenPower_value grid, ← mul_div_assoc, div_lt_div_iff₀ hu' hden, mul_assoc]
  exact_mod_cast Iff.rfl

theorem lt_scaled_iff (hu : 0 < unit) (a c : ℕ) (grid : ℤ) :
    c * ((tenPower grid).1 * unit) < a * (tenPower grid).2 ↔ c * 10 ^ grid < (a / unit : ℚ) := by
  have hu' : (0 : ℚ) < unit := by exact_mod_cast hu
  have hden : (0 : ℚ) < (tenPower grid).2 := by exact_mod_cast (tenPower_pos grid).2
  rw [← tenPower_value grid, ← mul_div_assoc, div_lt_div_iff₀ hden hu', mul_assoc]
  exact_mod_cast Iff.rfl

theorem gridBelow_bounds (hu : 0 < unit) (value : ℕ) (grid : ℤ) :
    gridBelow value unit grid * 10 ^ grid ≤ (value / unit : ℚ) ∧
      (value / unit : ℚ) < (gridBelow value unit grid + 1 : ℕ) * 10 ^ grid := by
  have hstep : 0 < (tenPower grid).1 * unit := Nat.mul_pos (tenPower_pos grid).1 hu
  constructor
  · rw [← not_lt, ← scaled_lt_iff hu, not_lt]
    exact Nat.div_mul_le_self _ _
  · rw [← scaled_lt_iff hu, ← Nat.div_lt_iff_lt_mul hstep]
    exact Nat.lt_succ_self _

/-- A comparison in whole numbers that is strict only in an open interval. -/
theorem below_iff {x y : ℕ} {a b : ℚ} (closed : Bool) (hlt : x < y ↔ a < b) (hgt : y < x ↔ b < a) :
    (if closed then decide (x ≤ y) else decide (x < y)) = true ↔ Below closed a b := by
  cases closed
  · simp only [Bool.false_eq_true, if_false, decide_eq_true_iff, hlt, Below, forall_const]
    exact ⟨fun h => ⟨h.le, h⟩, And.right⟩
  · simp only [if_true, decide_eq_true_iff, Below, Bool.true_eq_false, false_imp_iff, and_true]
    rw [← not_lt, hgt, not_lt]

/-- A neighbour is taken only if it lies on its side of the interval, and none only if neither
does. -/
theorem gridPoint?_cases (tie : Tie) (closed : Bool) (low value high : ℕ) (hu : 0 < unit) (grid : ℤ) :
    (gridPoint? tie closed low value high unit grid = none ∧
        ¬ Below closed (low / unit) (gridBelow value unit grid * 10 ^ grid) ∧
        ¬ Below closed ((gridBelow value unit grid + 1 : ℕ) * 10 ^ grid) (high / unit)) ∨
      (gridPoint? tie closed low value high unit grid = some (gridBelow value unit grid) ∧
        Below closed (low / unit) (gridBelow value unit grid * 10 ^ grid)) ∨
      (gridPoint? tie closed low value high unit grid = some (gridBelow value unit grid + 1) ∧
        Below closed ((gridBelow value unit grid + 1 : ℕ) * 10 ^ grid) (high / unit)) := by
  rw [← below_iff closed (scaled_lt_iff hu low _ grid) (lt_scaled_iff hu low _ grid),
    ← below_iff closed (lt_scaled_iff hu high _ grid) (scaled_lt_iff hu high _ grid)]
  unfold gridPoint?
  dsimp only
  rw [← gridBelow]
  generalize (if closed then _ else _ : Bool) = below
  generalize (if closed then _ else _ : Bool) = above
  cases below <;> cases above
  · simp
  · simp
  · simp
  · dsimp only
    split_ifs <;> cases tie <;> simp

/-- A point that is taken lies in the interval. -/
theorem gridPoint?_within {tie : Tie} {closed : Bool} {low value high n : ℕ} {grid : ℤ}
    (hu : 0 < unit) (hlow : low ≤ value) (hhigh : value < high)
    (h : gridPoint? tie closed low value high unit grid = some n) :
    Below closed (low / unit) (n * 10 ^ grid) ∧ Below closed (n * 10 ^ grid) (high / unit) ∧
      gridBelow value unit grid ≤ n := by
  have hu' : (0 : ℚ) < unit := by exact_mod_cast hu
  obtain ⟨hle, hlt⟩ := gridBelow_bounds hu value grid
  have hlow' : (low / unit : ℚ) ≤ value / unit := by gcongr
  have hhigh' : (value / unit : ℚ) < high / unit := by gcongr
  rcases gridPoint?_cases tie closed low value high hu grid with ⟨hnone, -⟩ | ⟨hsome, hin⟩ | ⟨hsome, hin⟩
  · rw [hnone] at h
    cases h
  · obtain rfl : gridBelow value unit grid = n := Option.some.inj (hsome.symm.trans h)
    exact ⟨hin, .of_lt (hle.trans_lt hhigh'), le_rfl⟩
  · obtain rfl : gridBelow value unit grid + 1 = n := Option.some.inj (hsome.symm.trans h)
    exact ⟨.of_lt (hlow'.trans_lt hlt), hin, Nat.le_succ _⟩

/-- A grid whose step is smaller than the interval has a point in it. -/
theorem gridPoint?_ne_none (tie : Tie) (closed : Bool) {low high : ℕ} (value : ℕ) {grid : ℤ}
    (hu : 0 < unit) (h : (10 : ℚ) ^ grid < high / unit - low / unit) :
    gridPoint? tie closed low value high unit grid ≠ none := by
  intro hnone
  rcases gridPoint?_cases tie closed low value high hu grid with ⟨-, hlow, hhigh⟩ | ⟨hsome, -⟩ | ⟨hsome, -⟩
  · have hlow := le_of_not_below hlow
    have hhigh := le_of_not_below hhigh
    rw [Nat.cast_add, Nat.cast_one, add_mul, one_mul] at hhigh
    linarith
  · rw [hnone] at hsome
    cases hsome
  · rw [hnone] at hsome
    cases hsome

end Grid

/-! ## Significant digits -/

theorem ofDigits_eq_ofDigitChars (ds : List Char) : ofDigits ds = Nat.ofDigitChars 10 ds 0 := by
  rw [Nat.ofDigitChars_eq_foldl]
  rfl

theorem ofDigits_toDigits (n : ℕ) : ofDigits (Nat.toDigits 10 n) = n := by
  rw [ofDigits_eq_ofDigitChars, Nat.ofDigitChars_ten_toDigits]

theorem ofDigits_append (ds es : List Char) :
    ofDigits (ds ++ es) = 10 ^ es.length * ofDigits ds + ofDigits es := by
  simp only [ofDigits_eq_ofDigitChars]
  rw [Nat.ofDigitChars_append, Nat.ofDigitChars_eq_ofDigitChars_zero]

theorem ofDigits_append_zeros (ds : List Char) (z : ℕ) :
    ofDigits (ds ++ List.replicate z '0') = 10 ^ z * ofDigits ds := by
  simp only [ofDigits_eq_ofDigitChars]
  rw [Nat.ofDigitChars_append, Nat.ofDigitChars_replicate_zero]

theorem ofDigits_zeros_append (z : ℕ) (ds : List Char) :
    ofDigits (List.replicate z '0' ++ ds) = ofDigits ds := by
  simp only [ofDigits_eq_ofDigitChars]
  rw [Nat.ofDigitChars_append, Nat.ofDigitChars_replicate_zero, Nat.mul_zero]

theorem exists_reverse_eq_append_zeros (l : List Char) :
    ∃ z, l.reverse = (l.dropWhile (· == '0')).reverse ++ List.replicate z '0' := by
  induction l with
  | nil => exact ⟨0, rfl⟩
  | cons c l ih =>
    by_cases hc : c = '0'
    · obtain ⟨z, hz⟩ := ih
      refine ⟨z + 1, ?_⟩
      rw [List.reverse_cons, hz, hc, List.replicate_succ', ← List.append_assoc]
      rfl
    · exact ⟨0, by simp [hc]⟩

/-- Only zeros are taken from the end of the digits. -/
theorem exists_toDigits_eq_append_zeros (n : ℕ) :
    ∃ z, Nat.toDigits 10 n = significantDigits n ++ List.replicate z '0' := by
  obtain ⟨z, hz⟩ := exists_reverse_eq_append_zeros (Nat.toDigits 10 n).reverse
  rw [List.reverse_reverse] at hz
  exact ⟨z, hz⟩

theorem head?_toDigits_ne_zero {n : ℕ} (hn : 0 < n) : (Nat.toDigits 10 n).head? ≠ some '0' := by
  induction n using Nat.strong_induction_on with
  | h n ih =>
    rw [Nat.toDigits_eq_if (by decide)]
    split_ifs with hlt
    · intro h
      exact hn.ne' (Nat.digitChar_eq_zero.mp (Option.some.inj h))
    · rw [List.head?_append_of_ne_nil _ Nat.toDigits_ne_nil]
      exact ih (n / 10) (by omega) (by omega)

/-- Decimal digits, of which the first is not zero. -/
structure Leading (ds : List Char) : Prop where
  digits : ∀ c ∈ ds, c.isDigit = true
  ne_nil : ds ≠ []
  head_ne : ds.head? ≠ some '0'

theorem leading_significantDigits {n : ℕ} (hn : 0 < n) : Leading (significantDigits n) := by
  obtain ⟨z, hz⟩ := exists_toDigits_eq_append_zeros n
  have hhead := head?_toDigits_ne_zero hn
  have hne : significantDigits n ≠ [] := by
    intro hnil
    rw [hnil, List.nil_append] at hz
    cases z with
    | zero => exact Nat.toDigits_ne_nil hz
    | succ z => exact hhead (by rw [hz]; rfl)
  refine ⟨fun c hc => ?_, hne, ?_⟩
  · exact Nat.isDigit_of_mem_toDigits (by decide) (by decide) (hz ▸ List.mem_append_left _ hc)
  · rwa [hz, List.head?_append_of_ne_nil _ hne] at hhead

/-! ## The shortest digits -/

/-- The number that digits with a point stand for. -/
def Digits.value (d : Digits) : ℚ := ofDigits d.digits * 10 ^ (d.point - d.digits.length)

/-- The digits of a point of a grid, with the point of the grid moved past the digits that are there
beyond the wanted ones. -/
theorem value_significantDigits {n count : ℕ} (point : ℤ) (hcount : count ≤ (Nat.toDigits 10 n).length) :
    Digits.value ⟨significantDigits n, point + ((Nat.toDigits 10 n).length - count : ℕ)⟩ =
      n * 10 ^ (point - count) := by
  obtain ⟨z, hz⟩ := exists_toDigits_eq_append_zeros n
  have hvalue : n = 10 ^ z * ofDigits (significantDigits n) := by
    rw [← ofDigits_append_zeros, ← hz, ofDigits_toDigits]
  have hlength : (Nat.toDigits 10 n).length = (significantDigits n).length + z := by
    rw [hz, List.length_append, List.length_replicate]
  have hplace : point + ((Nat.toDigits 10 n).length - count : ℕ) - (significantDigits n).length =
      z + (point - count) := by omega
  unfold Digits.value
  rw [hplace, zpow_add₀ (by norm_num), zpow_natCast]
  conv_rhs => rw [hvalue]
  push_cast
  ring

variable {m : ℕ} {e : ℤ}

/-- The numbers of a count of digits are on the grid that has this many places. -/
theorem count_le_length_toDigits {value unit n count : ℕ} {point : ℤ} (hu : 0 < unit)
    (hlow : (10 : ℚ) ^ (point - 1) ≤ value / unit) (hcount : 0 < count)
    (hn : gridBelow value unit (point - count) ≤ n) : count ≤ (Nat.toDigits 10 n).length := by
  by_contra hlt
  have hten := ten_zpow_pos (point - count)
  have hbelow : n < 10 ^ (count - 1) := by
    have hlen : 0 < (Nat.toDigits 10 n).length := Nat.length_toDigits_pos
    rw [← Nat.length_toDigits_le_iff (by decide) (by omega)]
    omega
  have hnext : (gridBelow value unit (point - count) + 1 : ℕ) ≤ 10 ^ (count - 1) := by omega
  have hnext' : ((gridBelow value unit (point - count) + 1 : ℕ) : ℚ) ≤ 10 ^ (count - 1) := by
    exact_mod_cast hnext
  have hsplit : (10 : ℚ) ^ (point - 1) = 10 ^ (count - 1) * 10 ^ (point - count) := by
    rw [← zpow_natCast, ← zpow_add₀ (by norm_num)]
    congr 1
    omega
  have hvalue := (gridBelow_bounds hu value (point - count)).2
  have hbound := mul_le_mul_of_nonneg_right hnext' hten.le
  linarith

/-- A quarter of the unit of an exponent, as a fraction. -/
theorem quarters_value (a : ℕ) (e : ℤ) :
    ((a * (ratio 1 (e - 2)).1 : ℕ) : ℚ) / (ratio 1 (e - 2)).2 = a / 4 * 2 ^ e := by
  rw [Nat.cast_mul, mul_div_assoc, ratio_value, Nat.cast_one, one_mul, zpow_sub₀ (by norm_num)]
  ring

/-- The power of ten just above a number. -/
def place (m : ℕ) (e : ℤ) : ℤ := magnitude (4 * m * (ratio 1 (e - 2)).1) (ratio 1 (e - 2)).2

/-- The point of the interval on the grid of a count of digits. -/
def candidate? (tie : Tie) (m : ℕ) (e : ℤ) (count : ℕ) : Option ℕ :=
  gridPoint? tie (m % 2 == 0) ((4 * m - reachBelow m e) * (ratio 1 (e - 2)).1)
    (4 * m * (ratio 1 (e - 2)).1) ((4 * m + 2) * (ratio 1 (e - 2)).1) (ratio 1 (e - 2)).2
    (place m e - count)

theorem shortest_eq (tie : Tie) (m : ℕ) (e : ℤ) :
    shortest tie m e =
      match (List.range 17).findSome? fun k => (candidate? tie m e (k + 1)).map (k + 1, ·) with
      | some (count, n) =>
        ⟨significantDigits n, place m e + ((Nat.toDigits 10 n).length - count : ℕ)⟩
      | none => ⟨['0'], place m e⟩ := rfl

theorem unit_pos (e : ℤ) : 0 < (ratio 1 (e - 2)).1 := by
  unfold ratio
  split_ifs
  · exact Nat.one_pos
  · exact Nat.mul_pos Nat.one_pos (Nat.pow_pos (by decide))

/-- A number is at least the power of ten before its place. -/
theorem place_le (e : ℤ) (hm : m ≠ 0) : (10 : ℚ) ^ (place m e - 1) ≤ m * 2 ^ e := by
  have hpos : 0 < 4 * m * (ratio 1 (e - 2)).1 := Nat.mul_pos (by omega) (unit_pos e)
  have hvalue := (magnitude_bounds hpos (ratio_pos 1 (e - 2))).1
  rwa [quarters_value, Nat.cast_mul, Nat.cast_ofNat, mul_div_cancel_left₀ _ (by norm_num)] at hvalue

theorem reachBelow_cast (e : ℤ) (hm : m ≠ 0) :
    ((4 * m - reachBelow m e : ℕ) : ℚ) / 4 = m - reachBelow m e / 4 := by
  have hreach : reachBelow m e ≤ 4 * m := by
    have htwo : reachBelow m e ≤ 2 := by exact_mod_cast reachBelow_le m e
    omega
  rw [Nat.cast_sub hreach]
  push_cast
  ring

theorem rounds_of_candidate? {tie : Tie} {count n : ℕ} (hm : m ≠ 0) (hcount : 0 < count)
    (h : candidate? tie m e count = some n) :
    Rounds m e (n * 10 ^ (place m e - count)) ∧ count ≤ (Nat.toDigits 10 n).length := by
  have hunit := unit_pos e
  have hden := ratio_pos 1 (e - 2)
  obtain ⟨hlow, hhigh, hbelow⟩ := gridPoint?_within hden (Nat.mul_le_mul_right _ (Nat.sub_le _ _))
    (Nat.mul_lt_mul_of_pos_right (Nat.lt_add_of_pos_right (by decide)) hunit) h
  rw [quarters_value, reachBelow_cast e hm] at hlow
  rw [quarters_value, show ((4 * m + 2 : ℕ) : ℚ) / 4 = m + 1 / 2 by push_cast; ring] at hhigh
  refine ⟨⟨hlow.1, hhigh.1, fun hodd => ?_⟩, ?_⟩
  · have hopen : (m % 2 == 0) = false := by simp [hodd]
    exact ⟨hlow.2 hopen, hhigh.2 hopen⟩
  · refine count_le_length_toDigits hden ?_ hcount hbelow
    rw [quarters_value, Nat.cast_mul, Nat.cast_ofNat, mul_div_cancel_left₀ _ (by norm_num)]
    exact place_le e hm

/-- Seventeen digits tell all numbers of the format apart. -/
theorem candidate?_seventeen (tie : Tie) (hf : InFormat m e) (hm : m ≠ 0) :
    candidate? tie m e 17 ≠ none := by
  refine gridPoint?_ne_none _ _ _ (ratio_pos 1 (e - 2)) ?_
  rw [quarters_value, quarters_value, reachBelow_cast e hm, ← sub_mul]
  have htwo := two_zpow_pos e
  have hstep : (10 : ℚ) ^ (place m e - (17 : ℕ)) = 10 ^ (place m e - 1) / 10 ^ 16 := by
    rw [← zpow_natCast, ← zpow_sub₀ (by norm_num)]
    congr 1
    push_cast
    omega
  have hwidth : (m : ℚ) / 10 ^ 16 < (4 * m + 2 : ℕ) / 4 - (m - reachBelow m e / 4) := by
    have hlt := hf.mantissa_lt
    unfold reachBelow
    split_ifs with hpower
    · rw [hpower.1, leastNormal]
      norm_num
    · have hlt' : (m : ℚ) < 2 * leastNormal := by exact_mod_cast hlt
      rw [leastNormal] at hlt'
      push_cast at hlt' ⊢
      linarith
  calc (10 : ℚ) ^ (place m e - (17 : ℕ)) = 10 ^ (place m e - 1) / 10 ^ 16 := hstep
    _ ≤ m * 2 ^ e / 10 ^ 16 := by gcongr; exact place_le e hm
    _ = m / 10 ^ 16 * 2 ^ e := by ring
    _ < _ := by gcongr

/-- The shortest digits of a number are in its interval. -/
theorem shortest_spec (tie : Tie) (hf : InFormat m e) (hm : m ≠ 0) :
    Rounds m e (shortest tie m e).value ∧ Leading (shortest tie m e).digits := by
  rw [shortest_eq]
  split
  · rename_i count n hfound
    obtain ⟨k, -, hk⟩ := List.exists_of_findSome?_eq_some hfound
    rw [Option.map_eq_some_iff] at hk
    obtain ⟨n', hn', heq⟩ := hk
    cases heq
    obtain ⟨hrounds, hcount⟩ := rounds_of_candidate? hm (Nat.succ_pos k) hn'
    rw [value_significantDigits _ hcount]
    refine ⟨hrounds, leading_significantDigits (Nat.pos_of_ne_zero ?_)⟩
    rintro rfl
    have hpos := hrounds.pos hm
    simp at hpos
  · rename_i hnone
    rw [List.findSome?_eq_none_iff] at hnone
    have hlast := hnone 16 (by decide)
    rw [Option.map_eq_none_iff] at hlast
    exact absurd hlast (candidate?_seventeen tie hf hm)

end InterfaceTables.Decimal
