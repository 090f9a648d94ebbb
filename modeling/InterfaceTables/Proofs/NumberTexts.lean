import InterfaceTables.Decimal.Layout
import InterfaceTables.Proofs.ShortestDigits
import Mathlib.Data.List.TakeWhile

/-!
The texts of numbers read back. A whole number has one text, without a plus sign or zeros before it. The
text of a binary64 number without an exponent gives that number, bit for bit.
-/

namespace InterfaceTables.Decimal

open Binary64

/-! ## Digits of a number -/

theorem digitValue_lt {c : Char} (hc : c.isDigit = true) : digitValue c < 10 := by
  rw [Char.isDigit_iff_toNat] at hc
  have hhigh : c.toNat ≤ 57 := hc.2
  have hvalue : digitValue c = c.toNat - 48 := rfl
  omega

theorem digitChar_digitValue {c : Char} (hc : c.isDigit = true) : (digitValue c).digitChar = c := by
  rw [← Char.toNat_inj, Nat.toNat_digitChar_of_lt_ten (digitValue_lt hc)]
  rw [Char.isDigit_iff_toNat] at hc
  have hlow : 48 ≤ c.toNat := hc.1
  have hvalue : digitValue c = c.toNat - 48 := rfl
  omega

theorem ofDigits_singleton (c : Char) : ofDigits [c] = digitValue c := by
  simp [ofDigits]

theorem digits_zeros (n : ℕ) : ∀ c ∈ zeros n, c.isDigit = true := by
  intro c hc
  rw [List.eq_of_mem_replicate hc]
  rfl

section Leading

variable {ds : List Char}

theorem Leading.ofDigits_pos (h : Leading ds) : 0 < ofDigits ds := by
  cases ds with
  | nil => exact absurd rfl h.ne_nil
  | cons c ds =>
    have hc : c.isDigit = true := h.digits c List.mem_cons_self
    have hpos : 0 < digitValue c := by
      rw [Nat.pos_iff_ne_zero]
      intro hzero
      have hchar := digitChar_digitValue hc
      rw [hzero] at hchar
      exact h.head_ne (congrArg some hchar.symm)
    rw [← List.singleton_append, ofDigits_append, ofDigits_singleton]
    positivity

/-- Digits of which the first is not zero are those of the number that they stand for. -/
theorem Leading.toDigits_ofDigits (h : Leading ds) : Nat.toDigits 10 (ofDigits ds) = ds := by
  induction ds using List.reverseRecOn with
  | nil => exact absurd rfl h.ne_nil
  | append_singleton ds c ih =>
    have hc : c.isDigit = true := h.digits c (by simp)
    have hlast : Nat.toDigits 10 (digitValue c) = [c] := by
      rw [Nat.toDigits_of_lt_base (digitValue_lt hc), digitChar_digitValue hc]
    by_cases hds : ds = []
    · rw [hds, List.nil_append, ofDigits_singleton, hlast]
    · have hhead := h.head_ne
      rw [List.head?_append_of_ne_nil _ hds] at hhead
      have hfront : Leading ds :=
        ⟨fun d hd => h.digits d (List.mem_append_left _ hd), hds, hhead⟩
      rw [ofDigits_append, ofDigits_singleton, List.length_singleton, pow_one,
        ← Nat.toDigits_append_toDigits (by decide) hfront.ofDigits_pos (digitValue_lt hc), ih hfront,
        hlast]

theorem Leading.append_zeros (h : Leading ds) (z : ℕ) : Leading (ds ++ zeros z) where
  digits c hc := (List.mem_append.mp hc).elim (h.digits c) (digits_zeros z c)
  ne_nil := by simp [h.ne_nil]
  head_ne := by rw [List.head?_append_of_ne_nil _ h.ne_nil]; exact h.head_ne

end Leading

/-! ## Whole numbers -/

/-- The sign of a number, where only a minus sign is written. -/
def signed (negative : Bool) (cs : List Char) : List Char := if negative then '-' :: cs else cs

/-- A whole number with its sign apart. -/
def signedInt (negative : Bool) (n : ℕ) : ℤ := if negative then -n else n

theorem splitSign_signed (negative : Bool) {c : Char} (hc : c.isDigit = true) (cs : List Char) :
    splitSign (signed negative (c :: cs)) = (negative, c :: cs) := by
  cases negative with
  | true => rfl
  | false =>
    unfold signed splitSign
    split
    · rename_i heq
      cases heq
      exact absurd hc (by decide)
    · rename_i heq
      cases heq
      exact absurd hc (by decide)
    · rfl

/-- Whole numbers are read from digits with an optional sign, if they have no more than 64 bits. -/
theorem readInt64?_eq_some_iff {cs : List Char} {i : ℤ} :
    readInt64? cs = some i ↔
      ((splitSign cs).2 ≠ [] ∧ ∀ c ∈ (splitSign cs).2, c.isDigit = true) ∧
        signedInt (splitSign cs).1 (ofDigits (splitSign cs).2) = i ∧ fitsInt64 i = true := by
  have hread : readInt64? cs =
      if ((splitSign cs).2.isEmpty || !(splitSign cs).2.all Char.isDigit) = true then none
      else if fitsInt64 (signedInt (splitSign cs).1 (ofDigits (splitSign cs).2)) = true then
        some (signedInt (splitSign cs).1 (ofDigits (splitSign cs).2))
      else none := rfl
  rw [hread, Option.ite_none_left_eq_some, Option.ite_none_right_eq_some, Option.some_inj]
  refine and_congr (by simp) ⟨?_, ?_⟩
  · rintro ⟨hfits, rfl⟩
    exact ⟨rfl, hfits⟩
  · rintro ⟨rfl, hfits⟩
    exact ⟨hfits, rfl⟩

theorem readInt64?_signed_eq_some_iff {ds : List Char} {i : ℤ} (negative : Bool) (hne : ds ≠ [])
    (hd : ∀ c ∈ ds, c.isDigit = true) :
    readInt64? (signed negative ds) = some i ↔
      signedInt negative (ofDigits ds) = i ∧ fitsInt64 i = true := by
  obtain ⟨c, cs, rfl⟩ := List.exists_cons_of_ne_nil hne
  rw [readInt64?_eq_some_iff, splitSign_signed negative (hd c List.mem_cons_self), and_iff_right ⟨hne, hd⟩]

/-- The text of a whole number. -/
theorem toList_toString_signedInt (negative : Bool) {n : ℕ} (hn : negative = true → 0 < n) :
    (toString (signedInt negative n)).toList = signed negative (Nat.toDigits 10 n) := by
  rw [Int.toString_eq_repr, Int.repr_eq_if]
  cases negative
  · simp [signedInt, signed, Nat.repr_eq_ofList_toDigits]
  · have hpos := hn rfl
    rw [if_neg (by simp [signedInt]; omega)]
    simp [signedInt, signed, Nat.repr_eq_ofList_toDigits]

theorem exists_eq_signedInt (i : ℤ) :
    ∃ negative n, i = signedInt negative n ∧ (negative = true → 0 < n) := by
  by_cases hi : i < 0
  · refine ⟨true, i.natAbs, ?_, fun _ => by omega⟩
    rw [signedInt, if_pos rfl]
    omega
  · refine ⟨false, i.natAbs, ?_, fun h => absurd h Bool.false_ne_true⟩
    rw [signedInt, if_neg Bool.false_ne_true]
    omega

/-- The text of a whole number of 64 bits gives that number. -/
theorem readInt64?_toString {i : ℤ} (h : fitsInt64 i = true) :
    readInt64? (toString i).toList = some i := by
  obtain ⟨negative, n, rfl, hn⟩ := exists_eq_signedInt i
  have hdigits : ∀ c ∈ Nat.toDigits 10 n, c.isDigit = true := fun c hc =>
    Nat.isDigit_of_mem_toDigits (by decide) (by decide) hc
  rw [toList_toString_signedInt negative hn,
    readInt64?_signed_eq_some_iff negative Nat.toDigits_ne_nil hdigits, ofDigits_toDigits]
  exact ⟨rfl, h⟩

/-- Digits that read as a whole number and do not begin with zero are its text. -/
theorem Leading.toString_of_readInt64? {ds : List Char} {i : ℤ} {negative : Bool} (hd : Leading ds)
    (h : readInt64? (signed negative ds) = some i) : toString i = String.ofList (signed negative ds) := by
  obtain ⟨rfl, -⟩ := (readInt64?_signed_eq_some_iff negative hd.ne_nil hd.digits).mp h
  rw [← String.toList_inj, toList_toString_signedInt negative fun _ => hd.ofDigits_pos,
    hd.toDigits_ofDigits, String.toList_ofList]

theorem mem_splitSign {cs : List Char} {c : Char} (hc : c ∈ cs) (hplus : c ≠ '+') (hminus : c ≠ '-') :
    c ∈ (splitSign cs).2 := by
  unfold splitSign
  split
  · exact (List.mem_cons.mp hc).resolve_left hminus
  · exact (List.mem_cons.mp hc).resolve_left hplus
  · exact hc

/-- A text with a point is no whole number. -/
theorem readInt64?_of_point_mem {cs : List Char} (h : '.' ∈ cs) : readInt64? cs = none := by
  rw [Option.eq_none_iff_forall_ne_some]
  intro i hi
  obtain ⟨⟨-, hd⟩, -⟩ := readInt64?_eq_some_iff.mp hi
  exact absurd (hd '.' (mem_splitSign h (by decide) (by decide))) (by decide)

/-! ## Decimal numbers -/

variable {m : ℕ} {e : ℤ}

theorem two_zpow_lt_ten_zpow : (2 : ℚ) ^ (1100 : ℤ) < 10 ^ (400 : ℤ) := by
  rw [show (1100 : ℤ) = 11 * (100 : ℕ) by norm_num, show (400 : ℤ) = 4 * (100 : ℕ) by norm_num, zpow_mul,
    zpow_mul, zpow_natCast, zpow_natCast]
  exact pow_lt_pow_left₀ (by norm_num) (by norm_num) (by norm_num)

/-- The numbers of the format have powers of two that are far from those that reading leaves out. -/
theorem two_zpow_bounds (hf : InFormat m e) :
    (10 : ℚ) ^ (-400 : ℤ) < 1 / 2 * 2 ^ e ∧ (2 * leastNormal + 1 / 2) * (2 : ℚ) ^ e < 10 ^ (400 : ℤ) := by
  have hmin := hf.minExponent_le
  have hmax := hf.le_maxExponent
  rw [minExponent] at hmin
  rw [maxExponent] at hmax
  constructor
  · calc (10 : ℚ) ^ (-400 : ℤ) < 2 ^ (-1100 : ℤ) := by
          rw [zpow_neg, zpow_neg]
          exact inv_strictAnti₀ (two_zpow_pos _) two_zpow_lt_ten_zpow
      _ ≤ 2 ^ (e - 1) := zpow_le_zpow_right₀ (by norm_num) (by omega)
      _ = 1 / 2 * 2 ^ e := by rw [two_zpow_pred e]; ring
  · calc (2 * leastNormal + 1 / 2) * (2 : ℚ) ^ e ≤ 2 ^ (54 : ℤ) * 2 ^ e := by
          gcongr
          norm_num [leastNormal]
      _ = 2 ^ (54 + e) := (zpow_add₀ (by norm_num) _ _).symm
      _ ≤ 2 ^ (1100 : ℤ) := zpow_le_zpow_right₀ (by norm_num) (by omega)
      _ < 10 ^ (400 : ℤ) := two_zpow_lt_ten_zpow

/-- The count of digits before the point of a number in an interval. -/
theorem size_bounds {n : ℕ} {k : ℤ} (hf : InFormat m e) (hm : m ≠ 0) (hn : n ≠ 0)
    (h : Rounds m e (n * 10 ^ k)) :
    -400 ≤ (Nat.toDigits 10 n).length + k ∧ (Nat.toDigits 10 n).length + k ≤ 400 := by
  have hone : (1 : ℚ) ≤ m := by exact_mod_cast Nat.one_le_iff_ne_zero.mpr hm
  have hten := ten_zpow_pos k
  obtain ⟨hlow, hhigh⟩ := length_toDigits_bounds (Nat.pos_of_ne_zero hn)
  have hlen : 0 < (Nat.toDigits 10 n).length := Nat.length_toDigits_pos
  generalize (Nat.toDigits 10 n).length = len at hlow hhigh hlen ⊢
  have hlow' : (10 : ℚ) ^ (len - 1) ≤ n := by exact_mod_cast hlow
  have hhigh' : (n : ℚ) < 10 ^ len := by exact_mod_cast hhigh
  have htwo := two_zpow_pos e
  constructor
  · have hleast : (10 : ℚ) ^ (-400 : ℤ) < 10 ^ (len + k) := by
      calc (10 : ℚ) ^ (-400 : ℤ) < 1 / 2 * 2 ^ e := (two_zpow_bounds hf).1
        _ ≤ (m - reachBelow m e / 4) * 2 ^ e := by
            gcongr
            linarith [reachBelow_le m e]
        _ ≤ n * 10 ^ k := h.low
        _ < 10 ^ len * 10 ^ k := by gcongr
        _ = 10 ^ (len + k) := by rw [zpow_add₀ (by norm_num), zpow_natCast]
    have hlt := (zpow_lt_zpow_iff_right₀ (by norm_num)).mp hleast
    omega
  · have hmantissa : (m : ℚ) ≤ 2 * leastNormal := by exact_mod_cast hf.mantissa_lt.le
    have hmost : (10 : ℚ) ^ (len - 1 + k) < 10 ^ (400 : ℤ) := by
      calc (10 : ℚ) ^ (len - 1 + k) = 10 ^ (len - 1) * 10 ^ k := by
            rw [zpow_add₀ (by norm_num), ← zpow_natCast, Nat.cast_sub hlen, Nat.cast_one]
        _ ≤ n * 10 ^ k := by gcongr
        _ ≤ (m + 1 / 2) * 2 ^ e := h.high
        _ ≤ (2 * leastNormal + 1 / 2) * 2 ^ e := by gcongr
        _ < 10 ^ (400 : ℤ) := (two_zpow_bounds hf).2
    have hlt := (zpow_lt_zpow_iff_right₀ (by norm_num)).mp hmost
    omega

/-- Digits and a power of ten that make a fraction in the interval of a number give that number. -/
theorem ofDecimal_of_rounds {n : ℕ} {k : ℤ} (negative : Bool) (hf : InFormat m e) (hm : m ≠ 0)
    (h : Rounds m e (n * 10 ^ k)) : ofDecimal negative n k = .finite negative m e := by
  have hn : n ≠ 0 := by
    rintro rfl
    have hpos := h.pos hm
    simp at hpos
  obtain ⟨hleast, hmost⟩ := size_bounds hf hm hn h
  unfold ofDecimal
  dsimp only
  rw [if_neg hn, if_neg (by omega), if_neg (by omega)]
  split_ifs with hk
  · obtain ⟨j, rfl⟩ : ∃ j : ℕ, k = -j := ⟨(-k).toNat, by omega⟩
    refine Rounds.ofRatio hf hm (Nat.pow_pos (by decide)) ?_ negative
    simpa [div_eq_mul_inv] using h
  · obtain ⟨j, rfl⟩ : ∃ j : ℕ, k = j := ⟨k.toNat, by omega⟩
    refine Rounds.ofRatio hf hm Nat.one_pos ?_ negative
    simpa using h

/-! ## Digits with a point -/

/-- Digits on both sides of a point, of which there is one before it. -/
structure Pointed (ws fs : List Char) : Prop where
  whole : ∀ c ∈ ws, c.isDigit = true
  fraction : ∀ c ∈ fs, c.isDigit = true
  ne_nil : ws ≠ []

section Reading

variable {ws fs : List Char}

theorem takeWhile_digits (hw : ∀ c ∈ ws, c.isDigit = true) {c : Char} (hc : c.isDigit = false)
    (cs : List Char) : (ws ++ c :: cs).takeWhile Char.isDigit = ws := by
  rw [List.takeWhile_append_of_pos hw]
  simp [hc]

theorem dropWhile_digits (hw : ∀ c ∈ ws, c.isDigit = true) {c : Char} (hc : c.isDigit = false)
    (cs : List Char) : (ws ++ c :: cs).dropWhile Char.isDigit = c :: cs := by
  rw [List.dropWhile_append_of_pos hw]
  simp [hc]

theorem readUnsigned?_whole (negative : Bool) (hw : ∀ c ∈ ws, c.isDigit = true) (hne : ws ≠ []) :
    readUnsigned? negative ws = some (ofDecimal negative (ofDigits ws) 0) := by
  have htake : ws.takeWhile Char.isDigit = ws := List.takeWhile_eq_self_iff.mpr hw
  have hdrop : ws.dropWhile Char.isDigit = [] := List.dropWhile_eq_nil_iff.mpr hw
  simp [readUnsigned?, htake, hdrop, hne, readExponent?]

theorem Pointed.readUnsigned? (negative : Bool) (h : Pointed ws fs) :
    readUnsigned? negative (ws ++ '.' :: fs) =
      some (ofDecimal negative (ofDigits (ws ++ fs)) (-fs.length)) := by
  have htake : fs.takeWhile Char.isDigit = fs := List.takeWhile_eq_self_iff.mpr h.fraction
  have hdrop : fs.dropWhile Char.isDigit = [] := List.dropWhile_eq_nil_iff.mpr h.fraction
  simp [Decimal.readUnsigned?, takeWhile_digits h.whole, dropWhile_digits h.whole, htake, hdrop, h.ne_nil,
    readExponent?]

end Reading

/-- A number laid out without an exponent has a point, or else it is whole and does not begin with
zero. -/
theorem place_cases {l : Layout} {d : Digits} (hl : l.whole = "") (hd : Leading d.digits) :
    (∃ ws fs, l.place d = ws ++ '.' :: fs ∧ Pointed ws fs ∧
        (ofDigits (ws ++ fs) : ℚ) * 10 ^ (-fs.length : ℤ) = d.value) ∨
      (Leading (l.place d) ∧ (ofDigits (l.place d) : ℚ) = d.value) := by
  unfold Layout.place
  split_ifs with hsmall hwhole
  · refine .inl ⟨['0'], zeros (-d.point).toNat ++ d.digits, rfl, ⟨by simp, ?_, by simp⟩, ?_⟩
    · intro c hc
      exact (List.mem_append.mp hc).elim (digits_zeros _ c) (hd.digits c)
    · have hzeros : ['0'] ++ (zeros (-d.point).toNat ++ d.digits) =
          List.replicate ((-d.point).toNat + 1) '0' ++ d.digits := rfl
      rw [Digits.value, hzeros, ofDigits_zeros_append]
      congr 2
      simp [zeros]
      omega
  · rw [hl, String.toList_empty, List.append_nil]
    refine .inr ⟨hd.append_zeros _, ?_⟩
    obtain ⟨z, hz⟩ : ∃ z : ℕ, d.point = d.digits.length + z :=
      ⟨(d.point - d.digits.length).toNat, by omega⟩
    rw [Digits.value, zeros, ofDigits_append_zeros, show d.point.toNat - d.digits.length = z by omega,
      show d.point - d.digits.length = z by omega, zpow_natCast]
    push_cast
    ring
  · refine .inl ⟨_, _, rfl, ⟨fun c hc => hd.digits c (List.mem_of_mem_take hc),
      fun c hc => hd.digits c (List.mem_of_mem_drop hc), ?_⟩, ?_⟩
    · rw [← List.length_pos_iff_ne_nil, List.length_take]
      omega
    · rw [Digits.value, List.take_append_drop, List.length_drop]
      congr 2
      omega

/-! ## Numbers and their texts -/

/-- A layout without exponents, and without a point where a number is whole. -/
structure Layout.Bare (l : Layout) : Prop where
  whole : l.whole = ""
  positional : ∀ p, l.positional p = true

section Texts

variable {l : Layout} {x : Binary64}

theorem toLower_of_isDigit {c : Char} (hc : c.isDigit = true) : c.toLower = c := by
  have hdigits : ∀ n < 10, n.digitChar.toLower = n.digitChar := by decide
  rw [← digitChar_digitValue hc, hdigits _ (digitValue_lt hc)]

/-- A text that begins with a digit after its sign is no name of a number. -/
theorem readBinary64?_signed (negative : Bool) {c : Char} (hc : c.isDigit = true) (cs : List Char) :
    readBinary64? (signed negative (c :: cs)) = readUnsigned? negative (c :: cs) := by
  have hname : ∀ first rest, first.isDigit = false → (c :: cs).map Char.toLower ≠ first :: rest := by
    intro first rest hfirst heq
    rw [List.map_cons, toLower_of_isDigit hc] at heq
    rw [List.head_eq_of_cons_eq heq, hfirst] at hc
    exact Bool.false_ne_true hc
  have hinf : (c :: cs).map Char.toLower ≠ "inf".toList := hname 'i' _ rfl
  have hinfinity : (c :: cs).map Char.toLower ≠ "infinity".toList := hname 'i' _ rfl
  have hnan : (c :: cs).map Char.toLower ≠ "nan".toList := hname 'n' _ rfl
  unfold readBinary64?
  rw [splitSign_signed negative hc]
  dsimp only
  rw [if_neg (not_or.mpr ⟨hinf, hinfinity⟩), if_neg hnan]

theorem toList_text_finite (hl : l.Bare) {m : ℕ} (negative : Bool) (e : ℤ) (hm : m ≠ 0) :
    (l.text (.finite negative m e)).toList = signed negative (l.place (shortest l.tie m e)) := by
  simp [Layout.text, hm, hl.positional, signed]

theorem text_zero (hl : l.Bare) (negative : Bool) :
    (l.text (.zero negative)).toList = signed negative ['0'] := by
  simp [Layout.text, zero, hl.whole, signed]

theorem eq_zero_of_inFormat {e : ℤ} (h : InFormat 0 e) (negative : Bool) :
    Binary64.finite negative 0 e = .zero negative := by
  obtain hnormal | rfl := h.normal
  · exact absurd hnormal (by decide)
  · rfl

theorem readBinary64?_finite (hl : l.Bare) {m : ℕ} {e : ℤ} (negative : Bool) (hf : InFormat m e)
    (hm : m ≠ 0) :
    readBinary64? (l.text (.finite negative m e)).toList = some (.finite negative m e) := by
  obtain ⟨hrounds, hdigits⟩ := shortest_spec l.tie hf hm
  rw [toList_text_finite hl negative e hm]
  obtain ⟨ws, fs, hplace, hpointed, hvalue⟩ | ⟨hlead, hvalue⟩ := place_cases hl.whole hdigits
  · rw [← hvalue] at hrounds
    obtain ⟨c, cs, rfl⟩ := List.exists_cons_of_ne_nil hpointed.ne_nil
    rw [hplace, List.cons_append, readBinary64?_signed negative (hpointed.whole c List.mem_cons_self),
      ← List.cons_append, hpointed.readUnsigned? negative, ofDecimal_of_rounds negative hf hm hrounds]
  · rw [← hvalue, ← mul_one (ofDigits _ : ℚ), ← zpow_zero 10] at hrounds
    generalize l.place (shortest l.tie m e) = ds at hlead hrounds
    obtain ⟨c, cs, rfl⟩ := List.exists_cons_of_ne_nil hlead.ne_nil
    rw [readBinary64?_signed negative (hlead.digits c List.mem_cons_self),
      readUnsigned?_whole negative hlead.digits hlead.ne_nil,
      ofDecimal_of_rounds negative hf hm hrounds]

/-- The text of a finite number begins with a digit after its sign. -/
theorem exists_text_finite (hl : l.Bare) {m : ℕ} {e : ℤ} (negative : Bool) (hf : InFormat m e) :
    ∃ c cs, (l.text (.finite negative m e)).toList = signed negative (c :: cs) ∧ c.isDigit = true := by
  by_cases hm : m = 0
  · subst hm
    exact ⟨'0', [], by rw [eq_zero_of_inFormat hf, text_zero hl], rfl⟩
  · rw [toList_text_finite hl negative e hm]
    obtain ⟨ws, fs, hplace, hpointed, -⟩ | ⟨hlead, -⟩ := place_cases hl.whole (shortest_spec l.tie hf hm).2
    · obtain ⟨c, cs, rfl⟩ := List.exists_cons_of_ne_nil hpointed.ne_nil
      exact ⟨c, cs ++ '.' :: fs, by rw [hplace, List.cons_append], hpointed.whole c List.mem_cons_self⟩
    · obtain ⟨c, cs, hplace⟩ := List.exists_cons_of_ne_nil hlead.ne_nil
      exact ⟨c, cs, by rw [hplace], hlead.digits c (hplace ▸ List.mem_cons_self)⟩

/-- The text of a number gives that number. -/
theorem readBinary64?_text (hl : l.Bare) (hx : x.WellFormed) :
    readBinary64? (l.text x).toList = some x := by
  cases x with
  | nan => exact (by decide : readBinary64? "NaN".toList = some .nan)
  | infinite negative =>
    cases negative with
    | true => exact (by decide : readBinary64? "-inf".toList = some (.infinite true))
    | false => exact (by decide : readBinary64? "inf".toList = some (.infinite false))
  | finite negative m e =>
    by_cases hm : m = 0
    · subst hm
      rw [eq_zero_of_inFormat hx, text_zero hl, readBinary64?_signed negative (by decide)]
      rfl
    · exact readBinary64?_finite hl negative hx hm

/-- A text of a number that reads as a whole number is the text of that too. A minus sign before zero is
lost among the whole numbers. -/
theorem toString_of_readInt64?_text (hl : l.Bare) (hx : x.WellFormed) (hzero : x ≠ .zero true) {i : ℤ}
    (h : readInt64? (l.text x).toList = some i) : toString i = l.text x := by
  have hnames : ∀ s ∈ ["NaN", "-inf", "inf"], readInt64? s.toList ≠ some i := by
    intro s hs
    have hnone : ∀ s ∈ ["NaN", "-inf", "inf"], readInt64? s.toList = none := by decide
    simp [hnone s hs]
  cases x with
  | nan => exact absurd h (hnames "NaN" (by simp))
  | infinite negative =>
    cases negative with
    | true => exact absurd h (hnames "-inf" (by simp))
    | false => exact absurd h (hnames "inf" (by simp))
  | finite negative m e =>
    by_cases hm : m = 0
    · subst hm
      rw [eq_zero_of_inFormat hx] at hzero h ⊢
      cases negative with
      | true => exact absurd rfl hzero
      | false =>
        rw [text_zero hl] at h
        obtain rfl : 0 = i := Option.some.inj h
        rw [← String.toList_inj, text_zero hl]
        decide
    · rw [toList_text_finite hl negative e hm] at h
      rw [← String.toList_inj, toList_text_finite hl negative e hm]
      obtain ⟨ws, fs, hplace, -, -⟩ | ⟨hlead, -⟩ := place_cases hl.whole (shortest_spec l.tie hx hm).2
      · rw [hplace, readInt64?_of_point_mem (by cases negative <;> simp [signed])] at h
        cases h
      · rw [hlead.toString_of_readInt64? h, String.toList_ofList]

end Texts

/-! ## Which texts are numbers -/

/-- A sign, which may be missing. -/
inductive IsSign : List Char → Prop where
  | none : IsSign []
  | minus : IsSign ['-']
  | plus : IsSign ['+']

/-- Digits with an optional point; a digit on one side of the point is enough. -/
inductive IsMantissa : List Char → Prop where
  | whole {ws : List Char} (hw : ∀ c ∈ ws, c.isDigit = true) (hne : ws ≠ []) : IsMantissa ws
  | pointed {ws fs : List Char} (hw : ∀ c ∈ ws, c.isDigit = true) (hf : ∀ c ∈ fs, c.isDigit = true)
      (hne : ws ≠ [] ∨ fs ≠ []) : IsMantissa (ws ++ '.' :: fs)

/-- A power of ten, which may be missing. -/
inductive IsExponent : List Char → Prop where
  | none : IsExponent []
  | power {c : Char} {sign ds : List Char} (hc : c = 'e' ∨ c = 'E') (hsign : IsSign sign)
      (hd : ∀ d ∈ ds, d.isDigit = true) (hne : ds ≠ []) : IsExponent (c :: (sign ++ ds))

/-- Names of infinity and of no number. -/
def names : List (List Char) := ["inf".toList, "infinity".toList, "nan".toList]

/-- The ways to write a number: a name in any case of letters, or decimal digits. -/
inductive IsNumeral : List Char → Prop where
  | name {sign cs : List Char} (hsign : IsSign sign) (hname : cs.map Char.toLower ∈ names) :
      IsNumeral (sign ++ cs)
  | decimal {sign mantissa power : List Char} (hsign : IsSign sign) (hm : IsMantissa mantissa)
      (hp : IsExponent power) : IsNumeral (sign ++ (mantissa ++ power))

/-- Texts that do not begin with a sign. -/
def Unsigned (cs : List Char) : Prop := cs.head? ≠ some '-' ∧ cs.head? ≠ some '+'

theorem splitSign_of_unsigned {cs : List Char} (h : Unsigned cs) : splitSign cs = (false, cs) := by
  unfold splitSign
  split
  · exact absurd rfl h.1
  · exact absurd rfl h.2
  · rfl

theorem splitSign_append {sign cs : List Char} (hs : IsSign sign) (h : Unsigned cs) :
    (splitSign (sign ++ cs)).2 = cs := by
  cases hs with
  | none => exact congrArg Prod.snd (splitSign_of_unsigned h)
  | minus => rfl
  | plus => rfl

theorem exists_sign (cs : List Char) : ∃ sign, IsSign sign ∧ cs = sign ++ (splitSign cs).2 := by
  unfold splitSign
  split
  · exact ⟨_, .minus, rfl⟩
  · exact ⟨_, .plus, rfl⟩
  · exact ⟨_, .none, rfl⟩

theorem unsigned_of_isDigit {c : Char} (hc : c.isDigit = true) (cs : List Char) : Unsigned (c :: cs) := by
  constructor
  · rintro ⟨⟩
    exact absurd hc (by decide)
  · rintro ⟨⟩
    exact absurd hc (by decide)

theorem unsigned_of_digits {ds : List Char} (hd : ∀ c ∈ ds, c.isDigit = true) (hne : ds ≠ [])
    (cs : List Char) : Unsigned (ds ++ cs) := by
  obtain ⟨c, rest, rfl⟩ := List.exists_cons_of_ne_nil hne
  exact unsigned_of_isDigit (hd c List.mem_cons_self) _

theorem IsMantissa.unsigned {ms : List Char} (h : IsMantissa ms) (cs : List Char) :
    Unsigned (ms ++ cs) := by
  cases h with
  | whole hw hne => exact unsigned_of_digits hw hne cs
  | @pointed ws fs hw hf hne =>
    by_cases hws : ws = []
    · subst hws
      exact ⟨by simp, by simp⟩
    · rw [List.append_assoc]
      exact unsigned_of_digits hw hws _

theorem isSome_readExponent?_cons (c : Char) (cs : List Char) :
    (readExponent? (c :: cs)).isSome ↔
      (c = 'e' ∨ c = 'E') ∧ (splitSign cs).2 ≠ [] ∧ ∀ d ∈ (splitSign cs).2, d.isDigit = true := by
  unfold readExponent?
  dsimp only
  rw [apply_ite Option.isSome, apply_ite Option.isSome]
  simp

theorem isSome_readExponent?_iff (cs : List Char) : (readExponent? cs).isSome ↔ IsExponent cs := by
  constructor
  · intro h
    cases cs with
    | nil => exact .none
    | cons c cs =>
      obtain ⟨hc, hne, hd⟩ := (isSome_readExponent?_cons c cs).mp h
      obtain ⟨sign, hsign, hsplit⟩ := exists_sign cs
      rw [hsplit]
      exact .power hc hsign hd hne
  · intro h
    cases h with
    | none => rfl
    | @power c sign ds hc hsign hd hne =>
      have hsplit := splitSign_append hsign (by simpa using unsigned_of_digits hd hne [])
      rw [isSome_readExponent?_cons, hsplit]
      exact ⟨hc, hne, hd⟩

/-- The fraction after a point, if there is one, and what follows. -/
def splitFraction (rest : List Char) : List Char × List Char :=
  match rest with
  | '.' :: r => (r.takeWhile Char.isDigit, r.dropWhile Char.isDigit)
  | _ => ([], rest)

theorem splitFraction_cases (rest : List Char) :
    (∃ r, rest = '.' :: r) ∨ splitFraction rest = ([], rest) := by
  unfold splitFraction
  split
  · exact .inl ⟨_, rfl⟩
  · exact .inr rfl

theorem isSome_readUnsigned?_iff_split (negative : Bool) (cs : List Char) :
    (readUnsigned? negative cs).isSome ↔
      (cs.takeWhile Char.isDigit ≠ [] ∨ (splitFraction (cs.dropWhile Char.isDigit)).1 ≠ []) ∧
        IsExponent (splitFraction (cs.dropWhile Char.isDigit)).2 := by
  rw [← isSome_readExponent?_iff]
  show (if ((cs.takeWhile Char.isDigit).isEmpty &&
      (splitFraction (cs.dropWhile Char.isDigit)).1.isEmpty) = true then none
    else (readExponent? (splitFraction (cs.dropWhile Char.isDigit)).2).map fun e =>
      Binary64.ofDecimal negative
        (ofDigits (cs.takeWhile Char.isDigit ++ (splitFraction (cs.dropWhile Char.isDigit)).1))
        (e - (splitFraction (cs.dropWhile Char.isDigit)).1.length)).isSome = true ↔ _
  generalize cs.takeWhile Char.isDigit = ws
  generalize splitFraction (cs.dropWhile Char.isDigit) = parts
  split_ifs with hnone
  · simp_all
  · rw [Option.isSome_map, iff_and_self]
    intro _
    rw [← not_and_or]
    simpa using hnone

theorem takeWhile_digits_all (cs : List Char) : ∀ c ∈ cs.takeWhile Char.isDigit, c.isDigit = true := by
  intro c hc
  exact List.all_eq_true.mp List.all_takeWhile c hc

theorem IsExponent.digits_append {ws power : List Char} (hp : IsExponent power)
    (hw : ∀ c ∈ ws, c.isDigit = true) :
    (ws ++ power).takeWhile Char.isDigit = ws ∧ (ws ++ power).dropWhile Char.isDigit = power := by
  cases hp with
  | none =>
    rw [List.append_nil]
    exact ⟨List.takeWhile_eq_self_iff.mpr hw, List.dropWhile_eq_nil_iff.mpr hw⟩
  | power hc =>
    have hletter : ∀ c : Char, c = 'e' ∨ c = 'E' → c.isDigit = false := by
      rintro c (rfl | rfl) <;> rfl
    exact ⟨takeWhile_digits hw (hletter _ hc) _, dropWhile_digits hw (hletter _ hc) _⟩

theorem IsExponent.splitFraction {power : List Char} (hp : IsExponent power) :
    splitFraction power = ([], power) := by
  cases hp with
  | none => rfl
  | power hc => obtain rfl | rfl := hc <;> rfl

/-- Digits are read where they are digits with an optional point and an optional power of ten. -/
theorem isSome_readUnsigned?_iff (negative : Bool) (cs : List Char) :
    (readUnsigned? negative cs).isSome ↔
      ∃ mantissa power, cs = mantissa ++ power ∧ IsMantissa mantissa ∧ IsExponent power := by
  rw [isSome_readUnsigned?_iff_split]
  constructor
  · rintro ⟨hne, hp⟩
    have hw := takeWhile_digits_all cs
    have hcs : cs = cs.takeWhile Char.isDigit ++ cs.dropWhile Char.isDigit :=
      List.takeWhile_append_dropWhile.symm
    generalize cs.takeWhile Char.isDigit = ws at hne hw hcs
    generalize cs.dropWhile Char.isDigit = rest at hne hp hcs
    subst hcs
    obtain ⟨r, rfl⟩ | hrest := splitFraction_cases rest
    · refine ⟨ws ++ '.' :: r.takeWhile Char.isDigit, _, ?_, .pointed hw (takeWhile_digits_all r) hne, hp⟩
      show ws ++ '.' :: r = (ws ++ '.' :: r.takeWhile Char.isDigit) ++ r.dropWhile Char.isDigit
      rw [List.append_assoc, List.cons_append, List.takeWhile_append_dropWhile]
    · rw [hrest] at hne hp
      exact ⟨ws, rest, rfl, .whole hw (hne.resolve_right fun h => h rfl), hp⟩
  · rintro ⟨mantissa, power, rfl, hm, hp⟩
    cases hm with
    | whole hw hne =>
      obtain ⟨htake, hdrop⟩ := hp.digits_append hw
      rw [htake, hdrop, hp.splitFraction]
      exact ⟨.inl hne, hp⟩
    | @pointed ws fs hw hf hne =>
      obtain ⟨htake, hdrop⟩ := hp.digits_append hf
      rw [List.append_assoc, List.cons_append, takeWhile_digits hw (by decide),
        dropWhile_digits hw (by decide)]
      show (ws ≠ [] ∨ (fs ++ power).takeWhile Char.isDigit ≠ []) ∧
        IsExponent ((fs ++ power).dropWhile Char.isDigit)
      rw [htake, hdrop]
      exact ⟨hne, hp⟩

theorem unsigned_of_name {cs : List Char} (h : cs.map Char.toLower ∈ names) : Unsigned cs := by
  have hminus : ∀ name ∈ names, name.head? ≠ some '-' := by decide
  have hplus : ∀ name ∈ names, name.head? ≠ some '+' := by decide
  constructor
  · intro hc
    exact hminus _ h (by rw [List.head?_map, hc]; rfl)
  · intro hc
    exact hplus _ h (by rw [List.head?_map, hc]; rfl)

theorem isSome_readBinary64?_iff_body (cs : List Char) :
    (readBinary64? cs).isSome ↔
      (splitSign cs).2.map Char.toLower ∈ names ∨
        (readUnsigned? (splitSign cs).1 (splitSign cs).2).isSome := by
  unfold readBinary64? names
  dsimp only
  split_ifs with hinf hnan
  · obtain hinf | hinf := hinf <;> simp [hinf]
  · simp [hnan]
  · rw [not_or] at hinf
    simp only [List.mem_cons, List.not_mem_nil, hinf.1, hinf.2, hnan, or_false, false_or]

/-- The texts that are read as numbers. -/
theorem isSome_readBinary64?_iff (cs : List Char) : (readBinary64? cs).isSome ↔ IsNumeral cs := by
  rw [isSome_readBinary64?_iff_body, isSome_readUnsigned?_iff]
  constructor
  · obtain ⟨sign, hsign, hsplit⟩ := exists_sign cs
    rintro (hname | ⟨mantissa, power, hbody, hm, hp⟩)
    · rw [hsplit]
      exact .name hsign hname
    · rw [hsplit, hbody]
      exact .decimal hsign hm hp
  · intro h
    cases h with
    | name hsign hname =>
      rw [splitSign_append hsign (unsigned_of_name hname)]
      exact .inl hname
    | decimal hsign hm hp =>
      rw [splitSign_append hsign (hm.unsigned _)]
      exact .inr ⟨_, _, rfl, hm, hp⟩

/-- Whole numbers are numbers. -/
theorem isNumeral_of_readInt64? {cs : List Char} {i : ℤ} (h : readInt64? cs = some i) : IsNumeral cs := by
  obtain ⟨sign, hsign, hsplit⟩ := exists_sign cs
  obtain ⟨⟨hne, hd⟩, -⟩ := readInt64?_eq_some_iff.mp h
  rw [hsplit, ← List.append_nil (splitSign cs).2]
  exact .decimal hsign (.whole hd hne) .none

/-- What is read as a number is one of the format. -/
theorem wellFormed_of_readBinary64? {cs : List Char} {x : Binary64} (h : readBinary64? cs = some x) :
    x.WellFormed := by
  unfold readBinary64? at h
  dsimp only at h
  split_ifs at h
  · cases h
    trivial
  · cases h
    trivial
  · unfold readUnsigned? at h
    dsimp only at h
    rw [Option.ite_none_left_eq_some, Option.map_eq_some_iff] at h
    obtain ⟨-, e, -, rfl⟩ := h
    exact wellFormed_ofDecimal _ _ _

end InterfaceTables.Decimal
