import InterfaceTables.Text.Utf8
import Mathlib.Data.List.Basic
import Mathlib.Order.Basic
import Mathlib.Tactic.Convert
import Mathlib.Tactic.SplitIfs

/-!
Texts and their bytes. Texts are ordered as their bytes are. The bytes of a text are shown as the text;
other bytes are shown as a text only if it holds the replacement character, which stands for what is no
encoding.
-/

namespace InterfaceTables

/-! ## The order of names and of their bytes -/

def utf8Bytes (s : String) : List UInt8 := s.toUTF8.data.toList

theorem utf8Bytes_eq_flatMap (s : String) : utf8Bytes s = s.toList.flatMap String.utf8EncodeChar := by
  rw [utf8Bytes, String.toUTF8_eq_toByteArray, ← String.utf8Encode_toList, List.utf8Encode,
    List.data_toByteArray]

/-- A lesser character has lesser bytes, whatever comes after them. -/
theorem utf8EncodeChar_append_lt {c d : Char} (h : c < d) (xs ys : List UInt8) :
    String.utf8EncodeChar c ++ xs < String.utf8EncodeChar d ++ ys := by
  have hcd : c.val.toNat < d.val.toNat := h
  have hd : d.val.toNat < 0x110000 := by
    have hvalid := d.valid
    simp only [UInt32.isValidChar, Nat.isValidChar] at hvalid
    omega
  have hdigits : ∀ n : Nat, n / 4096 = n / 64 / 64 ∧ n / 262144 = n / 64 / 64 / 64 := by
    intro n
    omega
  unfold String.utf8EncodeChar
  dsimp only
  generalize c.val.toNat = v at hcd
  generalize d.val.toNat = w at hcd hd
  simp only [hdigits]
  -- The first byte that differs decides, so it does not matter how `xs` and `ys` compare.
  by_cases htail : xs < ys
  all_goals
    split_ifs
    all_goals
      simp only [List.cons_append, List.nil_append, List.cons_lt_cons_iff, UInt8.lt_iff_toNat_lt,
        ← UInt8.toNat_inj, UInt8.toNat_ofNat', htail]
      omega

theorem flatMap_utf8EncodeChar_lt {as bs : List Char} (h : as < bs) :
    as.flatMap String.utf8EncodeChar < bs.flatMap String.utf8EncodeChar := by
  induction as generalizing bs with
  | nil =>
    cases bs with
    | nil => exact absurd h (List.lt_irrefl _)
    | cons d bs =>
      obtain ⟨b, rest, hbytes⟩ := List.exists_cons_of_ne_nil (String.utf8EncodeChar_ne_nil (c := d))
      rw [List.flatMap_cons, hbytes]
      exact List.nil_lt_cons b _
  | cons c as ih =>
    cases bs with
    | nil => exact absurd h (List.not_lt_nil _)
    | cons d bs =>
      rw [List.flatMap_cons, List.flatMap_cons]
      cases List.cons_lt_cons_iff.mp h with
      | inl hlt => exact utf8EncodeChar_append_lt hlt _ _
      | inr heq =>
        rw [heq.1]
        exact List.append_left_lt (ih heq.2)

theorem utf8Bytes_lt {a b : String} (h : a < b) : utf8Bytes a < utf8Bytes b := by
  rw [utf8Bytes_eq_flatMap, utf8Bytes_eq_flatMap]
  exact flatMap_utf8EncodeChar_lt h

namespace Text

/-! ## One character -/

/-- The bytes of the character with a code. -/
inductive IsEncoding : List UInt8 → Nat → Prop where
  | one {a : UInt8} (ha : a < 0x80) : IsEncoding [a] a.toNat
  | two {a b : UInt8} (ha : (0xc2 ≤ a && a ≤ 0xdf) = true) (hb : isContinuation b = true) :
      IsEncoding [a, b] ((a.toNat % 0x20) * 0x40 + payload b)
  | three {a b c : UInt8} (ha : (0xe0 ≤ a && a ≤ 0xef) = true) (hb : secondOfThree a b = true)
      (hc : isContinuation c = true) :
      IsEncoding [a, b, c] ((a.toNat % 0x10) * 0x1000 + payload b * 0x40 + payload c)
  | four {a b c d : UInt8} (ha : (0xf0 ≤ a && a ≤ 0xf4) = true) (hb : secondOfFour a b = true)
      (hc : isContinuation c = true) (hd : isContinuation d = true) :
      IsEncoding [a, b, c, d]
        ((a.toNat % 8) * 0x40000 + payload b * 0x1000 + payload c * 0x40 + payload d)

theorem inRange_iff {low a high : UInt8} :
    (decide (low ≤ a) && decide (a ≤ high)) = true ↔
      low.toNat ≤ a.toNat ∧ a.toNat ≤ high.toNat := by
  rw [Bool.and_eq_true, decide_eq_true_eq, decide_eq_true_eq, UInt8.le_iff_toNat_le,
    UInt8.le_iff_toNat_le]

theorem isContinuation_iff {b : UInt8} :
    isContinuation b = true ↔ 0x80 ≤ b.toNat ∧ b.toNat ≤ 0xbf :=
  inRange_iff

theorem secondOfThree_iff {a b : UInt8} :
    secondOfThree a b = true ↔ 0x80 ≤ b.toNat ∧ b.toNat ≤ 0xbf ∧
      (a.toNat = 0xe0 → 0xa0 ≤ b.toNat) ∧ (a.toNat = 0xed → b.toNat ≤ 0x9f) := by
  unfold secondOfThree
  simp only [← UInt8.toNat_inj]
  split_ifs <;> simp only [isContinuation_iff, inRange_iff, UInt8.toNat_ofNat] at * <;> omega

theorem secondOfFour_iff {a b : UInt8} :
    secondOfFour a b = true ↔ 0x80 ≤ b.toNat ∧ b.toNat ≤ 0xbf ∧
      (a.toNat = 0xf0 → 0x90 ≤ b.toNat) ∧ (a.toNat = 0xf4 → b.toNat ≤ 0x8f) := by
  unfold secondOfFour
  simp only [← UInt8.toNat_inj]
  split_ifs <;> simp only [isContinuation_iff, inRange_iff, UInt8.toNat_ofNat] at * <;> omega

theorem isEncoding_utf8EncodeChar (c : Char) : IsEncoding (String.utf8EncodeChar c) c.toNat := by
  have hv : c.toNat.isValidChar := c.valid
  unfold Nat.isValidChar at hv
  unfold String.utf8EncodeChar
  rw [Char.toNat_val]
  dsimp only
  split_ifs
  · convert IsEncoding.one ?_ using 1
    · simp only [UInt8.toNat_ofNat']; omega
    · simp only [UInt8.lt_iff_toNat_lt, UInt8.toNat_ofNat']; simp; omega
  · convert IsEncoding.two ?_ ?_ using 1
    · simp only [payload, UInt8.toNat_ofNat']; omega
    · simp only [inRange_iff, UInt8.toNat_ofNat']; simp; omega
    · simp only [isContinuation_iff, UInt8.toNat_ofNat']; omega
  · convert IsEncoding.three ?_ ?_ ?_ using 1
    · simp only [payload, UInt8.toNat_ofNat']; omega
    · simp only [inRange_iff, UInt8.toNat_ofNat']; simp; omega
    · simp only [secondOfThree_iff, UInt8.toNat_ofNat']; omega
    · simp only [isContinuation_iff, UInt8.toNat_ofNat']; omega
  · convert IsEncoding.four ?_ ?_ ?_ ?_ using 1
    · simp only [payload, UInt8.toNat_ofNat']; omega
    · simp only [inRange_iff, UInt8.toNat_ofNat']; simp; omega
    · simp only [secondOfFour_iff, UInt8.toNat_ofNat']; omega
    · simp only [isContinuation_iff, UInt8.toNat_ofNat']; omega
    · simp only [isContinuation_iff, UInt8.toNat_ofNat']; omega

namespace IsEncoding

variable {bytes : List UInt8} {n : Nat}

theorem decodeLossy_append (h : IsEncoding bytes n) (rest : List UInt8) :
    decodeLossy (bytes ++ rest) = Char.ofNat n :: decodeLossy rest := by
  cases h with
  | one ha =>
    rw [List.singleton_append]
    conv => lhs; unfold decodeLossy
    rw [if_pos ha]
  | @two a b ha hb =>
    have hone : ¬ a < 0x80 := by grind
    simp only [List.cons_append, List.nil_append]
    conv => lhs; unfold decodeLossy
    simp only [if_neg hone, if_pos ha, if_pos hb]
  | @three a b c ha hb hc =>
    have hone : ¬ a < 0x80 := by grind
    have htwo : ¬ (decide (0xc2 ≤ a) && decide (a ≤ 0xdf)) = true := by grind
    simp only [List.cons_append, List.nil_append]
    conv => lhs; unfold decodeLossy
    simp only [if_neg hone, if_neg htwo, if_pos ha, if_pos hb, if_pos hc]
  | @four a b c d ha hb hc hd =>
    have hone : ¬ a < 0x80 := by grind
    have htwo : ¬ (decide (0xc2 ≤ a) && decide (a ≤ 0xdf)) = true := by grind
    have hthree : ¬ (decide (0xe0 ≤ a) && decide (a ≤ 0xef)) = true := by grind
    simp only [List.cons_append, List.nil_append]
    conv => lhs; unfold decodeLossy
    simp only [if_neg hone, if_neg htwo, if_neg hthree, if_pos ha, if_pos hb, if_pos hc, if_pos hd]

theorem isValidChar (h : IsEncoding bytes n) : n.isValidChar := by
  unfold Nat.isValidChar
  cases h with
  | @one a ha =>
    have := a.toNat_lt
    omega
  | two ha hb =>
    unfold payload
    omega
  | three ha hb hc =>
    have ha := inRange_iff.mp ha
    have hb := secondOfThree_iff.mp hb
    simp only [UInt8.toNat_ofNat] at ha
    unfold payload
    omega
  | four ha hb hc hd =>
    have ha := inRange_iff.mp ha
    have hb := secondOfFour_iff.mp hb
    simp only [UInt8.toNat_ofNat] at ha
    unfold payload
    omega

theorem toNat_val_ofNat (h : IsEncoding bytes n) : (Char.ofNat n).val.toNat = n := by
  have hchar : Char.ofNat n = Char.ofNatAux n h.isValidChar := dif_pos h.isValidChar
  rw [hchar]
  rfl

theorem byte_eq {n : Nat} {a : UInt8} (h : n = a.toNat) : UInt8.ofNat n = a := by
  rw [h, UInt8.ofNat_toNat]

theorem utf8EncodeChar_ofNat (h : IsEncoding bytes n) :
    String.utf8EncodeChar (Char.ofNat n) = bytes := by
  unfold String.utf8EncodeChar
  rw [h.toNat_val_ofNat]
  dsimp only
  cases h with
  | @one a ha =>
    have ha := UInt8.lt_iff_toNat_lt.mp ha
    simp only [UInt8.toNat_ofNat] at ha
    rw [if_pos (by omega), byte_eq rfl]
  | @two a b ha hb =>
    have ha := inRange_iff.mp ha
    have hb := isContinuation_iff.mp hb
    simp only [UInt8.toNat_ofNat] at ha
    unfold payload
    rw [if_neg (by omega), if_pos (by omega), byte_eq (a := a) (by omega),
      byte_eq (a := b) (by omega)]
  | @three a b c ha hb hc =>
    have ha := inRange_iff.mp ha
    have hb := secondOfThree_iff.mp hb
    have hc := isContinuation_iff.mp hc
    simp only [UInt8.toNat_ofNat] at ha
    unfold payload
    rw [if_neg (by omega), if_neg (by omega), if_pos (by omega), byte_eq (a := a) (by omega),
      byte_eq (a := b) (by omega), byte_eq (a := c) (by omega)]
  | @four a b c d ha hb hc hd =>
    have ha := inRange_iff.mp ha
    have hb := secondOfFour_iff.mp hb
    have hc := isContinuation_iff.mp hc
    have hd := isContinuation_iff.mp hd
    simp only [UInt8.toNat_ofNat] at ha
    unfold payload
    rw [if_neg (by omega), if_neg (by omega), if_neg (by omega), byte_eq (a := a) (by omega),
      byte_eq (a := b) (by omega), byte_eq (a := c) (by omega), byte_eq (a := d) (by omega)]

end IsEncoding

/-! ## The text shown for bytes -/

theorem decodeLossy_encoded_append (cs : List Char) (rest : List UInt8) :
    decodeLossy (cs.flatMap String.utf8EncodeChar ++ rest) = cs ++ decodeLossy rest := by
  induction cs with
  | nil => rfl
  | cons c cs ih =>
    rw [List.flatMap_cons, List.append_assoc, (isEncoding_utf8EncodeChar c).decodeLossy_append,
      Char.ofNat_toNat, ih, List.cons_append]

theorem encoded_decodeLossy {bytes : List UInt8} (h : replacement ∉ decodeLossy bytes) :
    (decodeLossy bytes).flatMap String.utf8EncodeChar = bytes := by
  have step {piece rest : List UInt8} {n : Nat} (he : IsEncoding piece n)
      (hn : replacement ∉ Char.ofNat n :: decodeLossy rest)
      (ih : replacement ∉ decodeLossy rest →
        (decodeLossy rest).flatMap String.utf8EncodeChar = rest) :
      (Char.ofNat n :: decodeLossy rest).flatMap String.utf8EncodeChar = piece ++ rest := by
    rw [List.flatMap_cons, he.utf8EncodeChar_ofNat, ih fun hm => hn (List.mem_cons_of_mem _ hm)]
  fun_induction decodeLossy bytes with
  | case1 => rfl
  | case2 a rest ha ih => exact step (.one ha) h ih
  | case4 a _ ha b rest hb ih => exact step (.two ha hb) h ih
  | case9 a _ _ ha b c rest hb hc ih => exact step (.three ha hb hc) h ih
  | case18 a _ _ _ ha b c d rest hb hc hd ih => exact step (.four ha hb hc hd) h ih
  -- Whatever is no encoding puts the replacement character in front.
  | _ => exact absurd List.mem_cons_self h

theorem toList_byteArray (bytes : ByteArray) : bytes.toList = bytes.data.toList := by
  have loop (i : Nat) (read : List UInt8) :
      ByteArray.toList.loop bytes i read = read.reverse ++ bytes.data.toList.drop i := by
    fun_induction ByteArray.toList.loop bytes i read with
    | case1 i read hi ih =>
      have hlt : i < bytes.data.toList.length := by simpa using hi
      rw [ih, List.drop_eq_getElem_cons hlt]
      simp [ByteArray.get!, hi]
    | case2 i read hi =>
      rw [List.drop_eq_nil_of_le (by simpa using Nat.le_of_not_lt hi), List.append_nil]
  rw [ByteArray.toList, loop, List.reverse_nil, List.nil_append, List.drop_zero]

theorem toList_lossyText (bytes : ByteArray) :
    (lossyText bytes).toList = decodeLossy bytes.data.toList := by
  rw [lossyText, String.toList_ofList, toList_byteArray]

theorem eq_toUTF8_iff {bytes : ByteArray} {s : String} :
    bytes = s.toUTF8 ↔ bytes.data.toList = s.toList.flatMap String.utf8EncodeChar := by
  rw [← utf8Bytes_eq_flatMap, utf8Bytes, Array.toList_inj, ByteArray.ext_iff]

theorem lossyText_toUTF8 (s : String) : lossyText s.toUTF8 = s := by
  apply String.toList_injective
  rw [toList_lossyText, eq_toUTF8_iff.mp rfl]
  simpa [decodeLossy] using decodeLossy_encoded_append s.toList []

/-- The bytes that are shown as a text are its own, unless the text holds the replacement character;
then some others are shown as it, too. -/
theorem exists_other_bytes_iff (s : String) :
    (∃ bytes : ByteArray, bytes ≠ s.toUTF8 ∧ lossyText bytes = s) ↔ replacement ∈ s.toList := by
  constructor
  · rintro ⟨bytes, hne, rfl⟩
    by_contra hr
    rw [toList_lossyText] at hr
    apply hne
    rw [eq_toUTF8_iff, toList_lossyText, encoded_decodeLossy hr]
  · intro h
    obtain ⟨front, back, hs⟩ := List.mem_iff_append.mp h
    -- A byte that starts no character takes the place of the encoding.
    let bytes := front.flatMap String.utf8EncodeChar ++ 0xff :: back.flatMap String.utf8EncodeChar
    refine ⟨bytes.toByteArray, fun he => ?_, ?_⟩
    · rw [eq_toUTF8_iff, hs, List.data_toByteArray, List.flatMap_append, List.flatMap_cons,
        List.append_cancel_left_eq] at he
      exact absurd (List.cons.inj he).1 (by decide)
    · have hback := decodeLossy_encoded_append back []
      have hspoiled : decodeLossy (0xff :: back.flatMap String.utf8EncodeChar) =
          replacement :: decodeLossy (back.flatMap String.utf8EncodeChar) := by
        conv => lhs; unfold decodeLossy
        rfl
      apply String.toList_injective
      rw [toList_lossyText, List.data_toByteArray, decodeLossy_encoded_append, hspoiled, hs]
      simpa [decodeLossy] using hback

theorem isValidUTF8_iff {bytes : ByteArray} : bytes.IsValidUTF8 ↔ (lossyText bytes).toUTF8 = bytes := by
  constructor
  · rintro ⟨cs, rfl⟩
    rw [← String.toByteArray_ofList, ← String.toUTF8_eq_toByteArray, lossyText_toUTF8]
  · intro h
    rw [← h]
    exact (lossyText bytes).isValidUTF8

end Text

end InterfaceTables
