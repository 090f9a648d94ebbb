import InterfaceTables.Settings.Basic
import InterfaceTables.Toml.Reader
import Mathlib.Tactic.ByContra
import Mathlib.Tactic.SplitIfs

/-!
Written TOML is read back. Each of the four styles of strings has a lemma of its own: the reader is
given what is written for a text and some rest, and gives the text and the rest. Lines are put together
in the same way, and saved settings give one document, whatever texts they hold.
-/

namespace InterfaceTables

namespace Toml

variable {c : Char} {cs rest acc word : List Char} {run : Nat}

/-! ## Escapes -/

theorem isLineChar_of_not_needsCode (h : needsCode c = false) (hn : c ≠ '\n') :
    isLineChar c = true := by
  unfold needsCode at h
  unfold isLineChar
  by_cases ht : c = '\t'
  · simp [ht]
  · simp only [Bool.or_eq_false_iff, Bool.and_eq_false_iff, decide_eq_false_iff_not, ne_eq] at h
    simp only [Bool.or_eq_true, decide_eq_true_eq, Bool.and_eq_true]
    have hlow : ¬ c.toNat < 0x20 := by
      obtain ⟨(hlow | htab) | hline, _⟩ := h
      · exact hlow
      · exact absurd ht htab
      · exact absurd hn hline
    exact Or.inr ⟨by omega, h.2⟩

/-- What may be written for a character in double quotes: itself, a short escape or its code. -/
inductive Escapes (c : Char) : List Char → Prop where
  | self (hline : isLineChar c = true) (hquote : c ≠ '"') (hslash : c ≠ '\\') : Escapes c [c]
  | short {e : Char} (h : shortEscape? e = some c) : Escapes c ['\\', e]
  | code {high low : Char} (hhigh : Text.hexValue? high = some (c.toNat / 16))
      (hlow : Text.hexValue? low = some (c.toNat % 16)) : Escapes c ['\\', 'u', '0', '0', high, low]

theorem hexValue?_upperHexDigit : ∀ n < 16, Text.hexValue? (upperHexDigit n) = some n := by
  decide

theorem escapes_escapeChar (hquote : c ≠ '"') (hline : c ≠ '\n') : Escapes c (escapeChar c) := by
  have hof : ∀ n, c.toNat = n → c = Char.ofNat n := fun n hn => hn ▸ (Char.ofNat_toNat c).symm
  unfold escapeChar
  split_ifs with hslash htab hreturn hback hfeed hcode
  · exact .short (by rw [hslash]; rfl)
  · exact .short (by rw [htab]; rfl)
  · exact .short (by rw [hreturn]; rfl)
  · exact .short (by rw [hof 8 hback]; rfl)
  · exact .short (by rw [hof 12 hfeed]; rfl)
  · have hsmall : c.toNat < 128 := by
      simp only [needsCode, Bool.or_eq_true, Bool.and_eq_true, decide_eq_true_eq] at hcode
      omega
    exact .code (hexValue?_upperHexDigit _ (by omega)) (hexValue?_upperHexDigit _ (by omega))
  · exact .self (isLineChar_of_not_needsCode (by simpa using hcode) hline) hquote hslash

theorem Escapes.exists_head (h : Escapes c word) :
    ∃ a after, word = a :: after ∧ a ≠ '"' ∧ a ≠ '\n' ∧ a ≠ '\r' := by
  cases h with
  | self hline hquote hslash =>
    refine ⟨c, [], rfl, hquote, ?_, ?_⟩
    · rintro rfl
      cases hline
    · rintro rfl
      cases hline
  | short h => exact ⟨'\\', _, rfl, by decide⟩
  | code hhigh hlow => exact ⟨'\\', _, rfl, by decide⟩

theorem escapeStep_of_short {e : Char} (h : shortEscape? e = some c) :
    escapeStep e = some (.plain false, some c) := by
  unfold escapeStep
  split_ifs with hu hu'
  · subst hu
    cases h
  · subst hu'
    cases h
  · rw [h]
    rfl

theorem ne_blank_of_short {e : Char} (h : shortEscape? e = some c) :
    ¬ (e = ' ' ∨ e = '\t') ∧ e ≠ '\n' ∧ e ≠ '\r' := by
  refine ⟨?_, ?_, ?_⟩
  · rintro (rfl | rfl)
    · cases h
    · cases h
  · rintro rfl
    cases h
  · rintro rfl
    cases h

theorem codeStep_last {low : Char} (h : Text.hexValue? low = some (c.toNat % 16)) :
    codeStep 1 (c.toNat / 16) low = some (.plain false, some c) := by
  have hvalue : 16 * (c.toNat / 16) + c.toNat % 16 = c.toNat := Nat.div_add_mod c.toNat 16
  have hvalid : c.toNat.isValidChar := c.valid
  simp [codeStep, h, hvalue, charOfCode?, hvalid, Char.ofNat_toNat]

theorem codeStep_next {left value digit : Nat} {d : Char} (h : Text.hexValue? d = some digit)
    (hleft : 1 < left) : codeStep left value d = some (.code (left - 1) (16 * value + digit), none) := by
  simp [codeStep, h, Nat.not_le.mpr hleft]

/-! ## Double quotes -/

theorem basicBody_escapes (h : Escapes c word) :
    basicBody (.plain false) acc (word ++ rest) = basicBody (.plain false) (c :: acc) rest := by
  cases h with
  | self hline hquote hslash => simp [basicBody, hline, hquote, hslash]
  | short h => simp [basicBody, escapeStep_of_short h]
  | code hhigh hlow =>
    have hzero : Text.hexValue? '0' = some 0 := rfl
    have hu : escapeStep 'u' = some (.code 4 0, none) := rfl
    simp [basicBody, hu, codeStep_next hzero, codeStep_next hhigh, codeStep_last hlow]

theorem basicBody_escapeLine :
    basicBody (.plain false) acc (escapeLine cs ++ '"' :: rest) = some (acc.reverse ++ cs, rest) := by
  induction cs generalizing acc with
  | nil => simp [escapeLine, basicBody]
  | cons c cs ih =>
    have hword : Escapes c (if c = '"' then ['\\', '"'] else if c = '\n' then ['\\', 'n']
        else escapeChar c) := by
      split_ifs with hquote hline
      · exact .short (by rw [hquote]; rfl)
      · exact .short (by rw [hline]; rfl)
      · exact escapes_escapeChar hquote hline
    unfold escapeLine at ih ⊢
    rw [List.flatMap_cons, List.append_assoc, basicBody_escapes hword, ih]
    simp

/-! ## Closing quotes -/

/-- Up to two quotes before the three that close a string belong to its text. -/
theorem closing_replicate {quote : Char} {n : Nat} (hn : n ≤ 2) (hq : '\n' ≠ quote) :
    closing quote acc (List.replicate n quote ++ '\n' :: rest) =
      (acc.reverse ++ List.replicate n quote, '\n' :: rest) := by
  match n, hn with
  | 0, _ => cases rest <;> simp [closing, hq]
  | 1, _ => simp [closing, hq]
  | 2, _ => simp [closing]

/-! ## Three double quotes -/

theorem basicLines_self (hline : isLineChar c = true) (hquote : c ≠ '"') (hslash : c ≠ '\\')
    (hreturn : c ≠ '\r') :
    basicLines (.plain false) acc (c :: rest) = basicLines (.plain false) (c :: acc) rest := by
  rw [basicLines_plain hquote hreturn, if_neg hslash, if_pos (Or.inl hline)]

theorem basicLines_escape :
    basicLines (.plain false) acc ('\\' :: rest) = basicLines .escape acc rest := by
  rw [basicLines_plain (by decide) (by decide), if_pos rfl]

theorem basicLines_feed :
    basicLines (.plain false) acc ('\n' :: rest) = basicLines (.plain false) ('\n' :: acc) rest := by
  rw [basicLines_plain (by decide) (by decide), if_neg (by decide), if_pos (Or.inr rfl)]

theorem basicLines_escapes (h : Escapes c word) :
    basicLines (.plain false) acc (word ++ rest) = basicLines (.plain false) (c :: acc) rest := by
  cases h with
  | self hline hquote hslash =>
    obtain ⟨a, after, hword, _, _, hreturn⟩ := (Escapes.self hline hquote hslash).exists_head
    cases hword
    exact basicLines_self hline hquote hslash hreturn
  | short h =>
    obtain ⟨hblank, hfeed, hreturn⟩ := ne_blank_of_short h
    exact basicLines_escape.trans
      (basicLines_escapeStep hblank hfeed hreturn (escapeStep_of_short h))
  | @code high low hhigh hlow =>
    have hu : escapeStep 'u' = some (.code 4 0, none) := rfl
    have hzero : Text.hexValue? '0' = some 0 := rfl
    have hlast : codeStep 1 (16 * 0 + c.toNat / 16) low = some (.plain false, some c) := by
      rw [Nat.mul_zero, Nat.zero_add]
      exact codeStep_last hlow
    simp only [List.cons_append, List.nil_append, basicLines_escape]
    rw [basicLines_escapeStep (by decide) (by decide) (by decide) hu,
      basicLines_codeStep (codeStep_next hzero (by decide)),
      basicLines_codeStep (codeStep_next hzero (by decide)),
      basicLines_codeStep (codeStep_next hhigh (by decide)), basicLines_codeStep hlast]
    rfl

theorem exists_head_escapeChar (hquote : c ≠ '"') :
    ∃ a after, escapeChar c = a :: after ∧ a ≠ '"' := by
  by_cases hline : c = '\n'
  · exact ⟨'\n', [], by rw [hline]; rfl, by decide⟩
  · obtain ⟨a, after, hword, ha, _⟩ := (escapes_escapeChar hquote hline).exists_head
    exact ⟨a, after, hword, ha⟩

/-- After a quote that stands for itself, two more come at the end of the text only. -/
theorem escapeLines_ne_quotes (hrun : 1 ≤ run) (hne : cs ≠ []) (hlast : run = 1 → cs ≠ ['"']) :
    ∀ after, escapeLines run cs ++ rest ≠ '"' :: '"' :: after := by
  intro after
  cases cs with
  | nil => exact absurd rfl hne
  | cons c cs =>
    unfold escapeLines
    split_ifs with hquote hmany
    · simp
    · have hone : run = 1 := by omega
      cases cs with
      | nil => exact absurd (by rw [hquote]) (hlast hone)
      | cons c' cs =>
        unfold escapeLines
        split_ifs with hquote' hmany'
        · simp
        · omega
        · obtain ⟨a, word, hword, ha⟩ := exists_head_escapeChar hquote'
          simp [hword, ha]
    · obtain ⟨a, word, hword, ha⟩ := exists_head_escapeChar hquote
      simp [hword, ha]

theorem basicLines_escapeLines :
    basicLines (.plain false) acc (escapeLines run cs ++ '"' :: '"' :: '"' :: '\n' :: rest) =
      some (acc.reverse ++ cs, '\n' :: rest) := by
  induction cs generalizing acc run with
  | nil =>
    have hclose : closing '"' acc ('\n' :: rest) = (acc.reverse ++ [], '\n' :: rest) :=
      closing_replicate (Nat.zero_le 2) (by decide)
    rw [escapeLines, List.nil_append, basicLines_close, hclose]
  | cons c cs ih =>
    unfold escapeLines
    split_ifs with hquote hmany
    · have hshort : Escapes c ['\\', '"'] := .short (by rw [hquote]; rfl)
      show basicLines _ acc (['\\', '"'] ++ (escapeLines 0 cs ++ _)) = _
      rw [basicLines_escapes hshort, ih]
      simp
    · subst hquote
      rw [List.cons_append]
      -- At the end of the text the first quotes of the run are taken for the closing ones.
      by_cases hone : cs = []
      · have hclose : closing '"' acc ('"' :: '\n' :: rest) = (acc.reverse ++ ['"'], '\n' :: rest) :=
          closing_replicate (n := 1) (by decide) (by decide)
        rw [hone, escapeLines, List.nil_append, basicLines_close, hclose]
      by_cases htwo : run = 0 ∧ cs = ['"']
      · have hclose : closing '"' acc ('"' :: '"' :: '\n' :: rest) =
            (acc.reverse ++ ['"', '"'], '\n' :: rest) :=
          closing_replicate (n := 2) (by decide) (by decide)
        rw [htwo.1, htwo.2]
        exact basicLines_close.trans (congrArg some hclose)
      · rw [basicLines_quote (escapeLines_ne_quotes (by omega) hone fun h => not_and.mp htwo (by omega)),
          ih]
        simp
    · by_cases hline : c = '\n'
      · subst hline
        have hself : escapeChar '\n' = ['\n'] := rfl
        rw [hself, List.append_assoc, List.singleton_append, basicLines_feed, ih]
        simp
      · rw [List.append_assoc, basicLines_escapes (escapes_escapeChar hquote hline), ih]
        simp

/-! ## Single quotes -/

theorem literalBody_append (h : ∀ c ∈ cs, isLineChar c = true ∧ c ≠ '\'') :
    literalBody acc (cs ++ '\'' :: rest) = some (acc.reverse ++ cs, rest) := by
  induction cs generalizing acc with
  | nil => simp [literalBody]
  | cons c cs ih =>
    obtain ⟨⟨hline, hquote⟩, hcs⟩ := List.forall_mem_cons.mp h
    simp [literalBody, hline, hquote, ih hcs]

/-! ## Three single quotes -/

/-- Text without three quotes side by side is read up to the closing ones, of which up to two more may
stand before. -/
theorem literalLines_append (h : ∀ c ∈ cs, isLineChar c = true ∨ c = '\n')
    (htriple : hasTriple '\'' run cs = false) :
    literalLines acc (cs ++ '\'' :: '\'' :: '\'' :: '\n' :: rest) =
      some (acc.reverse ++ cs, '\n' :: rest) := by
  induction cs generalizing acc run with
  | nil =>
    have hclose : closing '\'' acc ('\n' :: rest) = (acc.reverse ++ [], '\n' :: rest) :=
      closing_replicate (Nat.zero_le 2) (by decide)
    rw [List.nil_append, literalLines_close, hclose]
  | cons c cs ih =>
    obtain ⟨hc, hcs⟩ := List.forall_mem_cons.mp h
    by_cases hquote : c = '\''
    · subst hquote
      have hnext : run < 2 ∧ hasTriple '\'' (run + 1) cs = false := by
        simpa [hasTriple] using htriple
      by_cases hone : cs = []
      · have hclose : closing '\'' acc ('\'' :: '\n' :: rest) = (acc.reverse ++ ['\''], '\n' :: rest) :=
          closing_replicate (n := 1) (by decide) (by decide)
        rw [hone]
        exact literalLines_close.trans (congrArg some hclose)
      by_cases htwo : cs = ['\'']
      · have hclose : closing '\'' acc ('\'' :: '\'' :: '\n' :: rest) =
            (acc.reverse ++ ['\'', '\''], '\n' :: rest) :=
          closing_replicate (n := 2) (by decide) (by decide)
        rw [htwo]
        exact literalLines_close.trans (congrArg some hclose)
      · have hquotes : ∀ after, cs ++ '\'' :: '\'' :: '\'' :: '\n' :: rest ≠ '\'' :: '\'' :: after := by
          intro after he
          match cs, hone, htwo with
          | [_], _, htwo => exact htwo (by cases he; rfl)
          | a :: b :: cs, _, _ =>
            cases he
            have hthree : hasTriple '\'' (run + 1) ('\'' :: '\'' :: cs) = true := by simp [hasTriple]
            cases hthree.symm.trans hnext.2
        rw [List.cons_append, literalLines_quote hquotes, ih hcs hnext.2]
        simp
    · have hrest : hasTriple '\'' 0 cs = false := by simpa [hasTriple, hquote] using htriple
      rw [List.cons_append, literalLines_self hquote hc, ih hcs hrest]
      simp

/-! ## Strings -/

theorem dropLineEnd_of_head {a : Char} (hfeed : a ≠ '\n') (hreturn : a ≠ '\r') :
    dropLineEnd (a :: rest) = a :: rest := by
  rw [dropLineEnd.eq_def]
  split
  · rename_i he
    cases he
    exact absurd rfl hfeed
  · rename_i he
    cases he
    exact absurd rfl hreturn
  · rfl

theorem dropLineEnd_leadLine (h : ∃ a after, word ++ rest = a :: after ∧ (a = '\n' → '\n' ∈ cs) ∧
    a ≠ '\r') : dropLineEnd (leadLine cs ++ (word ++ rest)) = word ++ rest := by
  obtain ⟨a, after, hword, hfeed, hreturn⟩ := h
  unfold leadLine
  by_cases hline : '\n' ∈ cs
  · simp [hline, dropLineEnd]
  · rw [if_neg (by simpa using hline), List.nil_append, hword]
    exact dropLineEnd_of_head (fun ha => hline (hfeed ha)) hreturn

theorem readText_basic (h : ∀ after, cs ≠ '"' :: '"' :: after) :
    readText ('"' :: cs) =
      (basicBody (.plain false) [] cs).map fun (cs, rest) => (String.ofList cs, rest) := by
  rw [readText.eq_def]
  simp

theorem readText_literal (h : ∀ after, cs ≠ '\'' :: '\'' :: after) :
    readText ('\'' :: cs) =
      (literalBody [] cs).map fun (cs, rest) => (String.ofList cs, rest) := by
  rw [readText.eq_def]
  simp

theorem readText_write_basic :
    readText (Style.basic.write cs ++ '\n' :: rest) = some (String.ofList cs, '\n' :: rest) := by
  have hquotes : ∀ after, escapeLine cs ++ '"' :: '\n' :: rest ≠ '"' :: '"' :: after := by
    intro after
    cases cs with
    | nil => simp [escapeLine]
    | cons c cs =>
      unfold escapeLine
      rw [List.flatMap_cons]
      split_ifs with hquote hline
      · simp
      · simp
      · obtain ⟨a, word, hword, ha⟩ := exists_head_escapeChar hquote
        simp [hword, ha]
  have hshape : Style.basic.write cs ++ '\n' :: rest = '"' :: (escapeLine cs ++ '"' :: '\n' :: rest) := by
    simp [Style.write]
  rw [hshape, readText_basic hquotes, basicBody_escapeLine]
  rfl

theorem readText_write_literal (h : ∀ c ∈ cs, isLineChar c = true ∧ c ≠ '\'') (hne : cs ≠ []) :
    readText (Style.literal.write cs ++ '\n' :: rest) = some (String.ofList cs, '\n' :: rest) := by
  have hquotes : ∀ after, cs ++ '\'' :: '\n' :: rest ≠ '\'' :: '\'' :: after := by
    intro after he
    cases cs with
    | nil => exact hne rfl
    | cons c cs => exact (h c List.mem_cons_self).2 (List.cons.inj he).1
  have hshape : Style.literal.write cs ++ '\n' :: rest = '\'' :: (cs ++ '\'' :: '\n' :: rest) := by
    simp [Style.write]
  rw [hshape, readText_literal hquotes, literalBody_append h]
  rfl

theorem readText_write_basicLines :
    readText (Style.basicLines.write cs ++ '\n' :: rest) = some (String.ofList cs, '\n' :: rest) := by
  have hhead : ∃ a after, escapeLines 0 cs ++ '"' :: '"' :: '"' :: '\n' :: rest = a :: after ∧
      (a = '\n' → '\n' ∈ cs) ∧ a ≠ '\r' := by
    cases cs with
    | nil => exact ⟨'"', _, rfl, by decide⟩
    | cons c cs =>
      unfold escapeLines
      split_ifs with hquote hmany
      · exact ⟨'\\', _, rfl, by simp⟩
      · exact ⟨'"', _, rfl, by simp⟩
      · by_cases hline : c = '\n'
        · subst hline
          exact ⟨'\n', _, rfl, by simp⟩
        · obtain ⟨a, word, hword, _, hfeed, hreturn⟩ := (escapes_escapeChar hquote hline).exists_head
          exact ⟨a, _, by rw [hword]; rfl, fun ha => absurd ha hfeed, hreturn⟩
  have hshape : Style.basicLines.write cs ++ '\n' :: rest = '"' :: '"' :: '"' ::
      (leadLine cs ++ (escapeLines 0 cs ++ '"' :: '"' :: '"' :: '\n' :: rest)) := by
    simp [Style.write]
  rw [hshape, readText, dropLineEnd_leadLine hhead, basicLines_escapeLines]
  rfl

theorem readText_write_literalLines (h : ∀ c ∈ cs, isLineChar c = true ∨ c = '\n')
    (htriple : hasTriple '\'' 0 cs = false) :
    readText (Style.literalLines.write cs ++ '\n' :: rest) =
      some (String.ofList cs, '\n' :: rest) := by
  have hhead : ∃ a after, cs ++ '\'' :: '\'' :: '\'' :: '\n' :: rest = a :: after ∧
      (a = '\n' → '\n' ∈ cs) ∧ a ≠ '\r' := by
    cases cs with
    | nil => exact ⟨'\'', _, rfl, by decide⟩
    | cons c cs =>
      refine ⟨c, _, rfl, fun hc => by simp [hc], ?_⟩
      rintro rfl
      cases h _ List.mem_cons_self with
      | inl hline => cases hline
      | inr hfeed => cases hfeed
  have hshape : Style.literalLines.write cs ++ '\n' :: rest = '\'' :: '\'' :: '\'' ::
      (leadLine cs ++ (cs ++ '\'' :: '\'' :: '\'' :: '\n' :: rest)) := by
    simp [Style.write]
  rw [hshape, readText, dropLineEnd_leadLine hhead, literalLines_append h htriple]
  rfl

/-- Whatever style a text is written in, it is read back. -/
theorem readText_write :
    readText ((Style.ofText cs).write cs ++ '\n' :: rest) = some (String.ofList cs, '\n' :: rest) := by
  have hline : cs.any needsCode = false → ∀ c ∈ cs, isLineChar c = true ∨ c = '\n' := by
    intro hcode c hc
    have hplain : needsCode c = false := by simpa using List.any_eq_false.mp hcode c hc
    by_cases hfeed : c = '\n'
    · exact Or.inr hfeed
    · exact Or.inl (isLineChar_of_not_needsCode hplain hfeed)
  unfold Style.ofText
  dsimp only
  split_ifs with hbasic hliteral hlines hquoted hfeed
  · exact readText_write_basic
  · have hparts : (cs.any needsCode = false ∧ '\'' ∉ cs) ∧ '\n' ∉ cs := by simpa using hliteral
    refine readText_write_literal (fun c hc => ⟨?_, ?_⟩) ?_
    · exact (hline hparts.1.1 c hc).resolve_right fun hfeed => hparts.2 (hfeed ▸ hc)
    · exact fun hquote => hparts.1.2 (hquote ▸ hc)
    · rintro rfl
      exact hbasic rfl
  · exact readText_write_basicLines
  · have hparts : cs.any needsCode = false ∧ hasTriple '\'' 0 cs = false := by simpa using hquoted
    exact readText_write_literalLines (hline hparts.1) hparts.2
  · exact readText_write_basicLines
  · exact readText_write_basic

/-! ## Keys and values -/

variable {size : Nat} {a : Char} {value : Toml} {key : String}

theorem ne_blank_of_isBareChar (h : isBareChar c = true) : isBlank c = false := by
  by_contra hblank
  rw [Bool.not_eq_false, isBlank, Bool.or_eq_true, decide_eq_true_eq, decide_eq_true_eq] at hblank
  obtain rfl | rfl := hblank
  · cases h
  · cases h

/-- What a key is written as. -/
structure Bare (word : List Char) : Prop where
  ne_nil : word ≠ []
  chars : ∀ c ∈ word, isBareChar c = true

theorem Bare.exists_head (h : Bare word) : ∃ c cs, word = c :: cs ∧ isBareChar c = true := by
  cases word with
  | nil => exact absurd rfl h.ne_nil
  | cons c cs => exact ⟨c, cs, rfl, h.chars c List.mem_cons_self⟩

theorem Bare.skipBlanks (h : Bare word) : skipBlanks (word ++ rest) = word ++ rest := by
  obtain ⟨c, cs, rfl, hc⟩ := h.exists_head
  simp [Toml.skipBlanks, ne_blank_of_isBareChar hc]

theorem Bare.readKeyPart (h : Bare word) (ha : isBareChar a = false) :
    readKeyPart (word ++ a :: rest) = some (String.ofList word, a :: rest) := by
  have htake : (word ++ a :: rest).takeWhile isBareChar = word := by
    rw [List.takeWhile_append_of_pos h.chars]
    simp [ha]
  have hdrop : (word ++ a :: rest).dropWhile isBareChar = a :: rest := by
    rw [List.dropWhile_append_of_pos h.chars]
    simp [ha]
  obtain ⟨c, cs, rfl, hc⟩ := h.exists_head
  rw [Toml.readKeyPart.eq_def]
  split
  · rename_i he
    cases he
    cases hc
  · rename_i he
    cases he
    cases hc
  · simp only [htake, hdrop]
    rfl

theorem Bare.readKey (h : Bare word) (ha : isBareChar a = false) {b : Char} {after : List Char}
    (hb : Toml.skipBlanks (a :: rest) = b :: after) (hdot : b ≠ '.') :
    readKey (word ++ a :: rest) = some ([], String.ofList word, b :: after) := by
  have hparts : readKeyParts maxDepth (word ++ a :: rest) = some ([String.ofList word], b :: after) := by
    rw [maxDepth, readKeyParts, h.skipBlanks, h.readKeyPart ha]
    simp only [Option.bind_eq_bind, Option.bind_some, hb]
    split
    · rename_i he
      cases he
      exact absurd rfl hdot
    · rfl
  simp [Toml.readKey, hparts]

/-- What is written for a value that holds no other, on a line of its own. -/
structure Writes (word : List Char) (value : Toml) : Prop where
  head : ∃ c cs, word = c :: cs ∧ isBlank c = false ∧ c ≠ '[' ∧ c ≠ '\x7b'
  read : ∀ rest, readScalar (word ++ '\n' :: rest) = some (value, '\n' :: rest)

theorem Style.exists_head_write (style : Style) (cs : List Char) :
    ∃ c after, style.write cs = c :: after ∧ (c = '"' ∨ c = '\'') := by
  cases style with
  | basic => exact ⟨_, _, rfl, Or.inl rfl⟩
  | literal => exact ⟨_, _, rfl, Or.inr rfl⟩
  | basicLines => exact ⟨_, _, rfl, Or.inl rfl⟩
  | literalLines => exact ⟨_, _, rfl, Or.inr rfl⟩

theorem readScalar_quote (hc : c = '"' ∨ c = '\'') :
    readScalar (c :: rest) = (readText (c :: rest)).map fun (s, rest) => (.text s, rest) := by
  obtain rfl | rfl := hc
  · simp [readScalar]
  · simp [readScalar]

theorem writes_text (s : String) : Writes (writeText s).toList (.text s) := by
  have hlist : (writeText s).toList = (Style.ofText s.toList).write s.toList := String.toList_ofList
  obtain ⟨c, after, hword, hc⟩ := (Style.ofText s.toList).exists_head_write s.toList
  constructor
  · refine ⟨c, after, hlist.trans hword, ?_⟩
    obtain rfl | rfl := hc
    · decide
    · decide
  · intro rest
    have hread : readText ((Style.ofText s.toList).write s.toList ++ '\n' :: rest) =
      some (String.ofList s.toList, '\n' :: rest) := readText_write
    rw [String.ofList_toList] at hread
    rw [hlist]
    rw [hword] at hread ⊢
    rw [List.cons_append] at hread ⊢
    rw [readScalar_quote hc, hread]
    rfl

theorem writes_boolean (b : Bool) : Writes (writeBoolean b).toList (.boolean b) := by
  cases b with
  | true => exact ⟨⟨'t', _, rfl, by decide⟩, fun _ => rfl⟩
  | false => exact ⟨⟨'f', _, rfl, by decide⟩, fun _ => rfl⟩

theorem Writes.readValue (h : Writes word value) :
    readValue size maxDepth (word ++ '\n' :: rest) = some (value, '\n' :: rest) := by
  obtain ⟨c, cs, rfl, _, hlist, htable⟩ := h.head
  rw [← h.read, maxDepth, Toml.readValue.eq_def]
  simp [hlist, htable]

/-! ## Lines -/

theorem readLine_header (h : Bare word) :
    readLine size ('[' :: (word ++ ']' :: '\n' :: rest)) =
      some (.header [] (String.ofList word), rest) := by
  have hkey : readKey (word ++ ']' :: '\n' :: rest) =
    some ([], String.ofList word, ']' :: '\n' :: rest) := h.readKey (by decide) rfl (by decide)
  obtain ⟨c, cs, rfl, hc⟩ := h.exists_head
  have hbracket : c ≠ '[' := by
    rintro rfl
    cases hc
  rw [List.cons_append] at hkey ⊢
  have hopen : isBlank '[' = false := rfl
  simp [readLine, Toml.skipBlanks, hopen, hbracket, hkey, readMark, endLine]

theorem readLine_field (h : Bare word) {text : List Char}
    (hhead : ∃ c cs, text = c :: cs ∧ isBlank c = false)
    (hv : readValue size maxDepth (text ++ '\n' :: rest) = some (value, '\n' :: rest)) :
    readLine size (word ++ ' ' :: '=' :: ' ' :: (text ++ '\n' :: rest)) =
      some (.field [] (String.ofList word) value, rest) := by
  have hkey : readKey (word ++ ' ' :: '=' :: ' ' :: (text ++ '\n' :: rest)) =
      some ([], String.ofList word, '=' :: ' ' :: (text ++ '\n' :: rest)) :=
    h.readKey (by decide) rfl (by decide)
  have htext : Toml.skipBlanks (' ' :: (text ++ '\n' :: rest)) = text ++ '\n' :: rest := by
    obtain ⟨c, cs, rfl, hc⟩ := hhead
    simp [Toml.skipBlanks, hc, show isBlank ' ' = true from rfl]
  have hfield : readField? (readValue size maxDepth)
      (word ++ ' ' :: '=' :: ' ' :: (text ++ '\n' :: rest)) =
        some (([], String.ofList word, value), '\n' :: rest) := by
    simp [readField?, hkey, readMark, htext, hv]
  unfold readLine
  rw [h.skipBlanks]
  obtain ⟨c, cs, rfl, hc⟩ := h.exists_head
  have hmark : c ≠ '[' ∧ ¬ (c = '#' ∨ c = '\n' ∨ c = '\r') := by
    constructor
    · rintro rfl
      cases hc
    · rintro (rfl | rfl | rfl)
      · cases hc
      · cases hc
      · cases hc
  rw [List.cons_append] at hfield ⊢
  simp [hmark, hfield, endLine]

theorem readLine_blank : readLine size ('\n' :: rest) = some (.blank, rest) := rfl

/-! ## Documents -/

variable {d d' d'' : Draft} {text text' : List Char}

/-- Whole lines that take a document from one draft to another. -/
def Takes (text : List Char) (d d' : Draft) : Prop :=
  ∃ lines ≤ text.length, ∀ size fuel rest,
    readLines size (fuel + lines) d (text ++ rest) = readLines size fuel d' rest

theorem Takes.append (h : Takes text d d') (h' : Takes text' d' d'') : Takes (text ++ text') d d'' := by
  obtain ⟨n, hn, hread⟩ := h
  obtain ⟨n', hn', hread'⟩ := h'
  refine ⟨n' + n, by rw [List.length_append]; omega, fun size fuel rest => ?_⟩
  rw [List.append_assoc, ← Nat.add_assoc, hread, hread']

theorem readLines_line {line : Line} {fuel : Nat} (hne : cs ≠ [])
    (hread : readLine size cs = some (line, rest)) (hadd : d.add line = some d') :
    readLines size (fuel + 1) d cs = readLines size fuel d' rest := by
  obtain ⟨c, cs, rfl⟩ := List.exists_cons_of_ne_nil hne
  simp [readLines, hread, hadd]

theorem takes_line {line : Line} (hne : text ≠ [])
    (hread : ∀ size rest, readLine size (text ++ rest) = some (line, rest)) (hadd : d.add line = some d') :
    Takes text d d' := by
  refine ⟨1, List.length_pos_iff.mpr hne, fun size fuel rest => ?_⟩
  exact readLines_line (List.append_ne_nil_of_left_ne_nil hne rest) (hread size rest) hadd

theorem takes_header (hkey : Bare key.toList) (hadd : d.add (.header [] key) = some d') :
    Takes (writeHeader key).toList d d' := by
  have hlist : (writeHeader key).toList = '[' :: (key.toList ++ [']', '\n']) := by
    simp [writeHeader]
  refine takes_line (by simp [hlist]) (fun size rest => ?_) hadd
  have hshape : (writeHeader key).toList ++ rest = '[' :: (key.toList ++ ']' :: '\n' :: rest) := by
    simp [hlist]
  rw [hshape]
  exact (readLine_header hkey).trans (by rw [String.ofList_toList])

theorem takes_field (hkey : Bare key.toList) {word : String} (hvalue : Writes word.toList value)
    (hadd : d.add (.field [] key value) = some d') : Takes (writeField key word).toList d d' := by
  have hlist : (writeField key word).toList =
      key.toList ++ ' ' :: '=' :: ' ' :: (word.toList ++ ['\n']) := by
    simp [writeField]
  refine takes_line (by simp [hlist]) (fun size rest => ?_) hadd
  have hshape : (writeField key word).toList ++ rest =
      key.toList ++ ' ' :: '=' :: ' ' :: (word.toList ++ '\n' :: rest) := by
    simp [hlist]
  obtain ⟨c, cs, hword, hc, _⟩ := hvalue.head
  rw [hshape]
  exact (readLine_field hkey ⟨c, cs, hword, hc⟩ hvalue.readValue).trans
    (by rw [String.ofList_toList])

theorem takes_blank : Takes ['\n'] d d :=
  takes_line (by simp) (fun _ _ => readLine_blank) rfl

/-- Lines that make up a whole text give its document. -/
theorem Takes.parse? {s : String} (h : Takes s.toList ⟨[], []⟩ d)
    (hmark : dropMark s.toList = s.toList) :
    parse? s = settle (.table .declared d.fields) := by
  obtain ⟨lines, hlines, hread⟩ := h
  obtain ⟨fuel, hfuel⟩ := Nat.exists_eq_add_of_le' (Nat.le_succ_of_le hlines)
  have hdone := hread (s.toList.length + 1) fuel []
  rw [List.append_nil, ← hfuel, readLines] at hdone
  simp [Toml.parse?, hmark, hdone]

theorem bare_key (h : key.toList ≠ [] ∧ key.toList.all isBareChar = true) : Bare key.toList :=
  ⟨h.1, List.all_eq_true.mp h.2⟩

end Toml

/-! ## Saved settings -/

namespace Settings

open Toml

/-- The table of output settings in a saved document. -/
def outputTable (s : Settings) : Toml.Fields :=
  ("prefix", .text s.lead) :: (s.outputDir.map fun dir => ("dir", Toml.text dir)).toList

def schemaTable (s : Settings) : Toml.Fields :=
  [("extension", .text s.extension), ("apply_defaults", .boolean s.applyDefaults)]

/-- The document that settings are saved as. -/
def document (s : Settings) : Toml.Fields :=
  [("output", .table .declared s.outputTable), ("schema", .table .declared s.schemaTable)]

theorem takes_outputTable (s : Settings) :
    Takes (writeField "prefix" (writeText s.lead) ++
        match s.outputDir with
        | some dir => writeField "dir" (writeText dir)
        | none => "").toList
      ⟨[("output", .table .declared [])], ["output"]⟩
      ⟨[("output", .table .declared s.outputTable)], ["output"]⟩ := by
  have hlead : Takes (writeField "prefix" (writeText s.lead)).toList
      ⟨[("output", .table .declared [])], ["output"]⟩
      ⟨[("output", .table .declared [("prefix", .text s.lead)])], ["output"]⟩ :=
    takes_field (bare_key (by decide)) (writes_text s.lead) rfl
  unfold outputTable
  rw [String.toList_append]
  cases s.outputDir with
  | none => simpa using hlead
  | some dir => exact hlead.append (takes_field (bare_key (by decide)) (writes_text dir) rfl)

theorem takes_toToml (s : Settings) :
    Takes s.toToml.toList ⟨[], []⟩ ⟨s.document, ["schema"]⟩ := by
  have houtput : Takes (writeHeader "output").toList ⟨[], []⟩
      ⟨[("output", .table .declared [])], ["output"]⟩ := takes_header (bare_key (by decide)) rfl
  have hschema : Takes (writeHeader "schema").toList
      ⟨[("output", .table .declared s.outputTable)], ["output"]⟩
      ⟨[("output", .table .declared s.outputTable), ("schema", .table .declared [])], ["schema"]⟩ :=
    takes_header (bare_key (by decide)) rfl
  have hextension : Takes (writeField "extension" (writeText s.extension)).toList
      ⟨[("output", .table .declared s.outputTable), ("schema", .table .declared [])], ["schema"]⟩
      ⟨[("output", .table .declared s.outputTable),
        ("schema", .table .declared [("extension", .text s.extension)])], ["schema"]⟩ :=
    takes_field (bare_key (by decide)) (writes_text s.extension) rfl
  have hdefaults : Takes (writeField "apply_defaults" (writeBoolean s.applyDefaults)).toList
      ⟨[("output", .table .declared s.outputTable),
        ("schema", .table .declared [("extension", .text s.extension)])], ["schema"]⟩
      ⟨s.document, ["schema"]⟩ :=
    takes_field (bare_key (by decide)) (writes_boolean s.applyDefaults) rfl
  have hall := ((((houtput.append s.takes_outputTable).append takes_blank).append hschema).append
    hextension).append hdefaults
  simp only [toToml, String.toList_append, List.append_assoc] at hall ⊢
  exact hall

/-- Saved settings are read back as they are, whatever their texts are. -/
theorem parse?_toToml (s : Settings) :
    Toml.parse? s.toToml = some (.table .declared s.document) := by
  have hmark : dropMark s.toToml.toList = s.toToml.toList := by
    simp [toToml, writeHeader, dropMark]
  rw [s.takes_toToml.parse? hmark]
  unfold document outputTable schemaTable
  cases s.outputDir <;> rfl

end Settings

end InterfaceTables
