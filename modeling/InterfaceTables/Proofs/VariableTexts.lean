import InterfaceTables.Proofs.DecidingEntries
import InterfaceTables.Proofs.NumberTexts

/-!
Texts that variables of the environment give to settings. A variable whose value reads as a truth value
or as a number gives the text of that, which may be written in another way; any other value is given as
it is, as a file gives each text.
-/

namespace InterfaceTables

open Decimal Setting

/-! ## First characters -/

namespace Text

/-- Characters before the letters have no other case. -/
theorem lowerChar_of_lt {c : Char} (h : c.toNat < 0x41) : lowerChar c = [c] := by
  have hruns : (caseRuns.all fun r => decide (0x41 ≤ r.first)) = true := by decide +kernel
  have hfind : caseRuns.find? (·.covers c.toNat) = none := by
    rw [List.find?_eq_none]
    intro r hr hcovers
    have hfirst := of_decide_eq_true (List.all_eq_true.mp hruns r hr)
    simp only [CaseRun.covers, Bool.and_eq_true, decide_eq_true_eq] at hcovers
    omega
  rw [lowerChar, if_neg (by omega), hfind]

theorem head?_toLowercase {c : Char} (h : c.toNat < 0x41) {s : String} (hs : s.toList.head? = some c) :
    (toLowercase s).toList.head? = some c := by
  obtain ⟨cs, hcs⟩ := List.head?_eq_some_iff.mp hs
  unfold toLowercase
  rw [String.toList_ofList, hcs, lowerAfter, if_neg (by omega), lowerChar_of_lt h]
  rfl

end Text

namespace Environment

/-! ## Values and their texts -/

/-- The words for truth values, in any case of letters. -/
def IsTruthWord (s : String) : Prop := Text.toLowercase s = "true" ∨ Text.toLowercase s = "false"
deriving Decidable

/-- A text that reads as a truth value or as a number. -/
def ReadsAsValue (s : String) : Prop := IsTruthWord s ∨ IsNumeral s.toList

/-- The ways in which values are written as texts. Zero with a minus sign reads as a whole number, which
has no such sign. -/
inductive OwnText : String → Prop where
  | truth (b : Bool) : OwnText (boolText b)
  | whole {i : ℤ} (h : fitsInt64 i = true) : OwnText (toString i)
  | double {x : Binary64} (hx : x.WellFormed) (hzero : x ≠ .zero true) : OwnText (doubleLayout.text x)

theorem bare_doubleLayout : doubleLayout.Bare := ⟨rfl, fun _ => rfl⟩

/-- The text that a variable gives to a setting that needs one. -/
def textOf (value : String) : String := (scalar value).asText?.getD value

variable {s : String}

theorem scalar_of_readInt64? {i : ℤ} (h : ¬ IsTruthWord s) (hi : readInt64? s.toList = some i) :
    scalar s = .integer i := by
  obtain ⟨htrue, hfalse⟩ := not_or.mp h
  simp [scalar, htrue, hfalse, hi]

theorem scalar_of_readBinary64? {x : Binary64} (h : ¬ IsTruthWord s) (hi : readInt64? s.toList = none)
    (hx : readBinary64? s.toList = some x) : scalar s = .double x := by
  obtain ⟨htrue, hfalse⟩ := not_or.mp h
  simp [scalar, htrue, hfalse, hi, hx]

theorem scalar_of_not_readsAsValue (h : ¬ ReadsAsValue s) : scalar s = .text s := by
  obtain ⟨hword, hnumeral⟩ := not_or.mp h
  obtain ⟨htrue, hfalse⟩ := not_or.mp hword
  have hi : readInt64? s.toList = none := by
    rw [Option.eq_none_iff_forall_ne_some]
    exact fun i hi => hnumeral (isNumeral_of_readInt64? hi)
  have hx : readBinary64? s.toList = none := by
    rw [← Option.not_isSome_iff_eq_none, isSome_readBinary64?_iff]
    exact hnumeral
  simp [scalar, htrue, hfalse, hi, hx]

/-- Everything that a variable may be. -/
theorem scalar_cases (s : String) :
    (∃ b, scalar s = .boolean b ∧ Text.toLowercase s = boolText b) ∨
      (∃ i, scalar s = .integer i ∧ readInt64? s.toList = some i) ∨
      (∃ x, scalar s = .double x ∧ readInt64? s.toList = none ∧ readBinary64? s.toList = some x) ∨
      (scalar s = .text s ∧ ¬ ReadsAsValue s) := by
  by_cases hv : ReadsAsValue s
  · by_cases hword : IsTruthWord s
    · obtain htrue | hfalse := hword
      · exact .inl ⟨true, by rw [scalar, if_pos htrue], htrue⟩
      · refine .inl ⟨false, ?_, hfalse⟩
        rw [scalar, if_neg (by rw [hfalse]; decide), if_pos hfalse]
    · cases hi : readInt64? s.toList with
      | some i => exact .inr (.inl ⟨i, scalar_of_readInt64? hword hi, rfl⟩)
      | none =>
        have hsome := (isSome_readBinary64?_iff s.toList).mpr (hv.resolve_left hword)
        obtain ⟨x, hx⟩ := Option.isSome_iff_exists.mp hsome
        exact .inr (.inr (.inl ⟨x, scalar_of_readBinary64? hword hi hx, rfl, hx⟩))
  · exact .inr (.inr (.inr ⟨scalar_of_not_readsAsValue hv, hv⟩))

theorem asText?_scalar (s : String) : (scalar s).asText? = some (textOf s) := by
  unfold textOf
  obtain ⟨b, hs, -⟩ | ⟨i, hs, -⟩ | ⟨x, hs, -⟩ | ⟨hs, -⟩ := scalar_cases s <;> rw [hs] <;> rfl

/-- Numbers begin with no letter of a word for a truth value. -/
theorem not_isTruthWord_of_head {c : Char} (hc : c.toNat < 0x41) (hs : s.toList.head? = some c) :
    ¬ IsTruthWord s := by
  have hhead := Text.head?_toLowercase hc hs
  rintro (htrue | hfalse)
  · rw [htrue] at hhead
    cases hhead
    exact absurd hc (by decide)
  · rw [hfalse] at hhead
    cases hhead
    exact absurd hc (by decide)

theorem not_isTruthWord_signed (negative : Bool) {c : Char} (hc : c.isDigit = true) (cs : List Char)
    (hs : s.toList = signed negative (c :: cs)) : ¬ IsTruthWord s := by
  cases negative with
  | true =>
    refine not_isTruthWord_of_head (c := '-') (by decide) ?_
    rw [hs]
    rfl
  | false =>
    rw [Char.isDigit_iff_toNat] at hc
    have hhigh : c.toNat ≤ 57 := hc.2
    refine not_isTruthWord_of_head (c := c) (by omega) ?_
    rw [hs]
    rfl

theorem not_isTruthWord_toString (i : ℤ) : ¬ IsTruthWord (toString i) := by
  obtain ⟨negative, n, rfl, hn⟩ := exists_eq_signedInt i
  obtain ⟨c, cs, hdigits⟩ := List.exists_cons_of_ne_nil (Nat.toDigits_ne_nil (n := n) (b := 10))
  have hc : c.isDigit = true :=
    Nat.isDigit_of_mem_toDigits (by decide) (by decide) (hdigits ▸ List.mem_cons_self)
  refine not_isTruthWord_signed negative hc cs ?_
  rw [toList_toString_signedInt negative hn, hdigits]

theorem not_isTruthWord_text {x : Binary64} (hx : x.WellFormed) : ¬ IsTruthWord (doubleLayout.text x) := by
  cases x with
  | nan => exact (by decide +kernel : ¬ IsTruthWord "NaN")
  | infinite negative =>
    cases negative with
    | true => exact (by decide +kernel : ¬ IsTruthWord "-inf")
    | false => exact (by decide +kernel : ¬ IsTruthWord "inf")
  | finite negative m e =>
    obtain ⟨c, cs, htext, hc⟩ := exists_text_finite bare_doubleLayout negative hx
    exact not_isTruthWord_signed negative hc cs htext

/-- The text of a value is the one that a variable gives for it. -/
theorem OwnText.textOf_eq (h : OwnText s) : textOf s = s := by
  cases h with
  | truth b => cases b <;> decide
  | @whole i h =>
    rw [textOf, scalar_of_readInt64? (not_isTruthWord_toString i) (readInt64?_toString h)]
    rfl
  | @double x hx hzero =>
    have hword := not_isTruthWord_text hx
    have hread := readBinary64?_text bare_doubleLayout hx
    cases hi : readInt64? (doubleLayout.text x).toList with
    | some i =>
      rw [textOf, scalar_of_readInt64? hword hi]
      exact toString_of_readInt64?_text bare_doubleLayout hx hzero hi
    | none =>
      rw [textOf, scalar_of_readBinary64? hword hi hread]
      rfl

/-- A variable gives its value as it is where that is no value to read, or the text of one. -/
theorem textOf_eq_self_iff (s : String) : textOf s = s ↔ ¬ ReadsAsValue s ∨ OwnText s := by
  constructor
  · intro h
    obtain ⟨b, hs, -⟩ | ⟨i, hs, hi⟩ | ⟨x, hs, hi, hx⟩ | ⟨-, hs⟩ := scalar_cases s
    · rw [textOf, hs] at h
      exact .inr (h ▸ .truth b)
    · rw [textOf, hs] at h
      exact .inr (h ▸ .whole ((readInt64?_eq_some_iff.mp hi).2.2))
    · rw [textOf, hs] at h
      refine .inr (h ▸ .double (wellFormed_of_readBinary64? hx) ?_)
      -- Zero with a minus sign is written as a whole number, so it is not what was read.
      rintro rfl
      have hminus : readInt64? (doubleLayout.text (.zero true)).toList = some 0 := by decide
      rw [← h] at hi
      exact absurd (hminus.symm.trans hi) (by simp)
    · exact .inl hs
  · rintro (hs | hs)
    · rw [textOf, scalar_of_not_readsAsValue hs]
      rfl
    · exact hs.textOf_eq

end Environment

/-! ## Variables among the layers -/

namespace Setting.Key

/-- The variable of a setting. -/
def variableName : Key → String
  | .lead => "INTERFACES__OUTPUT__PREFIX"
  | .outputDir => "INTERFACES__OUTPUT__DIR"
  | .extension => "INTERFACES__SCHEMA__EXTENSION"
  | .applyDefaults => "INTERFACES__SCHEMA__APPLY_DEFAULTS"

theorem key?_variableName (k : Key) :
    Environment.key? k.variableName = some (k.group ++ "." ++ k.name) := by
  cases k <;> decide +kernel

theorem pathOf_path (k : Key) : pathOf (k.group ++ "." ++ k.name) = [.field k.group, .field k.name] := by
  cases k <;> decide

end Setting.Key

namespace Environment

theorem layer_append (before after : Environment) :
    layer (before ++ after) = layer before ++ layer after := List.filterMap_append

/-- The variables in their order, with one in their midst. -/
theorem layer_append_cons (before after : Environment) (k : Key) (s : String) :
    layer (before ++ (k.variableName, s) :: after) =
      layer before ++ (k.group ++ "." ++ k.name, .scalar (some origin) (scalar s)) :: layer after := by
  have hentry : (key? k.variableName).map (fun key => (key, Setting.scalar (some origin) (scalar s))) =
      some (k.group ++ "." ++ k.name, .scalar (some origin) (scalar s)) := by
    rw [k.key?_variableName, Option.map_some]
  rw [layer_append]
  exact congrArg (layer before ++ ·) (List.filterMap_cons_some hentry)

/-- Variables have single values. -/
theorem exists_scalar_of_mem_layer {env : Environment} {entry : String × Setting} (h : entry ∈ env.layer) :
    ∃ origin value, entry.2 = .scalar origin value := by
  obtain ⟨⟨name, s⟩, -, hentry⟩ := List.mem_filterMap.mp h
  obtain ⟨key, -, rfl⟩ := Option.map_eq_some_iff.mp hentry
  exact ⟨_, _, rfl⟩

theorem lastGives_layer {after : Environment} {k : Key}
    (hafter : ∀ entry ∈ after.layer, Spares k entry.1 entry.2) (before : Environment) (s : String) :
    LastGives k (scalar s) (layer (before ++ (k.variableName, s) :: after)) :=
  ⟨_, _, _, _, layer_append_cons before after k s,
    .path k.pathOf_path k.toLowercase_group k.toLowercase_name, hafter⟩

theorem lookup_append_cons {before after : Environment} {name other s : String} (h : name ≠ other) :
    (before ++ (other, s) :: after).lookup name = (before ++ after).lookup name := by
  rw [List.lookup_append, List.lookup_append, List.lookup_cons, beq_eq_false_iff_ne.mpr h]

end Environment

namespace Settings

open Environment

variable {ws : Workspace} {after env : Environment} {explicit : Option Path} {k : Key} {s : String}
  {t : Settings}

/-- Where files are looked for does not depend on the variables of settings. -/
theorem files_append_cons (ws : Workspace) (before after : Environment) (explicit : Option Path) (k : Key)
    (s : String) :
    files ws (before ++ (k.variableName, s) :: after) explicit = files ws (before ++ after) explicit := by
  have hconfigured : "XDG_CONFIG_HOME" ≠ k.variableName := by cases k <;> decide
  have hhome : "HOME" ≠ k.variableName := by cases k <;> decide
  unfold files userFile? userDirectory?
  rw [lookup_append_cons hconfigured, lookup_append_cons hhome]

theorem exists_fields_of_effective (h : effective ws env explicit = .ok t) :
    ∃ fields, overlayFiles ws [] (files ws env explicit) = .ok fields ∧
      ofFields (Setting.overlay fields env.layer) = .ok t := by
  unfold effective at h
  cases hfields : overlayFiles ws [] (files ws env explicit) with
  | error e =>
    rw [hfields] at h
    cases h
  | ok fields =>
    rw [hfields] at h
    exact ⟨fields, rfl, h⟩

/-- A setting has the text that its variable gives. -/
theorem textIn_of_variable (hk : k ≠ .applyDefaults)
    (hafter : ∀ entry ∈ after.layer, Spares k entry.1 entry.2) (before : Environment)
    (h : effective ws (before ++ (k.variableName, s) :: after) explicit = .ok t) :
    k.textIn t = some (textOf s) := by
  obtain ⟨fields, -, ht⟩ := exists_fields_of_effective h
  exact (lastGives_layer hafter before s).holds.textIn hk (asText?_scalar s) ht

/-- A variable for a text never makes settings fail. -/
theorem exists_effective_of_variable (hk : k ≠ .applyDefaults)
    (hafter : ∀ entry ∈ after.layer, Spares k entry.1 entry.2) (before : Environment)
    (h : effective ws (before ++ after) explicit = .ok t) (s : String) :
    ∃ t', effective ws (before ++ (k.variableName, s) :: after) explicit = .ok t' := by
  obtain ⟨fields, hfields, ht⟩ := exists_fields_of_effective h
  rw [← files_append_cons ws before after explicit k s] at hfields
  rw [effective_eq_ofFields hfields]
  -- A group that was a list becomes a table; its other settings are those that come later.
  have hbeside : Beside k (Setting.overlay fields (layer (before ++ after)))
      (Setting.overlay fields (layer (before ++ (k.variableName, s) :: after))) := by
    rw [layer_append, layer_append_cons, overlay_append, overlay_append, Setting.overlay]
    refine (beside_afterEntry k.pathOf_path k.toLowercase_group k.toLowercase_name).overlay ?_
    exact fun entry hmem => ⟨hafter entry hmem, exists_scalar_of_mem_layer hmem⟩
  exact hbeside.exists_ofFields (lastGives_layer hafter before s).holds hk (asText?_scalar s) ht

theorem foldl_overlay (fields : Fields) (layers : List Fields) :
    layers.foldl Setting.overlay fields = Setting.overlay fields layers.flatten := by
  induction layers generalizing fields with
  | nil => rfl
  | cons layer layers ih => rw [List.foldl_cons, ih, List.flatten_cons, overlay_append]

/-- A setting has the text that a file gives, as it stands there. -/
theorem textIn_of_file {layers : List Fields} (hk : k ≠ .applyDefaults)
    (hfiles : List.Forall₂ (fun file layer => ws.fileLayer file.2 file.1 = .ok layer)
      (files ws env explicit) layers)
    (hgives : LastGives k (.text s) layers.flatten)
    (henv : ∀ entry ∈ env.layer, Spares k entry.1 entry.2) (h : effective ws env explicit = .ok t) :
    k.textIn t = some s := by
  rw [effective_eq_ofFields (overlayFiles_eq_foldl hfiles), foldl_overlay] at h
  obtain ⟨origin, hheld⟩ : Holds k (.text s) (Setting.overlay [] layers.flatten) := hgives.holds
  have hholds : Holds k (.text s) (Setting.overlay (Setting.overlay [] layers.flatten) env.layer) :=
    ⟨origin, (held_overlay_of_spares henv).trans hheld⟩
  exact hholds.textIn hk rfl h

/-- Settings that need a text can be given one by a variable wherever they can be loaded without it. The
text is that of the variable unless the variable reads as a truth value or as a number and is not the
text of what it reads as; a file always gives its text. -/
theorem variable_verbatim_iff (hk : k ≠ .applyDefaults)
    (hafter : ∀ entry ∈ after.layer, Spares k entry.1 entry.2) (ws : Workspace) (explicit : Option Path)
    (before : Environment) (s : String) :
    (∀ t, effective ws (before ++ after) explicit = .ok t →
        ∃ t', effective ws (before ++ (k.variableName, s) :: after) explicit = .ok t') ∧
      (∀ t, effective ws (before ++ (k.variableName, s) :: after) explicit = .ok t →
        k.textIn t = some (textOf s) ∧
          (k.textIn t = some s ↔ ¬ ReadsAsValue s ∨ OwnText s)) ∧
      ∀ (ws' : Workspace) (env : Environment) (explicit' : Option Path) (layers : List Fields)
          (t : Settings),
        List.Forall₂ (fun file layer => ws'.fileLayer file.2 file.1 = .ok layer)
          (files ws' env explicit') layers →
        LastGives k (.text s) layers.flatten → (∀ entry ∈ env.layer, Spares k entry.1 entry.2) →
        effective ws' env explicit' = .ok t → k.textIn t = some s := by
  refine ⟨fun t h => exists_effective_of_variable hk hafter before h s, fun t h => ?_, ?_⟩
  · have htext := textIn_of_variable hk hafter before h
    refine ⟨htext, ?_⟩
    rw [htext, Option.some_inj]
    exact textOf_eq_self_iff s
  · intro ws' env explicit' layers t hfiles hgives henv h
    exact textIn_of_file hk hfiles hgives henv h

end Settings

/-! ## A number with zeros before it -/

/-- A working directory without files. -/
def bareDirectory : Workspace where
  tree := FileTree.empty
  workingDir := []

theorem effective_bareDirectory : Settings.effective bareDirectory [] none = .ok {} := by
  have hfields : Settings.overlayFiles bareDirectory [] (Settings.files bareDirectory [] none) =
      .ok [] := rfl
  exact (Settings.effective_eq_ofFields hfields).trans rfl

theorem textOf_zeros : Environment.textOf "007" = "7" := by
  have hread : readInt64? "007".toList = some 7 := by decide
  rw [Environment.textOf, Environment.scalar_of_readInt64? (by decide +kernel) hread]
  rfl

theorem spares_layer_nil (k : Key) : ∀ entry ∈ Environment.layer [], Spares k entry.1 entry.2 := by
  simp [Environment.layer]

theorem exists_effective_of_zeros :
    ∃ t, Settings.effective bareDirectory [(Key.lead.variableName, "007")] none = .ok t :=
  Settings.exists_effective_of_variable (by decide) (spares_layer_nil .lead) [] effective_bareDirectory
    "007"

/-- Zeros before a number are lost. -/
theorem zeros_lost :
    ∃ t, Settings.effective bareDirectory [(Key.lead.variableName, "007")] none = .ok t ∧ t.lead = "7" ∧
      t.lead ≠ "007" := by
  obtain ⟨t, ht⟩ := exists_effective_of_zeros
  have htext := Settings.textIn_of_variable (by decide) (spares_layer_nil .lead) [] ht
  rw [textOf_zeros] at htext
  have hlead : t.lead = "7" := Option.some.inj htext
  exact ⟨t, ht, hlead, by rw [hlead]; decide⟩

/-- A working directory with a file that gives the same text. -/
def zerosFile : Workspace where
  tree := FileTree.empty.insert ["interfaces.toml"]
    (.file (Settings.toToml { lead := "007" }).toUTF8 fileMode)
  workingDir := []

theorem layers_zerosFile :
    List.Forall₂ (fun file layer => zerosFile.fileLayer file.2 file.1 = .ok layer)
      (Settings.files zerosFile [] none)
      [Settings.savedLayer { lead := "007" } "interfaces.toml", [], []] := by
  have hfirst : zerosFile.fileLayer false "interfaces.toml" =
      .ok (Settings.savedLayer { lead := "007" } "interfaces.toml") :=
    (Workspace.fileLayer_of_stat rfl rfl rfl).trans (Settings.parse_toToml _ _)
  exact .cons hfirst (.cons rfl (.cons rfl .nil))

theorem lastGives_zerosFile :
    LastGives .lead (.text "007")
      [Settings.savedLayer { lead := "007" } "interfaces.toml", [], []].flatten := by
  have hgives : Gives .lead (.text "007") "output" (.table (some "interfaces.toml")
      ([] ++ ("prefix", .scalar (some "interfaces.toml") (.text "007")) :: [])) :=
    .table Key.lead.pathOf_group Key.lead.toLowercase_group Key.lead.toLowercase_name (by simp)
  refine ⟨[], _, _, _, rfl, hgives, ?_⟩
  intro entry hmem
  rw [List.mem_singleton.mp hmem]
  exact .other Key.extension.pathOf_group (by decide)

theorem exists_effective_zerosFile : ∃ t, Settings.effective zerosFile [] none = .ok t := by
  refine ⟨_, Settings.effective_of_layers layers_zerosFile ?_⟩
  simp only [List.cons_append, List.nil_append, List.forall_mem_cons]
  exact ⟨Settings.plainLayer_savedLayer _ _, plainLayer_nil, plainLayer_nil, plainLayer_nil,
    fun _ hmem => by cases hmem⟩

/-- The variable gives another text than the file. -/
theorem zeros_kept_by_file :
    ∃ t t', Settings.effective bareDirectory [(Key.lead.variableName, "007")] none = .ok t ∧
      Settings.effective zerosFile [] none = .ok t' ∧ t.lead = "7" ∧ t'.lead = "007" ∧
      Environment.ReadsAsValue "007" ∧ ¬ Environment.OwnText "007" := by
  obtain ⟨hexists, htext, hfile⟩ := Settings.variable_verbatim_iff (by decide) (spares_layer_nil .lead)
    bareDirectory none [] "007"
  obtain ⟨t, ht⟩ := hexists _ effective_bareDirectory
  obtain ⟨t', ht'⟩ := exists_effective_zerosFile
  obtain ⟨hvariable, hiff⟩ := htext t ht
  have hsaved := hfile zerosFile [] none _ t' layers_zerosFile lastGives_zerosFile
    (spares_layer_nil .lead) ht'
  rw [textOf_zeros] at hvariable
  rw [hvariable] at hiff
  have hnot := mt hiff.mpr (by decide)
  rw [not_or, not_not] at hnot
  exact ⟨t, t', ht, ht', Option.some.inj hvariable, Option.some.inj hsaved, hnot⟩

end InterfaceTables
