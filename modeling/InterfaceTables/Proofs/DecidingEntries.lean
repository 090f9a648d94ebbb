import InterfaceTables.Proofs.LayeredSettings
import InterfaceTables.Proofs.SchemaGrammar

/-!
The entry of the layers that decides a setting. Whatever comes before it, and whatever comes after it
that leaves the setting alone, the setting has the value that the entry gives. An entry that gives a
setting a text never makes settings fail that could be loaded without it.
-/

namespace InterfaceTables.Setting

variable {fields fields' layer : Fields} {key name : String} {v here here' : Setting} {k : Key}

/-! ## Entries about one setting -/

/-- The table that a key holds; anything else counts as an empty one. -/
def tableAt (fields : Fields) (key : String) : Fields := (fieldAt fields key).asTable.2

/-- An entry that leaves a setting alone. It is about another group, about another setting of the group,
or it is a table for the group without the setting. -/
inductive Spares (k : Key) : String → Setting → Prop where
  | other {key g : String} {steps : List Step} {v : Setting} (hpath : pathOf key = .field g :: steps)
      (hg : Text.toLowercase g ≠ k.group) : Spares k key v
  | beside {key g n : String} {steps : List Step} {v : Setting}
      (hpath : pathOf key = .field g :: .field n :: steps) (hn : Text.toLowercase n ≠ k.name) :
      Spares k key v
  | table {key g : String} {origin : Option Origin} {inner : Fields} (hpath : pathOf key = [.field g])
      (hinner : ∀ n v, (n, v) ∈ inner → Text.toLowercase n ≠ k.name) : Spares k key (.table origin inner)

/-- An entry that gives a setting a single value, by its path or in the table of its group. -/
inductive Gives (k : Key) (value : Scalar) : String → Setting → Prop where
  | path {key g n : String} {origin : Option Origin} (hpath : pathOf key = [.field g, .field n])
      (hg : Text.toLowercase g = k.group) (hn : Text.toLowercase n = k.name) :
      Gives k value key (.scalar origin value)
  | table {key g n : String} {origin origin' : Option Origin} {front back : Fields}
      (hpath : pathOf key = [.field g]) (hg : Text.toLowercase g = k.group)
      (hn : Text.toLowercase n = k.name)
      (hback : ∀ n v, (n, v) ∈ back → Text.toLowercase n ≠ k.name) :
      Gives k value key (.table origin (front ++ (n, .scalar origin' value) :: back))

/-- The last entry that does not leave a setting alone gives it a single value. -/
def LastGives (k : Key) (value : Scalar) (entries : Fields) : Prop :=
  ∃ before key v after, entries = before ++ (key, v) :: after ∧ Gives k value key v ∧
    ∀ entry ∈ after, Spares k entry.1 entry.2

/-- Merged layers in which a setting has a single value. -/
def Holds (k : Key) (value : Scalar) (fields : Fields) : Prop :=
  ∃ origin, k.held fields = some (.scalar origin value)

/-! ## Steps into tables -/

theorem lookup_assignAt_of_ne {n : String} (steps : List Step) (h : name ≠ Text.toLowercase n) :
    (assignAt (.field n :: steps) here v).asTable.2.lookup name = here.asTable.2.lookup name := by
  cases steps with
  | nil => exact lookup_assign_of_ne h.symm
  | cons step steps => simp [assignAt, asTable, lookup_putField, h]

/-- What a name holds afterwards depends on nothing but what it held. -/
theorem lookup_assignAt_congr (n : String) (steps : List Step)
    (h : here'.asTable.2.lookup name = here.asTable.2.lookup name) :
    (assignAt (.field n :: steps) here' v).asTable.2.lookup name =
      (assignAt (.field n :: steps) here v).asTable.2.lookup name := by
  by_cases hn : name = Text.toLowercase n
  · subst hn
    have hfield : fieldAt here'.asTable.2 (Text.toLowercase n) =
        fieldAt here.asTable.2 (Text.toLowercase n) := by
      rw [fieldAt, fieldAt, h]
    cases steps with
    | nil =>
      show (assign here'.asTable.2 n v).lookup _ = (assign here.asTable.2 n v).lookup _
      cases v with
      | scalar origin value => simp [assign, lookup_putField]
      | list origin items => simp [assign, lookup_putField]
      | table origin inner =>
        simp only [assign, blocks_of_lookup_eq h, hfield]
        split_ifs
        · exact h
        · simp [lookup_putField]
    | cons step steps =>
      show (putField _ (assignAt (step :: steps) (fieldAt here'.asTable.2 _) v) here'.asTable.2).lookup _ =
        (putField _ (assignAt (step :: steps) (fieldAt here.asTable.2 _) v) here.asTable.2).lookup _
      rw [lookup_putField, lookup_putField, if_pos rfl, if_pos rfl, hfield]
  · rw [lookup_assignAt_of_ne steps hn, lookup_assignAt_of_ne steps hn, h]

theorem afterEntry_eq {g : String} {steps : List Step} (hpath : pathOf key = .field g :: steps) :
    afterEntry fields key v = (assignAt (.field g :: steps) (.table none fields) v).asTable.2 := by
  rw [afterEntry, hpath]

theorem tableAt_congr (h : fields'.lookup key = fields.lookup key) :
    tableAt fields' key = tableAt fields key := by
  rw [tableAt, tableAt, fieldAt, fieldAt, h]

/-- An entry with a longer path steps into the table of its group. -/
theorem tableAt_afterEntry_path {g n : String} {steps : List Step}
    (hpath : pathOf key = .field g :: .field n :: steps) :
    tableAt (afterEntry fields key v) (Text.toLowercase g) =
      (assignAt (.field n :: steps) (fieldAt fields (Text.toLowercase g)) v).asTable.2 := by
  rw [afterEntry_eq hpath]
  simp [tableAt, fieldAt, assignAt, asTable, lookup_putField]

theorem tableAt_afterEntry_table {g : String} {origin : Option Origin} {inner : Fields}
    (hpath : pathOf key = [.field g]) :
    tableAt (afterEntry fields key (.table origin inner)) (Text.toLowercase g) =
      assignAll (tableAt fields (Text.toLowercase g)) inner := by
  rw [afterEntry_eq hpath]
  show tableAt (assign fields g (.table origin inner)) (Text.toLowercase g) = _
  simp only [assign]
  split_ifs with hempty
  · rw [Bool.and_eq_true, List.isEmpty_iff] at hempty
    rw [hempty.1, assignAll]
  · simp [tableAt, fieldAt, lookup_putField, asTable]

theorem lookup_assignAll_of_forall_ne {incoming : Fields}
    (h : ∀ n v, (n, v) ∈ incoming → Text.toLowercase n ≠ name) :
    (assignAll fields incoming).lookup name = fields.lookup name := by
  induction incoming generalizing fields with
  | nil => rfl
  | cons f incoming ih =>
    obtain ⟨n, v⟩ := f
    rw [assignAll, ih fun n' v' hmem => h n' v' (.tail _ hmem),
      lookup_assign_of_ne (h n v List.mem_cons_self)]

theorem assignAll_append (fields front back : Fields) :
    assignAll fields (front ++ back) = assignAll (assignAll fields front) back := by
  induction front generalizing fields with
  | nil => rfl
  | cons f front ih =>
    obtain ⟨n, v⟩ := f
    exact ih (assign fields n v)

/-! ## The value that an entry decides -/

theorem Gives.holds {value : Scalar} (h : Gives k value key v) (fields : Fields) :
    Holds k value (afterEntry fields key v) := by
  cases h with
  | @path g n origin hpath hg hn =>
    refine ⟨origin, ?_⟩
    show (tableAt _ k.group).lookup k.name = _
    rw [← hg, tableAt_afterEntry_path hpath]
    exact lookup_assign_scalar hn
  | @table g n origin origin' front back hpath hg hn hback =>
    refine ⟨origin', ?_⟩
    show (tableAt _ k.group).lookup k.name = _
    rw [← hg, tableAt_afterEntry_table hpath, assignAll_append, assignAll,
      lookup_assignAll_of_forall_ne hback, lookup_assign_scalar hn]

theorem Spares.held (h : Spares k key v) : k.held (afterEntry fields key v) = k.held fields := by
  show (tableAt _ k.group).lookup k.name = (tableAt _ k.group).lookup k.name
  cases h with
  | other hpath hg => rw [tableAt_congr (lookup_afterEntry_of_ne hpath hg.symm)]
  | @beside g n steps _ hpath hn =>
    by_cases hg : Text.toLowercase g = k.group
    · rw [← hg, tableAt_afterEntry_path hpath, lookup_assignAt_of_ne steps hn.symm]
      rfl
    · rw [tableAt_congr (lookup_afterEntry_of_ne hpath (Ne.symm hg))]
  | @table g origin inner hpath hinner =>
    by_cases hg : Text.toLowercase g = k.group
    · rw [← hg, tableAt_afterEntry_table hpath, lookup_assignAll_of_forall_ne hinner]
    · rw [tableAt_congr (lookup_afterEntry_of_ne hpath (Ne.symm hg))]

theorem held_overlay_of_spares (h : ∀ entry ∈ layer, Spares k entry.1 entry.2) :
    k.held (overlay fields layer) = k.held fields := by
  induction layer generalizing fields with
  | nil => rfl
  | cons f layer ih =>
    obtain ⟨key, v⟩ := f
    rw [overlay]
    exact (ih fun entry hmem => h entry (.tail _ hmem)).trans (h (key, v) List.mem_cons_self).held

theorem overlay_append (fields front back : Fields) :
    overlay fields (front ++ back) = overlay (overlay fields front) back := by
  induction front generalizing fields with
  | nil => rfl
  | cons f front ih =>
    obtain ⟨key, v⟩ := f
    exact ih (afterEntry fields key v)

/-- The last entry about a setting decides its value. -/
theorem LastGives.holds {value : Scalar} {entries : Fields} (h : LastGives k value entries) :
    Holds k value (overlay fields entries) := by
  obtain ⟨before, key, v, after, rfl, hgives, hafter⟩ := h
  obtain ⟨origin, horigin⟩ := hgives.holds (overlay fields before)
  refine ⟨origin, ?_⟩
  rw [overlay_append, overlay]
  exact (held_overlay_of_spares hafter).trans horigin

/-! ## Settings with and without an entry -/

/-- Merged layers that differ in one setting only. -/
structure Beside (k : Key) (fields fields' : Fields) : Prop where
  others : ∀ g, g ≠ k.group → fields'.lookup g = fields.lookup g
  beside : ∀ n, n ≠ k.name → (tableAt fields' k.group).lookup n = (tableAt fields k.group).lookup n

theorem beside_afterEntry {g n : String} (hpath : pathOf key = [.field g, .field n])
    (hg : Text.toLowercase g = k.group) (hn : Text.toLowercase n = k.name) :
    Beside k fields (afterEntry fields key v) where
  others g' hne := lookup_afterEntry_of_ne hpath (hg ▸ hne)
  beside n' hne := by
    rw [← hg, tableAt_afterEntry_path hpath, lookup_assignAt_of_ne [] (hn ▸ hne)]
    rfl

/-- An entry for another setting does not mix with the one that differs. -/
theorem Beside.afterEntry {origin : Option Origin} {value : Scalar} (h : Beside k fields fields')
    (hs : Spares k key (.scalar origin value)) :
    Beside k (afterEntry fields key (.scalar origin value))
      (afterEntry fields' key (.scalar origin value)) := by
  obtain ⟨g, steps, hpath, hspare⟩ : ∃ g steps, pathOf key = .field g :: steps ∧
      (Text.toLowercase g = k.group → ∃ n rest, steps = .field n :: rest) := by
    cases hs with
    | other hpath hg => exact ⟨_, _, hpath, fun h => absurd h hg⟩
    | beside hpath hn => exact ⟨_, _, hpath, fun _ => ⟨_, _, rfl⟩⟩
  refine ⟨fun g' hne => ?_, fun n' hne => ?_⟩
  · rw [afterEntry_eq hpath, afterEntry_eq hpath]
    exact lookup_assignAt_congr g steps (h.others g' hne)
  · by_cases hg : Text.toLowercase g = k.group
    · obtain ⟨n, rest, rfl⟩ := hspare hg
      rw [← hg, tableAt_afterEntry_path hpath, tableAt_afterEntry_path hpath]
      exact lookup_assignAt_congr n rest (hg ▸ h.beside n' hne)
    · rw [tableAt_congr (lookup_afterEntry_of_ne hpath (Ne.symm hg)),
        tableAt_congr (lookup_afterEntry_of_ne hpath (Ne.symm hg))]
      exact h.beside n' hne

/-- A layer of single values for other settings. -/
theorem Beside.overlay (h : Beside k fields fields')
    (hs : ∀ entry ∈ layer, Spares k entry.1 entry.2 ∧ ∃ origin value, entry.2 = .scalar origin value) :
    Beside k (overlay fields layer) (overlay fields' layer) := by
  induction layer generalizing fields fields' with
  | nil => exact h
  | cons f layer ih =>
    obtain ⟨key, v⟩ := f
    obtain ⟨hspares, origin, value, hv⟩ := hs (key, v) List.mem_cons_self
    subst hv
    exact ih (h.afterEntry hspares) fun entry hmem => hs entry (.tail _ hmem)

/-! ## Decoding -/

/-- The group of a setting as it is read. -/
def Key.groupOf (k : Key) (fields : Fields) : Except SettingsError Group :=
  Setting.group fields k.group (match k with
    | .lead | .outputDir => "OutputConfig"
    | .extension | .applyDefaults => "SchemaConfig")

/-- A setting can be read from its group. -/
def Key.Decodes (g : Group) : Key → Prop
  | .lead => ∃ s, g.decode "output" "prefix" 0 "" asText = .ok s
  | .outputDir => ∃ s, g.decode "output" "dir" 1 none asOptionalText = .ok s
  | .extension => ∃ s, g.decode "schema" "extension" 0 "json" asText = .ok s
  | .applyDefaults => ∃ b, g.decode "schema" "apply_defaults" 1 false asBoolean = .ok b

/-- Settings are loaded where their groups can be read, and each setting from its group. -/
theorem ofFields_eq_ok_iff {t : Settings} :
    Settings.ofFields fields = .ok t ↔
      ∃ output schema, Key.lead.groupOf fields = .ok output ∧
        output.decode "output" "prefix" 0 "" asText = .ok t.lead ∧
        output.decode "output" "dir" 1 none asOptionalText = .ok t.outputDir ∧
        Key.extension.groupOf fields = .ok schema ∧
        schema.decode "schema" "extension" 0 "json" asText = .ok t.extension ∧
        schema.decode "schema" "apply_defaults" 1 false asBoolean = .ok t.applyDefaults := by
  unfold Settings.ofFields
  simp only [Schema.bind_eq_ok_iff]
  constructor
  · rintro ⟨output, houtput, lead, hlead, dir, hdir, schema, hschema, extension, hextension, defaults,
      hdefaults, ht⟩
    cases ht
    exact ⟨output, schema, houtput, hlead, hdir, hschema, hextension, hdefaults⟩
  · rintro ⟨output, schema, houtput, hlead, hdir, hschema, hextension, hdefaults⟩
    exact ⟨output, houtput, _, hlead, _, hdir, schema, hschema, _, hextension, _, hdefaults, rfl⟩

theorem exists_ofFields_iff :
    (∃ t, Settings.ofFields fields = .ok t) ↔ ∀ k : Key, ∃ g, k.groupOf fields = .ok g ∧ k.Decodes g := by
  constructor
  · rintro ⟨t, ht⟩ k
    obtain ⟨output, schema, houtput, hlead, hdir, hschema, hextension, hdefaults⟩ :=
      ofFields_eq_ok_iff.mp ht
    cases k with
    | lead => exact ⟨output, houtput, _, hlead⟩
    | outputDir => exact ⟨output, houtput, _, hdir⟩
    | extension => exact ⟨schema, hschema, _, hextension⟩
    | applyDefaults => exact ⟨schema, hschema, _, hdefaults⟩
  · intro h
    obtain ⟨output, houtput, lead, hlead⟩ := h .lead
    obtain ⟨output', houtput', dir, hdir⟩ := h .outputDir
    obtain ⟨schema, hschema, extension, hextension⟩ := h .extension
    obtain ⟨schema', hschema', defaults, hdefaults⟩ := h .applyDefaults
    cases houtput.symm.trans houtput'
    cases hschema.symm.trans hschema'
    exact ⟨⟨lead, dir, extension, defaults⟩, ofFields_eq_ok_iff.mpr
      ⟨output, schema, houtput, hlead, hdir, hschema, hextension, hdefaults⟩⟩

/-- The text of a setting that is one. -/
def Key.textIn (t : Settings) : Key → Option String
  | .lead => some t.lead
  | .outputDir => t.outputDir
  | .extension => some t.extension
  | .applyDefaults => none

theorem Holds.groupOf {value : Scalar} (h : Holds k value fields) :
    k.groupOf fields = .ok (.table (tableAt fields k.group)) := by
  obtain ⟨origin, hheld⟩ := h
  refine group_of_not_blocks ?_
  unfold Key.held fieldAt at hheld
  unfold blocks
  cases hlookup : fields.lookup k.group with
  | none => rfl
  | some v =>
    rw [hlookup] at hheld
    cases v with
    | table origin' inner => rfl
    | scalar origin' value' => cases hheld
    | list origin' items => cases hheld

section Text

variable {value : Scalar} {text : String} {t : Settings}

theorem decode_asText {g name missing : String} {i : ℕ} {origin : Option Origin} {inner : Fields}
    (h : inner.lookup name = some (.scalar origin value)) (htext : value.asText? = some text) :
    (Group.table inner).decode g name i missing asText = .ok text := by
  simp only [Group.decode, h]
  exact asText_of_text? htext

theorem decode_asOptionalText {g name : String} {i : ℕ} {origin : Option Origin} {inner : Fields}
    (h : inner.lookup name = some (.scalar origin value)) (htext : value.asText? = some text) :
    (Group.table inner).decode g name i none asOptionalText = .ok (some text) := by
  have htext' : (Setting.scalar origin value).text? = some text := htext
  simp only [Group.decode, h]
  rw [asOptionalText_of_admits (.inl (by rw [htext']; rfl)), htext']

/-- A setting that needs a text has the text of its value. -/
theorem Holds.textIn (h : Holds k value fields) (hk : k ≠ .applyDefaults)
    (htext : value.asText? = some text) (ht : Settings.ofFields fields = .ok t) :
    k.textIn t = some text := by
  have hgroup := h.groupOf
  obtain ⟨origin, hheld⟩ := h
  obtain ⟨output, schema, houtput, hlead, hdir, hschema, hextension, -⟩ := ofFields_eq_ok_iff.mp ht
  cases k with
  | lead =>
    cases houtput.symm.trans hgroup
    exact congrArg some (Except.ok.inj (hlead.symm.trans (decode_asText hheld htext)))
  | outputDir =>
    cases houtput.symm.trans hgroup
    exact Except.ok.inj (hdir.symm.trans (decode_asOptionalText hheld htext))
  | extension =>
    cases hschema.symm.trans hgroup
    exact congrArg some (Except.ok.inj (hextension.symm.trans (decode_asText hheld htext)))
  | applyDefaults => exact absurd rfl hk

theorem Holds.decodes (h : Holds k value fields) (hk : k ≠ .applyDefaults)
    (htext : value.asText? = some text) : k.Decodes (.table (tableAt fields k.group)) := by
  obtain ⟨origin, hheld⟩ := h
  cases k with
  | lead => exact ⟨_, decode_asText hheld htext⟩
  | outputDir => exact ⟨_, decode_asOptionalText hheld htext⟩
  | extension => exact ⟨_, decode_asText hheld htext⟩
  | applyDefaults => exact absurd rfl hk

theorem exists_decode {α : Type} {g : Group} {a missing : α} {groupName groupKey : String} {i : ℕ}
    {inner : Fields} {read : String → Setting → Except SettingsError α}
    (hgroup : Setting.group fields key groupName = .ok g)
    (hok : g.decode groupKey name i missing read = .ok a)
    (hlookup : inner.lookup name = (tableAt fields key).lookup name) :
    ∃ b, (Group.table inner).decode groupKey name i missing read = .ok b := by
  cases hv : inner.lookup name with
  | none => exact ⟨missing, by simp only [Group.decode, hv]⟩
  | some v =>
    -- A table that has the name is the group itself.
    rw [hv] at hlookup
    have hg : g = .table (tableAt fields key) := by
      unfold Setting.group at hgroup
      unfold tableAt fieldAt at hlookup ⊢
      cases hfield : fields.lookup key with
      | none =>
        rw [hfield] at hlookup
        cases hlookup
      | some w =>
        rw [hfield] at hlookup hgroup
        cases w with
        | table origin inner' =>
          cases hgroup
          rfl
        | scalar origin value => cases hlookup
        | list origin items => cases hlookup
    subst hg
    simp only [Group.decode, ← hlookup] at hok
    exact ⟨a, by simpa only [Group.decode, hv] using hok⟩

/-- What another setting needs is there with the one that differs as it is without. -/
theorem Beside.decodes (h : Beside k fields fields') {g : Group} {k' : Key}
    (hgroup : k'.groupOf fields = .ok g) (hd : k'.Decodes g) (hk : k'.group = k.group) (hne : k' ≠ k) :
    k'.Decodes (.table (tableAt fields' k.group)) := by
  have hname : k'.name ≠ k.name := fun heq => hne (Key.name_injective heq)
  have hlookup : (tableAt fields' k.group).lookup k'.name = (tableAt fields k'.group).lookup k'.name := by
    rw [hk, h.beside _ hname]
  cases k' with
  | lead => exact exists_decode hgroup hd.choose_spec hlookup
  | outputDir => exact exists_decode hgroup hd.choose_spec hlookup
  | extension => exact exists_decode hgroup hd.choose_spec hlookup
  | applyDefaults => exact exists_decode hgroup hd.choose_spec hlookup

/-- Settings that can be loaded can be loaded with a text for one more setting. -/
theorem Beside.exists_ofFields (h : Beside k fields fields') (hheld : Holds k value fields')
    (hk : k ≠ .applyDefaults) (htext : value.asText? = some text) (ht : Settings.ofFields fields = .ok t) :
    ∃ t', Settings.ofFields fields' = .ok t' := by
  have hall := exists_ofFields_iff.mp ⟨t, ht⟩
  refine exists_ofFields_iff.mpr fun k' => ?_
  obtain ⟨g, hgroup, hdecodes⟩ := hall k'
  by_cases hgroups : k'.group = k.group
  · have hgroup' : k'.groupOf fields' = .ok (.table (tableAt fields' k.group)) := by
      rw [← hheld.groupOf]
      cases k <;> cases k' <;> first | rfl | exact absurd hgroups (by decide)
    by_cases hne : k' = k
    · subst hne
      exact ⟨_, hgroup', hheld.decodes hk htext⟩
    · exact ⟨_, hgroup', h.decodes hgroup hdecodes hgroups hne⟩
  · refine ⟨g, ?_, hdecodes⟩
    rw [← hgroup]
    unfold Key.groupOf Setting.group
    rw [h.others _ hgroups]

end Text

end InterfaceTables.Setting
