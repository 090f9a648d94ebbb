import InterfaceTables.Command.Generate
import InterfaceTables.Proofs.SameContents
import InterfaceTables.Proofs.WrittenToml

/-!
Layers of settings. Each setting has a value of its own in the merged layers: the last one that a layer
gives it, whatever the layers say about other settings.
-/

namespace InterfaceTables

namespace Setting

/-! ## Settings and their values -/

/-- The settings that layers can give values to. -/
inductive Key where
  | lead
  | outputDir
  | extension
  | applyDefaults
deriving DecidableEq

namespace Key

/-- The table that a setting stands in. -/
def group : Key → String
  | .lead => "output"
  | .outputDir => "output"
  | .extension => "schema"
  | .applyDefaults => "schema"

def name : Key → String
  | .lead => "prefix"
  | .outputDir => "dir"
  | .extension => "extension"
  | .applyDefaults => "apply_defaults"

end Key

/-- A value as a text. -/
def text? : Setting → Option String
  | .scalar _ value => value.asText?
  | _ => none

/-- A value as a truth value. -/
def truth? : Setting → Option Bool
  | .scalar _ (.boolean b) => some b
  | .scalar _ (.integer i) => some (i ≠ 0)
  | .scalar _ (.double x) => some !x.isZero
  | .scalar _ (.text s) => wordTruth? (Text.toLowercase s)
  | _ => none

def isNull : Setting → Bool
  | .scalar _ .null => true
  | _ => false

/-- Whether a value is of the type of a setting. Only the output directory may be nothing. -/
def Key.Admits (v : Setting) : Key → Prop
  | .lead => v.text?.isSome
  | .outputDir => v.text?.isSome ∨ v.isNull
  | .extension => v.text?.isSome
  | .applyDefaults => v.truth?.isSome

variable {fields inner incoming layer : Fields} {key name : String} {v value : Setting} {k : Key}

theorem Key.Admits.exists_scalar (h : k.Admits v) : ∃ origin value, v = .scalar origin value := by
  cases v with
  | scalar origin value => exact ⟨origin, value, rfl⟩
  | list origin items => cases k <;> simp [Key.Admits, text?, truth?, isNull] at h
  | table origin inner => cases k <;> simp [Key.Admits, text?, truth?, isNull] at h

/-! ## What a layer gives -/

/-- The last value that the fields of a table give to a name. -/
def lastGiven (name : String) : Fields → Option Setting
  | [] => none
  | (key, v) :: rest =>
    (lastGiven name rest).or (if Text.toLowercase key = name then some v else none)

/-- What one entry of a layer gives to a setting: in the table of its group, or by its path. -/
def Key.givenAt (k : Key) (key : String) (value : Setting) : Option Setting :=
  match pathOf key, value with
  | [.field g], .table _ inner => if Text.toLowercase g = k.group then lastGiven k.name inner else none
  | [.field g, .field n], v =>
    if Text.toLowercase g = k.group ∧ Text.toLowercase n = k.name then some v else none
  | _, _ => none

/-- The last value that a layer gives to a setting. -/
def Key.given (k : Key) : (layer : Fields) → Option Setting
  | [] => none
  | (key, value) :: rest => (k.given rest).or (k.givenAt key value)

/-- An entry that sets settings inside their tables, to values of their types. Other keys may be there
and may have any values. -/
inductive Plain : String → Setting → Prop where
  | table {key g : String} {origin : Option Origin} {inner : Fields} (hpath : pathOf key = [.field g])
      (h : ∀ n v, (n, v) ∈ inner → ∀ k : Key, Text.toLowercase g = k.group →
        Text.toLowercase n = k.name → k.Admits v) : Plain key (.table origin inner)
  | path {key g n : String} {v : Setting} (hpath : pathOf key = [.field g, .field n])
      (h : ∀ k : Key, Text.toLowercase g = k.group → Text.toLowercase n = k.name → k.Admits v) :
      Plain key v
  | other {key g : String} {steps : List Step} {v : Setting} (hpath : pathOf key = .field g :: steps)
      (h : ∀ k : Key, Text.toLowercase g ≠ k.group) : Plain key v

/-! ## Merging one entry -/

theorem lookup_putField :
    (putField key v fields).lookup name = if name = key then some v else fields.lookup name := by
  induction fields with
  | nil =>
    by_cases h : name = key
    · simp [putField, h]
    · simp [putField, h]
  | cons f fields ih =>
    obtain ⟨l, w⟩ := f
    by_cases hl : l = key
    · subst hl
      by_cases h : name = l
      · simp [putField, h]
      · simp [putField, List.lookup_cons, h, beq_eq_false_iff_ne.mpr h]
    · by_cases h : name = l
      · subst h
        simp [putField, hl]
      · simp [putField, List.lookup_cons, hl, beq_eq_false_iff_ne.mpr h, ih]

theorem assign_table {origin : Option Origin}
    (h : incoming ≠ [] ∨ blocks fields (Text.toLowercase key) = false) :
    assign fields key (.table origin incoming) =
      putField (Text.toLowercase key) (.table (fieldAt fields (Text.toLowercase key)).asTable.1
        (assignAll (fieldAt fields (Text.toLowercase key)).asTable.2 incoming)) fields := by
  have hno : (incoming.isEmpty && blocks fields (Text.toLowercase key)) = false := by
    cases h with
    | inl h => simp [h]
    | inr h => simp [h]
  simp [assign, hno]

theorem lookup_assign_of_ne (h : Text.toLowercase key ≠ name) :
    (assign fields key v).lookup name = fields.lookup name := by
  cases v with
  | scalar origin value => simp [assign, lookup_putField, h.symm]
  | list origin items => simp [assign, lookup_putField, h.symm]
  | table origin inner =>
    simp only [assign]
    split_ifs
    · rfl
    · simp [lookup_putField, h.symm]

theorem lookup_assign_scalar {origin : Option Origin} {value : Scalar}
    (h : Text.toLowercase key = name) :
    (assign fields key (.scalar origin value)).lookup name = some (.scalar origin value) := by
  simp [assign, lookup_putField, h]

/-- A name has the last value that is given to it, or the one that it had. -/
theorem lookup_assignAll
    (h : ∀ key v, (key, v) ∈ incoming → Text.toLowercase key = name →
      ∃ origin value, v = .scalar origin value) :
    (assignAll fields incoming).lookup name = (lastGiven name incoming).or (fields.lookup name) := by
  induction incoming generalizing fields with
  | nil => simp [assignAll, lastGiven]
  | cons f incoming ih =>
    obtain ⟨key, v⟩ := f
    rw [assignAll, ih fun key' v' hmem => h key' v' (.tail _ hmem), lastGiven, Option.or_assoc]
    by_cases hkey : Text.toLowercase key = name
    · obtain ⟨origin, value, rfl⟩ := h key v List.mem_cons_self hkey
      rw [lookup_assign_scalar hkey, if_pos hkey, Option.some_or]
    · rw [lookup_assign_of_ne hkey, if_neg hkey, Option.none_or]

/-! ## Merging layers -/

/-- What merged layers hold for a setting. -/
def Key.held (k : Key) (fields : Fields) : Option Setting :=
  (fieldAt fields k.group).asTable.2.lookup k.name

theorem Key.held_of_lookup {origin : Option Origin}
    (h : fields.lookup k.group = some (.table origin inner)) : k.held fields = inner.lookup k.name := by
  simp [Key.held, fieldAt, h, asTable]

theorem Key.held_congr {fields' : Fields} (h : fields'.lookup k.group = fields.lookup k.group) :
    k.held fields' = k.held fields := by
  simp [Key.held, fieldAt, h]

/-- Merged layers in which the groups are tables, and in which settings hold the given values. -/
structure Resolved (fields : Fields) (value : Key → Option Setting) : Prop where
  grouped : ∀ k : Key, blocks fields k.group = false
  held : ∀ k : Key, k.held fields = value k
  admits : ∀ k v, value k = some v → k.Admits v

theorem blocks_of_lookup_eq {fields' : Fields} (h : fields'.lookup key = fields.lookup key) :
    blocks fields' key = blocks fields key := by
  simp [blocks, h]

theorem lastGiven_mem (h : lastGiven name incoming = some v) :
    ∃ key, (key, v) ∈ incoming ∧ Text.toLowercase key = name := by
  induction incoming with
  | nil => cases h
  | cons f incoming ih =>
    obtain ⟨key, w⟩ := f
    rw [lastGiven, Option.or_eq_some_iff] at h
    obtain hrest | ⟨_, hkey⟩ := h
    · obtain ⟨key', hmem, hkey'⟩ := ih hrest
      exact ⟨key', .tail _ hmem, hkey'⟩
    · by_cases hk : Text.toLowercase key = name
      · rw [if_pos hk] at hkey
        cases hkey
        exact ⟨key, List.mem_cons_self, hk⟩
      · rw [if_neg hk] at hkey
        cases hkey

theorem Key.givenAt_table {g : String} {origin : Option Origin} (hpath : pathOf key = [.field g]) :
    k.givenAt key (.table origin inner) =
      if Text.toLowercase g = k.group then lastGiven k.name inner else none := by
  simp [Key.givenAt, hpath]

theorem Key.givenAt_path {g n : String} (hpath : pathOf key = [.field g, .field n]) :
    k.givenAt key v =
      if Text.toLowercase g = k.group ∧ Text.toLowercase n = k.name then some v else none := by
  simp [Key.givenAt, hpath]

theorem Key.givenAt_other {g : String} {steps : List Step} (hpath : pathOf key = .field g :: steps)
    (h : Text.toLowercase g ≠ k.group) : k.givenAt key v = none := by
  unfold Key.givenAt
  rw [hpath]
  split
  · rename_i he
    cases he
    rw [if_neg h]
  · rename_i he
    cases he
    rw [if_neg fun hg => h hg.1]
  · rfl

/-- The values of settings that an entry gives are of their types. -/
theorem Plain.admits (h : Plain key value) (hv : k.givenAt key value = some v) : k.Admits v := by
  cases h with
  | table hpath h =>
    rw [Key.givenAt_table hpath, Option.ite_none_right_eq_some] at hv
    obtain ⟨n, hmem, hn⟩ := lastGiven_mem hv.2
    exact h n v hmem k hv.1 hn
  | path hpath h =>
    rw [Key.givenAt_path hpath, Option.ite_none_right_eq_some] at hv
    cases hv.2
    exact h k hv.1.1 hv.1.2
  | other hpath h =>
    rw [Key.givenAt_other hpath (h k)] at hv
    cases hv

/-- The fields after one entry of a layer. -/
def afterEntry (fields : Fields) (key : String) (value : Setting) : Fields :=
  (assignAt (pathOf key) (.table none fields) value).asTable.2

theorem lookup_afterEntry_of_ne {g : String} {steps : List Step}
    (hpath : pathOf key = .field g :: steps) (h : name ≠ Text.toLowercase g) :
    (afterEntry fields key value).lookup name = fields.lookup name := by
  unfold afterEntry
  rw [hpath]
  cases steps with
  | nil => exact lookup_assign_of_ne h.symm
  | cons step steps => simp [assignAt, asTable, lookup_putField, h]

theorem lookup_afterEntry_table {g : String} {origin : Option Origin}
    (hpath : pathOf key = [.field g]) (hname : Text.toLowercase g = name)
    (hput : inner ≠ [] ∨ blocks fields name = false) :
    (afterEntry fields key (.table origin inner)).lookup name =
      some (.table (fieldAt fields name).asTable.1 (assignAll (fieldAt fields name).asTable.2 inner)) := by
  subst hname
  unfold afterEntry
  rw [hpath]
  simp [assignAt, asTable, assign_table hput, lookup_putField]

theorem lookup_afterEntry_path {g n : String} (hpath : pathOf key = [.field g, .field n])
    (hname : Text.toLowercase g = name) :
    (afterEntry fields key v).lookup name =
      some (.table (fieldAt fields name).asTable.1 (assign (fieldAt fields name).asTable.2 n v)) := by
  subst hname
  unfold afterEntry
  rw [hpath]
  simp [assignAt, asTable, lookup_putField]

theorem held_afterEntry_table {g : String} {origin : Option Origin} (hpath : pathOf key = [.field g])
    (hput : inner ≠ [] ∨ blocks fields k.group = false)
    (h : ∀ n v, (n, v) ∈ inner → Text.toLowercase g = k.group → Text.toLowercase n = k.name →
      k.Admits v) :
    k.held (afterEntry fields key (.table origin inner)) =
      (k.givenAt key (.table origin inner)).or (k.held fields) := by
  rw [Key.givenAt_table hpath]
  by_cases hk : Text.toLowercase g = k.group
  · rw [Key.held_of_lookup (lookup_afterEntry_table hpath hk hput), if_pos hk,
      lookup_assignAll fun n v hmem hn => (h n v hmem hk hn).exists_scalar]
    rfl
  · rw [if_neg hk, Option.none_or]
    exact Key.held_congr (lookup_afterEntry_of_ne hpath (Ne.symm hk))

theorem blocks_afterEntry_table {g : String} {origin : Option Origin} (hpath : pathOf key = [.field g])
    (hput : inner ≠ [] ∨ blocks fields k.group = false)
    (h : Text.toLowercase g = k.group ∨ blocks fields k.group = false) :
    blocks (afterEntry fields key (.table origin inner)) k.group = false := by
  by_cases hk : Text.toLowercase g = k.group
  · simp [blocks, lookup_afterEntry_table hpath hk hput]
  · rw [blocks_of_lookup_eq (lookup_afterEntry_of_ne hpath (Ne.symm hk)), h.resolve_left hk]

/-- A setting holds what an entry gives it, or what it held if the entry gives it nothing. -/
theorem Plain.held (h : Plain key value) (hg : blocks fields k.group = false) :
    k.held (afterEntry fields key value) = (k.givenAt key value).or (k.held fields) := by
  cases h with
  | table hpath h =>
    exact held_afterEntry_table hpath (Or.inr hg) fun n v hmem => h n v hmem k
  | @path g n v hpath h =>
    rw [Key.givenAt_path hpath]
    by_cases hk : Text.toLowercase g = k.group
    · rw [Key.held_of_lookup (lookup_afterEntry_path hpath hk)]
      by_cases hn : Text.toLowercase n = k.name
      · obtain ⟨origin, value, rfl⟩ := (h k hk hn).exists_scalar
        rw [if_pos ⟨hk, hn⟩, lookup_assign_scalar hn, Option.some_or]
      · rw [if_neg fun hboth => hn hboth.2, lookup_assign_of_ne hn, Option.none_or]
        rfl
    · rw [if_neg fun hboth => hk hboth.1, Option.none_or]
      exact Key.held_congr (lookup_afterEntry_of_ne hpath (Ne.symm hk))
  | other hpath h =>
    rw [Key.givenAt_other hpath (h k), Option.none_or]
    exact Key.held_congr (lookup_afterEntry_of_ne hpath (h k).symm)

/-- The groups stay tables. -/
theorem Plain.blocks (h : Plain key value) (hg : Setting.blocks fields k.group = false) :
    Setting.blocks (afterEntry fields key value) k.group = false := by
  cases h with
  | table hpath h => exact blocks_afterEntry_table hpath (Or.inr hg) (Or.inr hg)
  | @path g n v hpath h =>
    by_cases hk : Text.toLowercase g = k.group
    · simp [Setting.blocks, lookup_afterEntry_path hpath hk]
    · rw [blocks_of_lookup_eq (lookup_afterEntry_of_ne hpath (Ne.symm hk)), hg]
  | other hpath h => rw [blocks_of_lookup_eq (lookup_afterEntry_of_ne hpath (h k).symm), hg]

/-- A layer of entries that set settings inside their tables. -/
def PlainLayer (layer : Fields) : Prop := ∀ key value, (key, value) ∈ layer → Plain key value

theorem Resolved.afterEntry {values : Key → Option Setting} (h : Resolved fields values)
    (hp : Plain key value) :
    Resolved (afterEntry fields key value) fun k => (k.givenAt key value).or (values k) where
  grouped k := hp.blocks (h.grouped k)
  held k := by rw [hp.held (h.grouped k), h.held]
  admits k v hv := by
    rw [Option.or_eq_some_iff] at hv
    obtain hgiven | ⟨_, hheld⟩ := hv
    · exact hp.admits hgiven
    · exact h.admits k v hheld

theorem Resolved.overlay {values : Key → Option Setting} (h : Resolved fields values)
    (hp : PlainLayer layer) :
    Resolved (overlay fields layer) fun k => (k.given layer).or (values k) := by
  induction layer generalizing fields values with
  | nil => simpa [Setting.overlay, Key.given] using h
  | cons f layer ih =>
    obtain ⟨key, value⟩ := f
    have hentry := h.afterEntry (hp key value List.mem_cons_self)
    have hrest := ih hentry fun key' value' hmem => hp key' value' (.tail _ hmem)
    simpa only [Setting.overlay, Setting.afterEntry, Key.given, Option.or_assoc] using hrest

/-- The value of a setting is the one that the last layer gives that gives it one. -/
def Key.inEffect (k : Key) (layers : List Fields) : Option Setting :=
  (layers.filterMap k.given).getLast?

theorem Resolved.layers {values : Key → Option Setting} {layers : List Fields}
    (h : Resolved fields values) (hp : ∀ layer ∈ layers, PlainLayer layer) :
    Resolved (layers.foldl Setting.overlay fields) fun k => (k.inEffect layers).or (values k) := by
  induction layers generalizing fields values with
  | nil => simpa [Key.inEffect] using h
  | cons layer layers ih =>
    have hlayer := h.overlay (hp layer List.mem_cons_self)
    have hrest := ih hlayer fun layer' hmem => hp layer' (.tail _ hmem)
    have hlast : ∀ k : Key, (k.inEffect (layer :: layers)).or (values k) =
        (k.inEffect layers).or ((k.given layer).or (values k)) := by
      intro k
      unfold Key.inEffect
      cases hk : k.given layer with
      | none => simp [hk]
      | some v =>
        rw [List.filterMap_cons_some hk, List.getLast?_cons]
        cases (layers.filterMap k.given).getLast? <;> rfl
    simpa only [List.foldl_cons, hlast] using hrest

theorem resolved_nil : Resolved [] fun _ => none where
  grouped _ := rfl
  held k := by cases k <;> rfl
  admits _ _ h := by cases h

/-! ## Decoding -/

theorem asText_of_text? {s : String} (h : v.text? = some s) : asText key v = .ok s := by
  cases v with
  | scalar origin value => simp [asText, show value.asText? = some s from h]
  | list origin items => cases h
  | table origin inner => cases h

theorem asOptionalText_of_admits (h : Key.outputDir.Admits v) : asOptionalText key v = .ok v.text? := by
  obtain ⟨origin, value, rfl⟩ := h.exists_scalar
  cases value with
  | null => rfl
  | boolean b => rfl
  | integer i => rfl
  | double x => rfl
  | text s => rfl

theorem asBoolean_of_truth? {b : Bool} (h : v.truth? = some b) : asBoolean key v = .ok b := by
  cases v with
  | scalar origin value =>
    cases value with
    | null => cases h
    | boolean b' =>
      cases h
      rfl
    | integer i =>
      cases h
      rfl
    | double x =>
      cases h
      rfl
    | text s =>
      have hword : wordTruth? (Text.toLowercase s) = some b := h
      simp [asBoolean, hword]
  | list origin items => cases h
  | table origin inner => cases h

theorem group_of_not_blocks (h : blocks fields key = false) :
    group fields key name = .ok (.table (fieldAt fields key).asTable.2) := by
  unfold group fieldAt
  cases hlookup : fields.lookup key with
  | none => rfl
  | some v =>
    cases v with
    | table origin inner => rfl
    | scalar origin value => simp [blocks, hlookup] at h
    | list origin items => simp [blocks, hlookup] at h

/-- The settings that values make, with defaults for those that have none. -/
def settingsOf (values : Key → Option Setting) : Settings where
  lead := ((values .lead).bind text?).getD ""
  outputDir := (values .outputDir).bind text?
  extension := ((values .extension).bind text?).getD "json"
  applyDefaults := ((values .applyDefaults).bind truth?).getD false

/-- The table of a setting in merged layers. -/
def Key.groupIn (k : Key) (fields : Fields) : Group := .table (fieldAt fields k.group).asTable.2

variable {values : Key → Option Setting}

/-- A setting is decoded, or a default stands in for it. -/
theorem Resolved.decode {α : Type} {missing : α} {read : String → Setting → Except SettingsError α}
    {i : Nat} (h : Resolved fields values) (decoded : Setting → Option α)
    (hread : ∀ key v, k.Admits v → read key v = .ok ((decoded v).getD missing)) :
    (k.groupIn fields).decode k.group k.name i missing read =
      .ok (((values k).bind decoded).getD missing) := by
  have hheld : (fieldAt fields k.group).asTable.2.lookup k.name = values k := h.held k
  cases hv : values k with
  | none => simp [Group.decode, Key.groupIn, hheld, hv]
  | some v => simp [Group.decode, Key.groupIn, hheld, hv, hread _ v (h.admits k v hv)]

theorem Resolved.ofFields (h : Resolved fields values) :
    Settings.ofFields fields = .ok (settingsOf values) := by
  have hlead : (Key.lead.groupIn fields).decode "output" "prefix" 0 "" asText =
      .ok (settingsOf values).lead := h.decode text? fun key v hv => by
    obtain ⟨s, hs⟩ := Option.isSome_iff_exists.mp hv
    rw [asText_of_text? hs, hs, Option.getD_some]
  have hdir : (Key.outputDir.groupIn fields).decode "output" "dir" 1 none asOptionalText =
      .ok (settingsOf values).outputDir := by
    refine (h.decode (k := .outputDir) (fun v => some v.text?) fun key v hv =>
      asOptionalText_of_admits hv).trans ?_
    unfold settingsOf
    cases values .outputDir <;> rfl
  have hextension : (Key.extension.groupIn fields).decode "schema" "extension" 0 "json" asText =
      .ok (settingsOf values).extension := h.decode text? fun key v hv => by
    obtain ⟨s, hs⟩ := Option.isSome_iff_exists.mp hv
    rw [asText_of_text? hs, hs, Option.getD_some]
  have hdefaults : (Key.applyDefaults.groupIn fields).decode "schema" "apply_defaults" 1 false
      asBoolean = .ok (settingsOf values).applyDefaults := h.decode truth? fun key v hv => by
    obtain ⟨b, hb⟩ := Option.isSome_iff_exists.mp hv
    rw [asBoolean_of_truth? hb, hb, Option.getD_some]
  have houtput : group fields "output" "OutputConfig" = .ok (Key.lead.groupIn fields) :=
    group_of_not_blocks (h.grouped .lead)
  have hschema : group fields "schema" "SchemaConfig" = .ok (Key.extension.groupIn fields) :=
    group_of_not_blocks (h.grouped .extension)
  unfold Settings.ofFields
  rw [houtput, hschema]
  show (do
    let lead ← (Key.lead.groupIn fields).decode "output" "prefix" 0 "" asText
    let outputDir ← (Key.outputDir.groupIn fields).decode "output" "dir" 1 none asOptionalText
    let extension ← (Key.extension.groupIn fields).decode "schema" "extension" 0 "json" asText
    let applyDefaults ← (Key.applyDefaults.groupIn fields).decode "schema" "apply_defaults" 1 false
      asBoolean
    return { lead, outputDir, extension, applyDefaults }) = Except.ok (settingsOf values)
  rw [hlead, hdir, hextension, hdefaults]
  rfl

/-! ## Layers of files -/

theorem Key.toLowercase_name (k : Key) : Text.toLowercase k.name = k.name := by
  cases k <;> decide

theorem Key.toLowercase_group (k : Key) : Text.toLowercase k.group = k.group := by
  cases k <;> decide

theorem Key.pathOf_group (k : Key) : pathOf k.group = [.field k.group] := by
  cases k <;> decide

theorem Key.name_injective : Function.Injective Key.name := by
  intro k k' h
  cases k <;> cases k' <;> first | rfl | exact absurd h (by decide)

theorem admits_of_name (h : ∃ k' : Key, name = k'.name ∧ k'.Admits v)
    (hname : Text.toLowercase name = k.name) : k.Admits v := by
  obtain ⟨k', rfl, hv⟩ := h
  rw [k'.toLowercase_name] at hname
  cases Key.name_injective hname
  exact hv

end Setting

namespace Settings

open Setting

theorem overlayFiles_cons (ws : Workspace) (fields : Fields) (path : Path) (required : Bool)
    (files : List (Path × Bool)) :
    overlayFiles ws fields ((path, required) :: files) =
      match ws.fileLayer required path with
      | .error e => .error e
      | .ok layer => overlayFiles ws (Setting.overlay fields layer) files := by
  cases files with
  | nil => rfl
  | cons next files => rfl

/-- Files that all give layers are laid over each other in their order. -/
theorem overlayFiles_eq_foldl {ws : Workspace} {fields : Fields} {files : List (Path × Bool)}
    {layers : List Fields}
    (h : List.Forall₂ (fun file layer => ws.fileLayer file.2 file.1 = .ok layer) files layers) :
    overlayFiles ws fields files = .ok (layers.foldl Setting.overlay fields) := by
  induction h generalizing fields with
  | nil => rfl
  | @cons file layer files layers hlayer _ ih =>
    obtain ⟨path, required⟩ := file
    rw [overlayFiles_cons, show ws.fileLayer required path = .ok layer from hlayer]
    exact ih

/-- Files that are laid over each other all give layers. -/
theorem exists_layers_of_overlayFiles {ws : Workspace} {fields merged : Fields}
    {files : List (Path × Bool)} (h : overlayFiles ws fields files = .ok merged) :
    ∃ layers, List.Forall₂ (fun file layer => ws.fileLayer file.2 file.1 = .ok layer) files layers := by
  induction files generalizing fields with
  | nil => exact ⟨[], .nil⟩
  | cons file files ih =>
    obtain ⟨path, required⟩ := file
    rw [overlayFiles_cons] at h
    cases hlayer : ws.fileLayer required path with
    | error e =>
      rw [hlayer] at h
      cases h
    | ok layer =>
      rw [hlayer] at h
      obtain ⟨layers, hlayers⟩ := ih h
      exact ⟨layer :: layers, .cons hlayer hlayers⟩

theorem overlayFiles_append {ws : Workspace} {fields merged : Fields} {files : List (Path × Bool)}
    (h : overlayFiles ws fields files = .ok merged) (more : List (Path × Bool)) :
    overlayFiles ws fields (files ++ more) = overlayFiles ws merged more := by
  induction files generalizing fields with
  | nil =>
    cases h
    rfl
  | cons file files ih =>
    obtain ⟨path, required⟩ := file
    rw [overlayFiles_cons] at h
    rw [List.cons_append, overlayFiles_cons]
    cases hlayer : ws.fileLayer required path with
    | error e =>
      rw [hlayer] at h
      cases h
    | ok layer =>
      rw [hlayer] at h
      exact ih h

theorem effective_eq_ofFields {ws : Workspace} {env : Environment} {explicit : Option Path}
    {fields : Fields} (h : overlayFiles ws [] (files ws env explicit) = .ok fields) :
    effective ws env explicit = ofFields (Setting.overlay fields env.layer) := by
  unfold effective
  rw [h]

/-- Each setting has the value of the last layer that gives it one. -/
theorem effective_of_layers {ws : Workspace} {env : Environment} {explicit : Option Path}
    {layers : List Fields}
    (hfiles : List.Forall₂ (fun file layer => ws.fileLayer file.2 file.1 = .ok layer)
      (files ws env explicit) layers)
    (hplain : ∀ layer ∈ layers ++ [env.layer], PlainLayer layer) :
    effective ws env explicit = .ok (settingsOf fun k => k.inEffect (layers ++ [env.layer])) := by
  have hresolved := (resolved_nil.layers hplain).ofFields
  rw [List.foldl_append] at hresolved
  simp only [Option.or_none] at hresolved
  exact (effective_eq_ofFields (overlayFiles_eq_foldl hfiles)).trans hresolved

/-- The layer that saved settings give. -/
def savedLayer (s : Settings) (origin : Origin) : Setting.Fields := ofTomlFields origin s.document

theorem parse_toToml (s : Settings) (file : Path) :
    Format.toml.parse file s.toToml = .ok (s.savedLayer file) := by
  simp [Format.parse, parse?_toToml, savedLayer]

/-- The value that saved settings give to one of them. -/
def savedValue (s : Settings) (origin : Origin) : Key → Option Setting
  | .lead => some (.scalar (some origin) (.text s.lead))
  | .outputDir => s.outputDir.map fun dir => .scalar (some origin) (.text dir)
  | .extension => some (.scalar (some origin) (.text s.extension))
  | .applyDefaults => some (.scalar (some origin) (.boolean s.applyDefaults))

theorem given_savedLayer (s : Settings) (origin : Origin) (k : Key) :
    k.given (s.savedLayer origin) = s.savedValue origin k := by
  unfold savedLayer document outputTable schemaTable savedValue
  cases s.outputDir <;> cases k <;> rfl

theorem names_outputTable {s : Settings} {origin : Origin} {n : String} {v : Setting}
    (h : (n, v) ∈ ofTomlFields origin s.outputTable) : ∃ k : Key, n = k.name ∧ k.Admits v := by
  unfold outputTable at h
  cases hdir : s.outputDir with
  | none =>
    rw [hdir] at h
    cases h with
    | head => exact ⟨.lead, rfl, rfl⟩
    | tail _ h => cases h
  | some dir =>
    rw [hdir] at h
    cases h with
    | head => exact ⟨.lead, rfl, rfl⟩
    | tail _ h =>
      cases h with
      | head => exact ⟨.outputDir, rfl, Or.inl rfl⟩
      | tail _ h => cases h

theorem names_schemaTable {s : Settings} {origin : Origin} {n : String} {v : Setting}
    (h : (n, v) ∈ ofTomlFields origin s.schemaTable) : ∃ k : Key, n = k.name ∧ k.Admits v := by
  cases h with
  | head => exact ⟨.extension, rfl, rfl⟩
  | tail _ h =>
    cases h with
    | head => exact ⟨.applyDefaults, rfl, rfl⟩
    | tail _ h => cases h

theorem plainLayer_savedLayer (s : Settings) (origin : Origin) : PlainLayer (s.savedLayer origin) := by
  intro key value hmem
  cases hmem with
  | head =>
    exact .table Key.lead.pathOf_group fun _ _ hmem _ _ => admits_of_name (names_outputTable hmem)
  | tail _ hmem =>
    cases hmem with
    | head =>
      exact .table Key.extension.pathOf_group fun _ _ hmem _ _ => admits_of_name (names_schemaTable hmem)
    | tail _ hmem => cases hmem

end Settings

open Setting

theorem Setting.Format.ofName?_eq_some_iff {leaf : String} {format : Format} :
    Format.ofName? leaf = some format ↔ Path.extension? leaf = some format.extension := by
  unfold Format.ofName? Format.all
  cases Path.extension? leaf with
  | none => simp
  | some extension =>
    by_cases htoml : extension = "toml"
    · subst htoml
      cases format <;> simp [Format.extension]
    · by_cases hjson : extension = "json"
      · subst hjson
        cases format <;> simp [Format.extension]
      · cases format <;> simp [Format.extension, htoml, hjson]

namespace Workspace

variable {ws : Workspace} {name path : Path} {loc : Location} {mode : Nat} {required : Bool}
  {text : String} {format : Format}

theorem findSettings_of_isFile (hfile : ws.isFile (ws.workingPath.join name) = true)
    (hformat : (ws.workingPath.join name).fileName?.bind Format.ofName? = some format) :
    ws.findSettings name = .ok (ws.workingPath.join name, format) := by
  unfold findSettings
  simp only [hfile, hformat, if_true]

theorem findSettings_of_extended (hnone : ws.isFile (ws.workingPath.join name) = false)
    (hname : (ws.workingPath.join name).fileName?.isSome = true)
    (hfind : (Format.all.find? fun format =>
      ws.isFile (appendExtension (ws.workingPath.join name) format.extension)) = some format) :
    ws.findSettings name =
      .ok (appendExtension (ws.workingPath.join name) format.extension, format) := by
  obtain ⟨last, hlast⟩ := Option.isSome_iff_exists.mp hname
  unfold findSettings
  simp only [hnone, hlast, Option.bind_some, hfind, Bool.false_eq_true, if_false]

theorem findSettings_cases
    (h : ws.findSettings name = .ok (path, format)) :
    ws.isFile path = true ∧
      ((path = ws.workingPath.join name ∧
          (ws.workingPath.join name).fileName?.bind Format.ofName? = some format) ∨
        (ws.isFile (ws.workingPath.join name) = false ∧
          (ws.workingPath.join name).fileName?.isSome = true ∧
          path = appendExtension (ws.workingPath.join name) format.extension)) := by
  unfold findSettings at h
  cases hfile : ws.isFile (ws.workingPath.join name) with
  | true =>
    simp only [hfile, if_true] at h
    split at h
    · rename_i format' hformat
      obtain ⟨rfl, rfl⟩ := Prod.mk.inj (Except.ok.inj h)
      exact ⟨hfile, Or.inl ⟨rfl, hformat⟩⟩
    · cases h
  | false =>
    simp only [hfile, Bool.false_eq_true, if_false] at h
    cases hname : (ws.workingPath.join name).fileName? with
    | none =>
      rw [hname] at h
      cases h
    | some last =>
      simp only [hname, Option.bind_some] at h
      split at h
      · rename_i format' hfind
        have hfound := List.find?_some hfind
        obtain ⟨rfl, rfl⟩ := Prod.mk.inj (Except.ok.inj h)
        exact ⟨hfound, Or.inr ⟨rfl, rfl, rfl⟩⟩
      · cases h

/-- The layer of a file that was found is what its text gives. -/
theorem fileLayer_of_findSettings (hfind : ws.findSettings name = .ok (path, format)) :
    ws.fileLayer required name =
      match ws.readText path with
      | .error e => if required then .error (.unreadable e) else .ok []
      | .ok text => format.parse (ws.relativePath path) text := by
  unfold fileLayer readSettings
  rw [hfind]
  cases hread : ws.readText path with
  | error e => simp only [hread]
  | ok text => simp only [hread]

theorem fileLayer_of_findSettings_error {e : SettingsError} (h : ws.findSettings name = .error e) :
    ws.fileLayer required name = if required then .error e else .ok [] := by
  unfold fileLayer readSettings
  rw [h]

/-- The layer of a file that is there under the name of its format. -/
theorem fileLayer_of_stat
    (hstat : ws.stat (ws.workingPath.join name) = .ok (loc, .file text.toUTF8 mode))
    (hread : mayRead mode = true)
    (hformat : (ws.workingPath.join name).fileName?.bind Format.ofName? = some format) :
    ws.fileLayer required name = format.parse (ws.relativePath (ws.workingPath.join name)) text := by
  rw [fileLayer_of_findSettings (findSettings_of_isFile (isFile_iff.mpr ⟨_, _, _, hstat⟩) hformat),
    readText_of_stat hstat hread]

/-- Not more than one file can stand in for a missing file of that name. -/
def Unambiguous (ws : Workspace) (name : Path) : Prop :=
  ws.isFile (ws.workingPath.join name) = true ∨ ∀ format format' : Format,
    ws.isFile (appendExtension (ws.workingPath.join name) format.extension) = true →
    ws.isFile (appendExtension (ws.workingPath.join name) format'.extension) = true → format = format'

/-- The file that a name of settings means. Where no file has just that name, the only one with the
extension of a format added stands in for it. -/
inductive SettingsAt (ws : Workspace) (name path : Path) (format : Format) : Prop where
  | named {leaf : String} (hpath : path = ws.workingPath.join name) (hfile : ws.isFile path = true)
      (hleaf : path.fileName? = some leaf) (hext : Path.extension? leaf = some format.extension)
  | extended (hpath : path = appendExtension (ws.workingPath.join name) format.extension)
      (hnone : ws.isFile (ws.workingPath.join name) = false)
      (hleaf : (ws.workingPath.join name).fileName?.isSome = true) (hfile : ws.isFile path = true)
      (halone : ∀ other ≠ format,
        ws.isFile (appendExtension (ws.workingPath.join name) other.extension) = false)

theorem SettingsAt.findSettings (h : ws.SettingsAt name path format) :
    ws.findSettings name = .ok (path, format) := by
  cases h with
  | named hpath hfile hleaf hext =>
    subst hpath
    refine findSettings_of_isFile hfile ?_
    rw [hleaf]
    exact Format.ofName?_eq_some_iff.mpr hext
  | extended hpath hnone hleaf hfile halone =>
    subst hpath
    refine findSettings_of_extended hnone hleaf ?_
    cases format with
    | toml => simp only [Format.all, List.find?_cons, hfile]
    | json => simp only [Format.all, List.find?_cons, halone .toml (by simp), hfile]

theorem settingsAt_of_findSettings (hone : ws.Unambiguous name)
    (h : ws.findSettings name = .ok (path, format)) : ws.SettingsAt name path format := by
  obtain ⟨hfile, ⟨rfl, hformat⟩ | ⟨hnone, hleaf, rfl⟩⟩ := findSettings_cases h
  · obtain ⟨leaf, hleaf, hname⟩ := Option.bind_eq_some_iff.mp hformat
    exact .named rfl hfile hleaf (Format.ofName?_eq_some_iff.mp hname)
  · refine .extended rfl hnone hleaf hfile fun other hother => ?_
    rw [Bool.eq_false_iff]
    intro hthere
    exact hother (hone.resolve_left (by simp [hnone]) other format hthere hfile)

/-- The layer of a name of settings: what the text of the file says, or nothing where the file may be
missing and there is no text to read. -/
inductive GivesLayer (ws : Workspace) (name : Path) : (required : Bool) → Fields → Prop where
  | read {required : Bool} {path : Path} {format : Format} {text : String} {layer : Fields}
      (hfile : ws.SettingsAt name path format) (hread : ws.readText path = .ok text)
      (hlayer : format.parse (ws.relativePath path) text = .ok layer) : GivesLayer ws name required layer
  | absent (hone : ws.Unambiguous name)
      (h : ∀ path format text, ws.SettingsAt name path format → ws.readText path ≠ .ok text) :
      GivesLayer ws name false []

theorem GivesLayer.fileLayer {layer : Fields} (h : ws.GivesLayer name required layer) :
    ws.fileLayer required name = .ok layer := by
  cases h with
  | read hfile hread hlayer =>
    rw [fileLayer_of_findSettings hfile.findSettings, hread]
    exact hlayer
  | absent hone h =>
    cases hfind : ws.findSettings name with
    | error e =>
      rw [fileLayer_of_findSettings_error hfind]
      rfl
    | ok found =>
      obtain ⟨path, format⟩ := found
      rw [fileLayer_of_findSettings hfind]
      cases hread : ws.readText path with
      | error e => rfl
      | ok text => exact absurd hread (h path format text (settingsAt_of_findSettings hone hfind))

end Workspace

/-! ## Settings of a user -/

namespace Settings

variable {ws : Workspace} {env : Environment}

/-- Where a user's settings are looked for. -/
inductive UserDirectory (env : Environment) : Path → Prop where
  | configured {dir : Path} (h : env.lookup "XDG_CONFIG_HOME" = some dir)
      (habsolute : dir.isAbsolute = true) : UserDirectory env dir
  | home {home : Path}
      (hnone : ∀ dir : Path, env.lookup "XDG_CONFIG_HOME" = some dir → dir.isAbsolute = false)
      (h : env.lookup "HOME" = some home) (hne : home ≠ "") : UserDirectory env (home.join ".config")

theorem userDirectory?_eq_some_iff {dir : Path} : userDirectory? env = some dir ↔ UserDirectory env dir := by
  unfold userDirectory?
  cases hconfigured : (env.lookup "XDG_CONFIG_HOME").filter Path.isAbsolute with
  | some configured =>
    obtain ⟨hlookup, habsolute⟩ := Option.filter_eq_some_iff.mp hconfigured
    constructor
    · intro h
      cases h
      exact .configured hlookup habsolute
    · intro h
      cases h with
      | configured h => exact hlookup.symm.trans h
      | home hnone => cases habsolute.symm.trans (hnone _ hlookup)
  | none =>
    have hnone : ∀ dir : Path, env.lookup "XDG_CONFIG_HOME" = some dir → dir.isAbsolute = false := by
      intro dir h
      simpa [h] using hconfigured
    constructor
    · intro h
      obtain ⟨home, hhome, rfl⟩ := Option.map_eq_some_iff.mp h
      obtain ⟨hlookup, hne⟩ := Option.filter_eq_some_iff.mp hhome
      exact .home hnone hlookup (by simpa using hne)
    · intro h
      cases h with
      | configured h habsolute => cases habsolute.symm.trans (hnone _ h)
      | home hnone h hne => simp [h, hne]

theorem userFile?_eq_some_iff {file : Path} :
    userFile? ws env = some file ↔
      (∃ dir, userDirectory? env = some dir ∧ file = (dir.join "interfaces").join "interfaces.toml") ∧
        ∃ found, ws.stat file = .ok found := by
  have hstat : (ws.stat file).toBool = true ↔ ∃ found, ws.stat file = .ok found := by
    cases ws.stat file <;> simp [Except.toBool]
  unfold userFile?
  rw [Option.filter_eq_some_iff, Option.map_eq_some_iff, hstat]
  simp only [eq_comm]

/-- The layer of a user's settings, which give one only where something has the name of their file. -/
inductive UserLayer (ws : Workspace) (env : Environment) : Fields → Prop where
  | read {dir : Path} {found : Location × Entry} {layer : Fields} (hdir : UserDirectory env dir)
      (hfound : ws.stat ((dir.join "interfaces").join "interfaces.toml") = .ok found)
      (hlayer : ws.GivesLayer ((dir.join "interfaces").join "interfaces.toml") false layer) :
      UserLayer ws env layer
  | absent (h : ∀ dir, UserDirectory env dir →
      ∀ found, ws.stat ((dir.join "interfaces").join "interfaces.toml") ≠ .ok found) :
      UserLayer ws env []

/-- The layer of the file that a command line names, which must be there. -/
inductive ExplicitLayer (ws : Workspace) : Option Path → Fields → Prop where
  | read {file : Path} {layer : Fields} (hlayer : ws.GivesLayer file true layer) :
      ExplicitLayer ws (some file) layer
  | absent : ExplicitLayer ws none []

/-- A layer of a file that may be left out of a list. -/
def StandsFor (layers : List Fields) (layer : Fields) : Prop :=
  layers = [layer] ∨ layers = [] ∧ layer = []

theorem UserLayer.exists_layers {layer : Fields} (h : UserLayer ws env layer) :
    ∃ layers, StandsFor layers layer ∧
      List.Forall₂ (fun file layer => ws.fileLayer file.2 file.1 = .ok layer)
        ((userFile? ws env).toList.map (·, false)) layers := by
  cases h with
  | read hdir hfound hlayer =>
    have huser := userFile?_eq_some_iff.mpr
      ⟨⟨_, userDirectory?_eq_some_iff.mpr hdir, rfl⟩, _, hfound⟩
    rw [huser]
    exact ⟨_, .inl rfl, .cons (hlayer.fileLayer) .nil⟩
  | absent h =>
    have huser : userFile? ws env = none := by
      refine Option.eq_none_iff_forall_ne_some.mpr fun file hfile => ?_
      obtain ⟨⟨dir, hdir, rfl⟩, found, hfound⟩ := userFile?_eq_some_iff.mp hfile
      exact h dir (userDirectory?_eq_some_iff.mp hdir) found hfound
    rw [huser]
    exact ⟨[], .inr ⟨rfl, rfl⟩, .nil⟩

theorem ExplicitLayer.exists_layers {config : Option Path} {layer : Fields}
    (h : ExplicitLayer ws config layer) :
    ∃ layers, StandsFor layers layer ∧
      List.Forall₂ (fun file layer => ws.fileLayer file.2 file.1 = .ok layer)
        (config.toList.map (·, true)) layers := by
  cases h with
  | read hlayer => exact ⟨_, .inl rfl, .cons (hlayer.fileLayer) .nil⟩
  | absent => exact ⟨[], .inr ⟨rfl, rfl⟩, .nil⟩

end Settings

/-- Two files with settings, of which the second leaves the output directory to the first. -/
def layeredFiles : Workspace where
  tree := ((FileTree.empty.insert ["interfaces.toml"]
      (.file (Settings.toToml { lead := "a", outputDir := some "x" }).toUTF8 fileMode)).insert
    ["config"] (.directory directoryMode)).insert ["interfaces.toml", "config"]
      (.file (Settings.toToml { lead := "b" }).toUTF8 fileMode)
  workingDir := []

theorem layers_layeredFiles {env : Environment} (h : Settings.userDirectory? env = none) :
    List.Forall₂ (fun file layer => layeredFiles.fileLayer file.2 file.1 = .ok layer)
      (Settings.files layeredFiles env none)
      [Settings.savedLayer { lead := "a", outputDir := some "x" } "interfaces.toml", [],
        Settings.savedLayer { lead := "b" } "config/interfaces.toml"] := by
  have hfirst : layeredFiles.fileLayer false "interfaces.toml" =
      .ok (Settings.savedLayer { lead := "a", outputDir := some "x" } "interfaces.toml") :=
    (Workspace.fileLayer_of_stat rfl rfl rfl).trans (Settings.parse_toToml _ _)
  have hsecond : layeredFiles.fileLayer false "config/interfaces.toml" =
      .ok (Settings.savedLayer { lead := "b" } "config/interfaces.toml") :=
    (Workspace.fileLayer_of_stat rfl rfl rfl).trans (Settings.parse_toToml _ _)
  unfold Settings.files Settings.userFile?
  rw [h]
  exact .cons hfirst (.cons rfl (.cons hsecond .nil))

theorem plainLayer_nil : PlainLayer [] := fun _ _ hmem => by cases hmem

end InterfaceTables
