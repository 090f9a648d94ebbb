import InterfaceTables.Interface.Schema
import Mathlib.Data.List.Forall2
import Mathlib.Data.List.Nodup

/-!
The interface schema as a grammar: which JSON objects describe a document and which document that is.
The reader accepts these and no others.
-/

namespace InterfaceTables

/-! ## Words -/

theorem find?_word_iff {α : Type} {all : List α} {word : α → String} (hall : ∀ a, a ∈ all)
    (hword : (all.map word).Nodup) {s : String} {a : α} :
    all.find? (fun a => word a == s) = some a ↔ word a = s := by
  constructor
  · intro h
    simpa using List.find?_some h
  · rintro rfl
    cases hf : all.find? fun b => word b == word a with
    | none => simpa using List.find?_eq_none.mp hf a (hall a)
    | some b =>
      have hb : word b = word a := by simpa using List.find?_some hf
      rw [List.inj_on_of_nodup_map hword (hall b) (hall a) hb]

theorem InterfaceKind.mem_all (k : InterfaceKind) : k ∈ all := by cases k <;> decide
theorem Ownership.mem_all (o : Ownership) : o ∈ all := by cases o <;> decide
theorem Aggregation.mem_all (a : Aggregation) : a ∈ all := by cases a <;> decide
theorem Reliability.mem_all (r : Reliability) : r ∈ all := by cases r <;> decide

theorem ValueType.mem_all (t : ValueType) : t ∈ all := by
  obtain ⟨item, isArray⟩ := t
  cases item <;> cases isArray <;> decide

theorem InterfaceKind.ofTag?_eq_some_iff {s : String} {k : InterfaceKind} :
    ofTag? s = some k ↔ k.tag = s :=
  find?_word_iff mem_all (by decide)

theorem Ownership.ofTag?_eq_some_iff {s : String} {o : Ownership} :
    ofTag? s = some o ↔ o.tag = s :=
  find?_word_iff mem_all (by decide)

theorem Aggregation.ofTag?_eq_some_iff {s : String} {a : Aggregation} :
    ofTag? s = some a ↔ a.tag = s :=
  find?_word_iff mem_all (by decide)

theorem Reliability.ofTag?_eq_some_iff {s : String} {r : Reliability} :
    ofTag? s = some r ↔ r.tag = s :=
  find?_word_iff mem_all (by decide)

theorem ValueType.ofTag?_eq_some_iff {s : String} {t : ValueType} :
    ofTag? s = some t ↔ t.tag = s :=
  find?_word_iff mem_all (by decide)

example : ValueType.all.map ValueType.tag =
    ["double", "integer", "boolean", "longinteger", "string", "binaryblob", "datetime",
     "doublearray", "integerarray", "booleanarray", "longintegerarray", "stringarray",
     "binaryblobarray", "datetimearray"] := by decide

/-- The number of a reliability. -/
def Reliability.level : Reliability → Nat
  | .unreliable => 0
  | .guaranteed => 1
  | .unique => 2

theorem Reliability.ofLevel?_eq_some_iff {n : Nat} {r : Reliability} :
    ofLevel? n = some r ↔ r.level = n := by
  unfold ofLevel?
  split <;> cases r <;> simp_all [level]
  all_goals omega

namespace Schema

/-! ## The grammar -/

def IsLetter (c : Char) : Prop := ('a' ≤ c ∧ c ≤ 'z') ∨ ('A' ≤ c ∧ c ≤ 'Z')

instance : DecidablePred IsLetter := fun c =>
  inferInstanceAs (Decidable (('a' ≤ c ∧ c ≤ 'z') ∨ ('A' ≤ c ∧ c ≤ 'Z')))

/-- A letter followed by letters, digits, dots, dashes and underscores. -/
def IsName (s : String) : Prop :=
  ∃ first rest, s.toList = first :: rest ∧ IsLetter first ∧
    ∀ c ∈ rest, IsLetter c ∨ ('0' ≤ c ∧ c ≤ '9') ∨ c = '.' ∨ c = '-' ∨ c = '_'

/-- A slash followed by anything but quotes, backslashes and control characters. -/
def IsEndpoint (s : String) : Prop :=
  ∃ rest, s.toList = '/' :: rest ∧
    ∀ c ∈ rest, c ≠ '"' ∧ c ≠ '\\' ∧ ¬ c.toNat ≤ 0x1f ∧ c.toNat ≠ 0x7f

/-- A whole number below `2 ^ 32`, written without sign, point and exponent. -/
def IsVersion (v : Json) (n : Nat) : Prop := v = .number (.unsigned n) ∧ n < UInt32.size

/-- A reliability by its name or by its number. -/
def IsReliability (v : Json) (r : Reliability) : Prop :=
  v = .string r.tag ∨ v = .number (.unsigned r.level)

/-- A field that may be left out if something stands in for it. -/
inductive Optional {α : Type} (Means : Json → α → Prop) (StandsIn : α → Prop) :
    Option Json → α → Prop where
  | given {v a} (h : Means v a) : Optional Means StandsIn (some v) a
  | absent {a} (h : StandsIn a) : Optional Means StandsIn none a

structure DescribesMapping (applyDefaults : Bool) (entries : List (String × Json)) (m : Mapping) :
    Prop where
  endpoint : entries.lookup "endpoint" = some (.string m.endpoint)
  isEndpoint : IsEndpoint m.endpoint
  type : entries.lookup "type" = some (.string m.type.tag)
  reliability : Optional IsReliability (fun r => applyDefaults = true ∧ r = .unreliable)
    (entries.lookup "reliability") m.reliability
  explicitTimestamp : Optional (fun v b => v = .boolean b) (fun b => applyDefaults = true ∧ b = false)
    (entries.lookup "explicit_timestamp") m.explicitTimestamp
  allowUnset : Optional (fun v b => v = .boolean b) (fun b => applyDefaults = true ∧ b = false)
    (entries.lookup "allow_unset") m.allowUnset

structure DescribesDocument (applyDefaults : Bool) (source : Path) (entries : List (String × Json))
    (d : Document) : Prop where
  name : (entries.lookup "interface_name").or (entries.lookup "name") = some (.string d.name)
  isName : IsName d.name
  versionMajor : ∃ v, entries.lookup "version_major" = some v ∧ IsVersion v d.versionMajor
  versionMinor : ∃ v, entries.lookup "version_minor" = some v ∧ IsVersion v d.versionMinor
  kind : entries.lookup "type" = some (.string d.kind.tag)
  ownership : entries.lookup "ownership" = some (.string d.ownership.tag)
  aggregation : Optional (fun v a => v = .string (Aggregation.tag a))
    (fun a => applyDefaults = true ∧ a = .individual) (entries.lookup "aggregation") d.aggregation
  mappings : ∃ items, entries.lookup "mappings" = some (.array items) ∧ items ≠ [] ∧
    List.Forall₂ (fun v m => ∃ fields, v = .object fields ∧ DescribesMapping applyDefaults fields m)
      items d.mappings
  source : d.source = source

/-! ## The checks of single fields -/

theorem isName_iff {s : String} : isName s = true ↔ IsName s := by
  unfold isName IsName
  cases s.toList with
  | nil => simp
  | cons first rest =>
    simp [isAsciiLetter, isNameChar, IsLetter, or_assoc]

theorem isEndpoint_iff {s : String} : isEndpoint s = true ↔ IsEndpoint s := by
  unfold isEndpoint IsEndpoint
  cases s.toList with
  | nil => simp
  | cons first rest =>
    simp [isEndpointChar, and_assoc, Nat.lt_iff_add_one_le]

variable {f : Fields} {key : String}

theorem text_eq_ok_iff {s : String} :
    f.text key = .ok s ↔ f.get? key = some (.string s) ∧ s ≠ "" := by
  unfold Fields.text
  constructor
  · intro h
    split at h
    · cases h
    · rename_i s' hg
      split at h
      · cases h
      · rename_i he
        cases h
        exact ⟨hg, fun hs => he (by rw [hs]; rfl)⟩
    · cases h
  · rintro ⟨hg, hs⟩
    have he : s.isEmpty = false := String.isEmpty_eq_false_iff.mpr hs
    simp [hg, he]

theorem boolean_eq_ok_iff {default : Option Bool} {b : Bool} :
    f.boolean key default = .ok b ↔
      Optional (fun v b => v = .boolean b) (fun b => default = some b) (f.get? key) b := by
  unfold Fields.boolean
  constructor
  · intro h
    split at h
    · rename_i hg
      cases h
      rw [hg]
      exact .given rfl
    · cases h
    · rename_i hg
      cases h
      rw [hg]
      exact .absent rfl
    · cases h
  · intro h
    generalize hg : f.get? key = v at h
    cases h with
    | given h =>
      subst h
      rfl
    | absent h =>
      subst h
      rfl

theorem version_eq_ok_iff {n : Nat} :
    f.version key = .ok n ↔ ∃ v, f.get? key = some v ∧ IsVersion v n := by
  unfold Fields.version IsVersion
  constructor
  · intro h
    split at h
    · cases h
    · rename_i n' hg
      split at h
      · rename_i hle
        cases h
        exact ⟨_, hg, rfl, Nat.lt_succ_of_le hle⟩
      · cases h
    · cases h
  · rintro ⟨v, hg, rfl, hn⟩
    simp only [hg]
    rw [if_pos (Nat.le_of_lt_succ hn)]

theorem choice_eq_ok_iff {α : Type} {ofTag? : String → Option α} {tag : α → String}
    (htag : ∀ {s a}, ofTag? s = some a ↔ tag a = s) {default : Option α} {a : α} :
    f.choice key ofTag? default = .ok a ↔
      Optional (fun v a => v = .string (tag a)) (fun a => default = some a) (f.get? key) a := by
  unfold Fields.choice
  constructor
  · intro h
    split at h
    · rename_i hg
      cases h
      rw [hg]
      exact .absent rfl
    · cases h
    · rename_i s hg
      split at h
      · rename_i ha
        cases h
        rw [hg]
        exact .given (by rw [htag.mp ha])
      · cases h
    · cases h
  · intro h
    generalize hg : f.get? key = v at h
    cases h with
    | given h =>
      subst h
      simp only [htag.mpr rfl]
    | absent h =>
      subst h
      rfl

theorem reliability_eq_ok_iff {default : Option Reliability} {r : Reliability} :
    f.reliability default = .ok r ↔
      Optional IsReliability (fun r => default = some r) (f.get? "reliability") r := by
  unfold Fields.reliability
  dsimp only
  constructor
  · intro h
    split at h
    · rename_i hg
      cases h
      rw [hg]
      exact .absent rfl
    · cases h
    · rename_i n hg
      split at h
      · rename_i hr
        cases h
        rw [hg]
        exact .given (Or.inr (by rw [Reliability.ofLevel?_eq_some_iff.mp hr]))
      · cases h
    · cases h
    · rename_i s hg
      split at h
      · rename_i hr
        cases h
        rw [hg]
        exact .given (Or.inl (by rw [Reliability.ofTag?_eq_some_iff.mp hr]))
      · cases h
    · cases h
  · intro h
    generalize hg : f.get? "reliability" = v at h
    cases h with
    | given h =>
      cases h with
      | inl h =>
        subst h
        simp only [Reliability.ofTag?_eq_some_iff.mpr rfl]
      | inr h =>
        subst h
        simp only [Reliability.ofLevel?_eq_some_iff.mpr rfl]
    | absent h =>
      subst h
      rfl

theorem mappingItems_eq_ok_iff {items : List Json} :
    f.mappingItems = .ok items ↔ f.get? "mappings" = some (.array items) ∧ items ≠ [] := by
  unfold Fields.mappingItems
  constructor
  · intro h
    split at h
    · cases h
    · cases h
    · rename_i items' hne hg
      cases h
      exact ⟨hg, hne⟩
    · cases h
  · rintro ⟨hg, hne⟩
    cases items with
    | nil => exact absurd rfl hne
    | cons v rest => simp [hg]

theorem ofJson_eq_ok_iff {place : Place} {v : Json} :
    Fields.ofJson place v = .ok f ↔ ∃ entries, v = .object entries ∧ f = ⟨place, entries⟩ := by
  cases v <;> simp [Fields.ofJson, eq_comm]

/-! ## Objects -/

theorem bind_eq_ok_iff {ε α β : Type} {x : Except ε α} {next : α → Except ε β} {b : β} :
    (x >>= next) = .ok b ↔ ∃ a, x = .ok a ∧ next a = .ok b := by
  cases x with
  | error e => simp [bind, Except.bind]
  | ok a => simp [bind, Except.bind]

theorem unless_eq_ok_iff {ε α β : Type} {p : Prop} [Decidable p] {e : ε} {next : Except ε β}
    {rest : α → Except ε β} {b : β} :
    (if p then next else (throw e : Except ε α) >>= rest) = .ok b ↔ p ∧ next = .ok b := by
  by_cases hp : p
  · simp [hp]
  · simp [hp, throw, throwThe, MonadExceptOf.throw, bind, Except.bind]

theorem pure_eq_ok_iff {ε α : Type} {a b : α} : (pure a : Except ε α) = .ok b ↔ a = b := by
  simp [pure, Except.pure]

theorem IsEndpoint.ne_empty {s : String} (h : IsEndpoint s) : s ≠ "" := by
  rintro rfl
  obtain ⟨rest, hs, _⟩ := h
  cases hs

theorem IsName.ne_empty {s : String} (h : IsName s) : s ≠ "" := by
  rintro rfl
  obtain ⟨first, rest, hs, _⟩ := h
  cases hs

/-- Without a default a word must be given. -/
theorem optional_none_iff {α : Type} {Means : Json → α → Prop} {v : Option Json} {a : α} :
    Optional Means (fun a => none = some a) v a ↔ ∃ given, v = some given ∧ Means given a := by
  constructor
  · intro h
    cases h with
    | given h => exact ⟨_, rfl, h⟩
    | absent h => cases h
  · rintro ⟨given, rfl, h⟩
    exact .given h

theorem filled_eq_some_iff {α : Type} {applyDefaults : Bool} {a b : α} :
    filled applyDefaults a = some b ↔ applyDefaults = true ∧ b = a := by
  cases applyDefaults <;> simp [filled, eq_comm]

theorem mapping_eq_ok_iff {applyDefaults : Bool} {place : Place} {entries : List (String × Json)}
    {m : Mapping} :
    mapping applyDefaults ⟨place, entries⟩ = .ok m ↔ DescribesMapping applyDefaults entries m := by
  unfold mapping
  simp only [bind_eq_ok_iff, unless_eq_ok_iff, pure_eq_ok_iff, text_eq_ok_iff, reliability_eq_ok_iff,
    boolean_eq_ok_iff, choice_eq_ok_iff ValueType.ofTag?_eq_some_iff, isEndpoint_iff, optional_none_iff,
    filled_eq_some_iff]
  constructor
  · rintro ⟨endpoint, ⟨he, _⟩, hend, type, ⟨_, ht, rfl⟩, r, hr, b, hb, b', hb', rfl⟩
    exact ⟨he, hend, ht, hr, hb, hb'⟩
  · intro h
    exact ⟨m.endpoint, ⟨h.endpoint, h.isEndpoint.ne_empty⟩, h.isEndpoint, m.type, ⟨_, h.type, rfl⟩,
      m.reliability, h.reliability, m.explicitTimestamp, h.explicitTimestamp, m.allowUnset,
      h.allowUnset, rfl⟩

/-- Every item of the list gives the mapping at its position. -/
theorem mappings_eq_ok_iff {applyDefaults : Bool} {index : Nat} {items : List Json}
    {ms : List Mapping} :
    mappings applyDefaults index items = .ok ms ↔
      List.Forall₂
        (fun v m => ∃ fields, v = .object fields ∧ DescribesMapping applyDefaults fields m) items ms := by
  induction items generalizing index ms with
  | nil =>
    cases ms <;> simp [mappings]
  | cons v rest ih =>
    simp only [mappings, bind_eq_ok_iff, pure_eq_ok_iff, ofJson_eq_ok_iff, ih, List.forall₂_cons_left_iff]
    constructor
    · rintro ⟨_, ⟨fields, rfl, rfl⟩, m, hm, ms', hms, rfl⟩
      exact ⟨m, ms', ⟨fields, rfl, mapping_eq_ok_iff.mp hm⟩, hms, rfl⟩
    · rintro ⟨m, ms', ⟨fields, rfl, hm⟩, hms, rfl⟩
      exact ⟨_, ⟨fields, rfl, rfl⟩, m, mapping_eq_ok_iff.mpr hm, ms', hms, rfl⟩

theorem DescribesDocument.isEndpoint {applyDefaults : Bool} {source : Path}
    {entries : List (String × Json)} {d : Document}
    (h : DescribesDocument applyDefaults source entries d) {m : Mapping} (hm : m ∈ d.mappings) :
    IsEndpoint m.endpoint := by
  obtain ⟨items, -, -, hitems⟩ := h.mappings
  generalize d.mappings = ms at hitems hm
  induction hitems with
  | nil => cases hm
  | cons hv _ ih =>
    cases hm with
    | head =>
      obtain ⟨fields, _, hfields⟩ := hv
      exact hfields.isEndpoint
    | tail _ hm => exact ih hm

theorem name_eq_ok_iff {place : Place} {entries : List (String × Json)} {s : String} :
    name ⟨place, entries⟩ = .ok s ↔
      (entries.lookup "interface_name").or (entries.lookup "name") = some (.string s) ∧ IsName s := by
  have hkey : Fields.get? ⟨place, entries⟩ (Fields.nameKey ⟨place, entries⟩) =
      (entries.lookup "interface_name").or (entries.lookup "name") := by
    unfold Fields.nameKey Fields.get?
    split
    · rename_i h
      simp only [Bool.and_eq_true, Option.isNone_iff_eq_none] at h
      rw [h.1, Option.none_or]
    · rename_i h
      simp only [Bool.and_eq_true, Option.isNone_iff_eq_none, not_and, Bool.not_eq_true,
        Option.isSome_eq_false_iff] at h
      cases hl : entries.lookup "interface_name" with
      | some v => rw [Option.some_or]
      | none => rw [h hl, Option.none_or]
  unfold name
  simp only [bind_eq_ok_iff, unless_eq_ok_iff, pure_eq_ok_iff, text_eq_ok_iff, isName_iff, hkey]
  constructor
  · rintro ⟨_, ⟨hs, _⟩, hname, rfl⟩
    exact ⟨hs, hname⟩
  · rintro ⟨hs, hname⟩
    exact ⟨s, ⟨hs, hname.ne_empty⟩, hname, rfl⟩

theorem document_eq_ok_iff {applyDefaults : Bool} {source : Path} {v : Json} {d : Document} :
    document applyDefaults source v = .ok d ↔
      ∃ entries, v = .object entries ∧ DescribesDocument applyDefaults source entries d := by
  unfold document
  simp only [bind_eq_ok_iff, pure_eq_ok_iff, ofJson_eq_ok_iff, mappings_eq_ok_iff,
    choice_eq_ok_iff Aggregation.ofTag?_eq_some_iff, filled_eq_some_iff]
  constructor
  · rintro ⟨_, ⟨entries, rfl, rfl⟩, s, hname, major, hmajor, minor, hminor, kind, hkind, owner, howner,
      agg, hagg, items, hitems, ms, hms, rfl⟩
    obtain ⟨hs, hisName⟩ := name_eq_ok_iff.mp hname
    obtain ⟨_, hk, rfl⟩ := optional_none_iff.mp
      ((choice_eq_ok_iff InterfaceKind.ofTag?_eq_some_iff).mp hkind)
    obtain ⟨_, ho, rfl⟩ := optional_none_iff.mp
      ((choice_eq_ok_iff Ownership.ofTag?_eq_some_iff).mp howner)
    obtain ⟨hitems, hne⟩ := mappingItems_eq_ok_iff.mp hitems
    exact ⟨entries, rfl, hs, hisName, version_eq_ok_iff.mp hmajor, version_eq_ok_iff.mp hminor, hk, ho,
      hagg, ⟨items, hitems, hne, hms⟩, rfl⟩
  · rintro ⟨entries, rfl, h⟩
    obtain ⟨items, hitems, hne, hms⟩ := h.mappings
    exact ⟨_, ⟨entries, rfl, rfl⟩, d.name, name_eq_ok_iff.mpr ⟨h.name, h.isName⟩,
      d.versionMajor, version_eq_ok_iff.mpr h.versionMajor,
      d.versionMinor, version_eq_ok_iff.mpr h.versionMinor,
      d.kind, (choice_eq_ok_iff InterfaceKind.ofTag?_eq_some_iff).mpr
        (optional_none_iff.mpr ⟨_, h.kind, rfl⟩),
      d.ownership, (choice_eq_ok_iff Ownership.ofTag?_eq_some_iff).mpr
        (optional_none_iff.mpr ⟨_, h.ownership, rfl⟩),
      d.aggregation, h.aggregation,
      items, mappingItems_eq_ok_iff.mpr ⟨hitems, hne⟩, d.mappings, hms, by rw [← h.source]⟩

end Schema

theorem Document.exists_of_parse {applyDefaults : Bool} {source : Path} {text : String} {d : Document}
    (h : Document.parse applyDefaults source text = .ok d) :
    ∃ entries, Json.parse text = .ok (.object entries) ∧
      Schema.DescribesDocument applyDefaults source entries d := by
  unfold Document.parse at h
  split at h
  · cases h
  · rename_i v hv
    split at h
    · cases h
    · rename_i hd
      cases h
      obtain ⟨entries, rfl, hdesc⟩ := Schema.document_eq_ok_iff.mp hd
      exact ⟨entries, hv, hdesc⟩

theorem Document.parse_of_describes {applyDefaults : Bool} {source : Path} {text : String}
    {entries : List (String × Json)} {d : Document} (hv : Json.parse text = .ok (.object entries))
    (hd : Schema.DescribesDocument applyDefaults source entries d) :
    Document.parse applyDefaults source text = .ok d := by
  have hd := Schema.document_eq_ok_iff.mpr ⟨entries, rfl, hd⟩
  unfold Document.parse
  simp only [hv, hd]

/-- A text is read as a document exactly if it denotes an object that describes it. -/
theorem Document.parse_eq_ok_iff_describes {applyDefaults : Bool} {source : Path} {text : String}
    {d : Document} :
    Document.parse applyDefaults source text = .ok d ↔
      ∃ entries, Json.parse text = .ok (.object entries) ∧
        Schema.DescribesDocument applyDefaults source entries d := by
  constructor
  · exact Document.exists_of_parse
  · rintro ⟨entries, hv, hdesc⟩
    exact Document.parse_of_describes hv hdesc

example : Document.parse true "a.json" ("\x7b\"name\":\"n\",\"version_major\":0,\"version_minor\":1," ++
    "\"type\":\"datastream\",\"ownership\":\"device\"," ++
    "\"mappings\":[\x7b\"endpoint\":\"/v\",\"type\":\"string\"\x7d]\x7d") =
    .ok ⟨"n", 0, 1, .datastream, .device, .individual,
      [⟨"/v", ⟨.string, false⟩, .unreliable, false, false⟩], "a.json"⟩ := by
  decide +kernel

end InterfaceTables
