import InterfaceTables.Proofs.CompletedDocuments

/-!
What an error says about a value. The schema is a sequence of tests. The first that a value fails
decides the error and is named in it; what only later tests look at, and fields that no test looks at,
have no say.
-/

namespace InterfaceTables

namespace Json

def isObject : Json → Bool
  | .object _ => true
  | _ => false

def isArray : Json → Bool
  | .array _ => true
  | _ => false

/-- The fields of an object. Other values have none. -/
def entries : Json → List (String × Json)
  | .object entries => entries
  | _ => []

def field? (v : Json) (key : String) : Option Json := v.entries.lookup key

/-- The mappings that the value lists. -/
def listed (v : Json) : List Json :=
  match v.field? "mappings" with
  | some (.array items) => items
  | _ => []

def mapping? (v : Json) (index : Nat) : Option Json := v.listed[index]?

end Json

/-- The place or the field that an error names, as it is shown. -/
def SchemaCause.location? : SchemaCause → Option String
  | .notAnObject place => some place.text
  | .missingField field => some field.text
  | .wrongType field _ => some field.text
  | .unknownValue field _ => some field.text
  | .malformed field _ _ => some field.text
  | .noMappings => none
  | .unreadable _ => none
  | .notJson _ => none
  | .unlistable _ => none

namespace Schema

/-! ## Tests in their order -/

/-- What is tested of one mapping. -/
inductive MappingTest where
  | isObject
  | endpoint
  | type
  | reliability
  | explicitTimestamp
  | allowUnset
deriving DecidableEq

/-- What is tested of a document. -/
inductive Test where
  | isObject
  | name
  | versionMajor
  | versionMinor
  | type
  | ownership
  | aggregation
  | mappings
  | mapping (index : Nat) (test : MappingTest)
deriving DecidableEq

def MappingTest.rank : MappingTest → Nat
  | .isObject => 0
  | .endpoint => 1
  | .type => 2
  | .reliability => 3
  | .explicitTimestamp => 4
  | .allowUnset => 5

/-- The tests of the document itself come first, then those of each mapping. -/
def Test.position : Test → Nat × Nat
  | .isObject => (0, 0)
  | .name => (0, 1)
  | .versionMajor => (0, 2)
  | .versionMinor => (0, 3)
  | .type => (0, 4)
  | .ownership => (0, 5)
  | .aggregation => (0, 6)
  | .mappings => (0, 7)
  | .mapping index test => (index + 1, test.rank)

def Test.Before (t t' : Test) : Prop :=
  t.position.1 < t'.position.1 ∨ (t.position.1 = t'.position.1 ∧ t.position.2 < t'.position.2)

/-! ## What a test looks at, asks for and is called -/

/-- What is told apart about a list of mappings before any of them is looked at. -/
inductive Listing where
  | absent
  | noArray
  | empty
  | filled

def Listing.of : Option Json → Listing
  | none => .absent
  | some (.array []) => .empty
  | some (.array (_ :: _)) => .filled
  | some _ => .noArray

/-- All that a test looks at. -/
inductive Sight where
  | kind (isObject : Bool)
  | field (value : Option Json)
  /-- The short key is looked at only if there is no long one. -/
  | name (long short : Option Json)
  | listing (l : Listing)

def MappingTest.sees (item : Json) : MappingTest → Sight
  | .isObject => .kind item.isObject
  | .endpoint => .field (item.field? "endpoint")
  | .type => .field (item.field? "type")
  | .reliability => .field (item.field? "reliability")
  | .explicitTimestamp => .field (item.field? "explicit_timestamp")
  | .allowUnset => .field (item.field? "allow_unset")

/-- There is nothing to see of a mapping that is not there. -/
def Test.sees (v : Json) : Test → Option Sight
  | .isObject => some (.kind v.isObject)
  | .name =>
    some (.name (v.field? "interface_name")
      (if (v.field? "interface_name").isNone then v.field? "name" else none))
  | .versionMajor => some (.field (v.field? "version_major"))
  | .versionMinor => some (.field (v.field? "version_minor"))
  | .type => some (.field (v.field? "type"))
  | .ownership => some (.field (v.field? "ownership"))
  | .aggregation => some (.field (v.field? "aggregation"))
  | .mappings => some (.listing (.of (v.field? "mappings")))
  | .mapping index test => (v.mapping? index).map (test.sees ·)

def MappingTest.Passes (applyDefaults : Bool) (item : Json) : MappingTest → Prop
  | .isObject => item.isObject = true
  | .endpoint => ∃ s, item.field? "endpoint" = some (.string s) ∧ IsEndpoint s
  | .type => ∃ t : ValueType, item.field? "type" = some (.string t.tag)
  | .reliability => ∃ r, Optional IsReliability (fun r => applyDefaults = true ∧ r = .unreliable)
      (item.field? "reliability") r
  | .explicitTimestamp => ∃ b, Optional (fun v b => v = .boolean b)
      (fun b => applyDefaults = true ∧ b = false) (item.field? "explicit_timestamp") b
  | .allowUnset => ∃ b, Optional (fun v b => v = .boolean b)
      (fun b => applyDefaults = true ∧ b = false) (item.field? "allow_unset") b

/-- A test of a mapping that is not there is passed. -/
def Test.Passes (applyDefaults : Bool) (v : Json) : Test → Prop
  | .isObject => v.isObject = true
  | .name => ∃ s, (v.field? "interface_name").or (v.field? "name") = some (.string s) ∧ IsName s
  | .versionMajor => ∃ n w, v.field? "version_major" = some w ∧ IsVersion w n
  | .versionMinor => ∃ n w, v.field? "version_minor" = some w ∧ IsVersion w n
  | .type => ∃ k : InterfaceKind, v.field? "type" = some (.string k.tag)
  | .ownership => ∃ o : Ownership, v.field? "ownership" = some (.string o.tag)
  | .aggregation => ∃ a, Optional (fun w a => w = .string (Aggregation.tag a))
      (fun a => applyDefaults = true ∧ a = .individual) (v.field? "aggregation") a
  | .mappings => ∃ items, v.field? "mappings" = some (.array items) ∧ items ≠ []
  | .mapping index test => ∀ item, v.mapping? index = some item → test.Passes applyDefaults item

/-- What comes after the path of the mapping. -/
def MappingTest.suffix : MappingTest → String
  | .isObject => ""
  | .endpoint => ".endpoint"
  | .type => ".type"
  | .reliability => ".reliability"
  | .explicitTimestamp => ".explicit_timestamp"
  | .allowUnset => ".allow_unset"

def nameKey (v : Json) : String :=
  match v.field? "interface_name", v.field? "name" with
  | none, some _ => "name"
  | _, _ => "interface_name"

/-- The place or the field that is tested. -/
def Test.location (v : Json) : Test → String
  | .isObject => "document"
  | .name => nameKey v
  | .versionMajor => "version_major"
  | .versionMinor => "version_minor"
  | .type => "type"
  | .ownership => "ownership"
  | .aggregation => "aggregation"
  | .mappings => "mappings"
  | .mapping index test => "mappings[" ++ toString index ++ "]" ++ test.suffix

/-! ## The error of a single test -/

def failure {α : Type} : Check α → Option SchemaCause
  | .error cause => some cause
  | .ok _ => none

/-- A text that is good for what it stands for. -/
def Fields.goodText (f : Fields) (key : String) (good : String → Bool) (defect : Defect) :
    Check String := do
  let s ← f.text key
  unless good s do
    throw (.malformed (f.field key) s defect)
  return s

theorem name_eq_goodText (f : Fields) : name f = f.goodText f.nameKey isName .name := rfl

/-- What a test finds wrong with a mapping. -/
def MappingTest.fault? (applyDefaults : Bool) (index : Nat) (item : Json) :
    MappingTest → Option SchemaCause
  | .isObject => failure (Fields.ofJson (.mapping index) item)
  | .endpoint => failure
      (Fields.goodText ⟨.mapping index, item.entries⟩ "endpoint" isEndpoint .endpoint)
  | .type => failure (Fields.choice ⟨.mapping index, item.entries⟩ "type" ValueType.ofTag? none)
  | .reliability => failure
      (Fields.reliability ⟨.mapping index, item.entries⟩ (filled applyDefaults .unreliable))
  | .explicitTimestamp => failure
      (Fields.boolean ⟨.mapping index, item.entries⟩ "explicit_timestamp" (filled applyDefaults false))
  | .allowUnset => failure
      (Fields.boolean ⟨.mapping index, item.entries⟩ "allow_unset" (filled applyDefaults false))

/-- What a test finds wrong with a document. -/
def Test.fault? (applyDefaults : Bool) (v : Json) : Test → Option SchemaCause
  | .isObject => failure (Fields.ofJson .root v)
  | .name => failure (Schema.name ⟨.root, v.entries⟩)
  | .versionMajor => failure (Fields.version ⟨.root, v.entries⟩ "version_major")
  | .versionMinor => failure (Fields.version ⟨.root, v.entries⟩ "version_minor")
  | .type => failure (Fields.choice ⟨.root, v.entries⟩ "type" InterfaceKind.ofTag? none)
  | .ownership => failure (Fields.choice ⟨.root, v.entries⟩ "ownership" Ownership.ofTag? none)
  | .aggregation => failure (Fields.choice ⟨.root, v.entries⟩ "aggregation" Aggregation.ofTag?
      (filled applyDefaults .individual))
  | .mappings => failure (Fields.mappingItems ⟨.root, v.entries⟩)
  | .mapping index test => (v.mapping? index).bind (test.fault? applyDefaults index ·)

variable {α β : Type} {applyDefaults : Bool} {source : Path} {v v' : Json} {cause : SchemaCause}

/-- A check finds nothing wrong if it has a result. -/
theorem failure_eq_none_iff {x : Check α} {Result : α → Prop} (h : ∀ {a}, x = .ok a ↔ Result a) :
    failure x = none ↔ ∃ a, Result a := by
  simp only [← h]
  cases x <;> simp [failure]

theorem failure_eq_some_iff {x : Check α} : failure x = some cause ↔ x = .error cause := by
  cases x <;> simp [failure]

/-- What comes after a check has a say only if the check succeeds. -/
theorem failure_bind {x : Check α} {next : α → Check β} {rest : Option SchemaCause}
    (h : ∀ a, x = .ok a → failure (next a) = rest) :
    failure (x >>= next) = (failure x).or rest := by
  cases x with
  | error cause => rfl
  | ok a => exact h a rfl

theorem failure_pure {a : α} : failure (pure a) = none := rfl

/-! ## Tests and what they ask for -/

theorem endpoint_eq_ok_iff {f : Fields} {s : String} :
    f.goodText "endpoint" isEndpoint .endpoint = .ok s ↔
      f.get? "endpoint" = some (.string s) ∧ IsEndpoint s := by
  unfold Fields.goodText
  simp only [bind_eq_ok_iff, unless_eq_ok_iff, pure_eq_ok_iff, text_eq_ok_iff, isEndpoint_iff]
  constructor
  · intro h
    obtain ⟨_, ⟨hs, _⟩, hend, rfl⟩ := h
    exact ⟨hs, hend⟩
  · intro h
    exact ⟨s, ⟨h.1, h.2.ne_empty⟩, h.2, rfl⟩

theorem ofJson_failure_eq_none_iff {place : Place} :
    failure (Fields.ofJson place v) = none ↔ v.isObject = true := by
  cases v <;> simp [Fields.ofJson, failure, Json.isObject]

theorem word_eq_ok_iff {f : Fields} {key : String} {ofTag? : String → Option α} {tag : α → String}
    (htag : ∀ {s a}, ofTag? s = some a ↔ tag a = s) {a : α} :
    f.choice key ofTag? none = .ok a ↔ f.get? key = some (.string (tag a)) := by
  rw [choice_eq_ok_iff htag, optional_none_iff]
  exact exists_eq_right

theorem optional_filled_iff {Means : Json → α → Prop} {w : Option Json} {a default : α} :
    Optional Means (fun a => filled applyDefaults default = some a) w a ↔
      Optional Means (fun a => applyDefaults = true ∧ a = default) w a := by
  simp only [filled_eq_some_iff]

theorem MappingTest.fault?_eq_none_iff {index : Nat} {item : Json} (t : MappingTest) :
    t.fault? applyDefaults index item = none ↔ t.Passes applyDefaults item := by
  cases t with
  | isObject => exact ofJson_failure_eq_none_iff
  | endpoint => exact failure_eq_none_iff endpoint_eq_ok_iff
  | type => exact failure_eq_none_iff (word_eq_ok_iff ValueType.ofTag?_eq_some_iff)
  | reliability => exact failure_eq_none_iff (reliability_eq_ok_iff.trans optional_filled_iff)
  | explicitTimestamp => exact failure_eq_none_iff (boolean_eq_ok_iff.trans optional_filled_iff)
  | allowUnset => exact failure_eq_none_iff (boolean_eq_ok_iff.trans optional_filled_iff)

theorem Test.fault?_eq_none_iff (t : Test) :
    t.fault? applyDefaults v = none ↔ t.Passes applyDefaults v := by
  cases t with
  | isObject => exact ofJson_failure_eq_none_iff
  | name => exact failure_eq_none_iff name_eq_ok_iff
  | versionMajor => exact failure_eq_none_iff version_eq_ok_iff
  | versionMinor => exact failure_eq_none_iff version_eq_ok_iff
  | type => exact failure_eq_none_iff (word_eq_ok_iff InterfaceKind.ofTag?_eq_some_iff)
  | ownership => exact failure_eq_none_iff (word_eq_ok_iff Ownership.ofTag?_eq_some_iff)
  | aggregation =>
    exact failure_eq_none_iff
      ((choice_eq_ok_iff Aggregation.ofTag?_eq_some_iff).trans optional_filled_iff)
  | mappings => exact failure_eq_none_iff mappingItems_eq_ok_iff
  | mapping index test =>
    show (v.mapping? index).bind _ = none ↔ _
    rw [Option.bind_eq_none_iff]
    exact forall₂_congr fun item _ => test.fault?_eq_none_iff

/-! ## Tests and what they look at -/

theorem Fields.Agree.boolean {f f' : Fields} {key : String} (h : f.Agree f' key)
    (default : Option Bool) : f'.boolean key default = f.boolean key default := by
  unfold Fields.boolean Fields.field
  rw [h.place, h.get?]

theorem Fields.Agree.reliability {f f' : Fields} (h : f.Agree f' "reliability")
    (default : Option Reliability) : f'.reliability default = f.reliability default := by
  unfold Fields.reliability Fields.field
  dsimp only
  rw [h.place, h.get?]

theorem Fields.Agree.goodText {f f' : Fields} {key : String} (h : f.Agree f' key)
    (good : String → Bool) (defect : Defect) :
    f'.goodText key good defect = f.goodText key good defect := by
  unfold Fields.goodText Fields.field
  rw [h.text, h.place]

theorem get?_eq_field? {place : Place} {key : String} :
    Fields.get? ⟨place, v.entries⟩ key = v.field? key := rfl

theorem agree_of_field {place : Place} {key : String} (h : v'.field? key = v.field? key) :
    Fields.Agree ⟨place, v.entries⟩ ⟨place, v'.entries⟩ key :=
  ⟨rfl, h⟩

theorem ofJson_failure_congr {place : Place} (h : v'.isObject = v.isObject) :
    failure (Fields.ofJson place v') = failure (Fields.ofJson place v) := by
  cases v <;> cases v' <;> first | rfl | cases h

/-- The long key has the name, or the short one if there is no long one. -/
theorem name_congr {place : Place} (hlong : v'.field? "interface_name" = v.field? "interface_name")
    (hshort : v.field? "interface_name" = none → v'.field? "name" = v.field? "name") :
    name ⟨place, v'.entries⟩ = name ⟨place, v.entries⟩ := by
  have hkey : Fields.nameKey ⟨place, v'.entries⟩ = Fields.nameKey ⟨place, v.entries⟩ := by
    show (if (v'.field? "interface_name").isNone && (v'.field? "name").isSome then _ else _) =
      if (v.field? "interface_name").isNone && (v.field? "name").isSome then _ else _
    rw [hlong]
    cases h : v.field? "interface_name" with
    | none => rw [hshort h]
    | some w => rfl
  rw [name_eq_goodText, name_eq_goodText, hkey]
  apply Fields.Agree.goodText
  apply agree_of_field
  unfold Fields.nameKey
  split
  · rename_i h
    rw [Bool.and_eq_true, Option.isNone_iff_eq_none] at h
    exact hshort h.1
  · exact hlong

theorem mappingItems_failure_eq (place : Place) (v : Json) :
    failure (Fields.mappingItems ⟨place, v.entries⟩) =
      match Listing.of (v.field? "mappings") with
      | .absent => some (.missingField ⟨place, "mappings"⟩)
      | .noArray => some (.wrongType ⟨place, "mappings"⟩ .array)
      | .empty => some .noMappings
      | .filled => none := by
  unfold Fields.mappingItems
  rw [get?_eq_field?]
  cases v.field? "mappings" with
  | none => rfl
  | some w =>
    cases w with
    | array items => cases items <;> rfl
    | _ => rfl

theorem MappingTest.fault?_congr {index : Nat} {item item' : Json} {t : MappingTest}
    (h : t.sees item' = t.sees item) :
    t.fault? applyDefaults index item' = t.fault? applyDefaults index item := by
  cases t with
  | isObject => exact ofJson_failure_congr (Sight.kind.inj h)
  | endpoint => exact congrArg failure ((agree_of_field (Sight.field.inj h)).goodText _ _)
  | type => exact congrArg failure (agree_of_field (Sight.field.inj h)).choice
  | reliability => exact congrArg failure ((agree_of_field (Sight.field.inj h)).reliability _)
  | explicitTimestamp => exact congrArg failure ((agree_of_field (Sight.field.inj h)).boolean _)
  | allowUnset => exact congrArg failure ((agree_of_field (Sight.field.inj h)).boolean _)

/-- What a test finds wrong depends on nothing but what it looks at. -/
theorem Test.fault?_congr {t : Test} (h : t.sees v' = t.sees v) :
    t.fault? applyDefaults v' = t.fault? applyDefaults v := by
  cases t with
  | isObject => exact ofJson_failure_congr (Sight.kind.inj (Option.some.inj h))
  | name =>
    obtain ⟨hlong, hshort⟩ := Sight.name.inj (Option.some.inj h)
    refine congrArg failure (name_congr hlong fun hnone => ?_)
    rw [hlong, hnone] at hshort
    exact hshort
  | versionMajor =>
    exact congrArg failure (agree_of_field (Sight.field.inj (Option.some.inj h))).version
  | versionMinor =>
    exact congrArg failure (agree_of_field (Sight.field.inj (Option.some.inj h))).version
  | type => exact congrArg failure (agree_of_field (Sight.field.inj (Option.some.inj h))).choice
  | ownership => exact congrArg failure (agree_of_field (Sight.field.inj (Option.some.inj h))).choice
  | aggregation => exact congrArg failure (agree_of_field (Sight.field.inj (Option.some.inj h))).choice
  | mappings =>
    unfold fault?
    rw [mappingItems_failure_eq, mappingItems_failure_eq, Sight.listing.inj (Option.some.inj h)]
  | mapping index test =>
    have hitems : (v'.mapping? index).map (test.sees ·) = (v.mapping? index).map (test.sees ·) := h
    show (v'.mapping? index).bind _ = (v.mapping? index).bind _
    cases hitem : v.mapping? index with
    | none =>
      rw [hitem, Option.map_none, Option.map_eq_none_iff] at hitems
      rw [hitems]
    | some item =>
      rw [hitem, Option.map_some, Option.map_eq_some_iff] at hitems
      obtain ⟨item', hitem', hsees⟩ := hitems
      rw [hitem']
      exact MappingTest.fault?_congr hsees

/-! ## Tests and what their errors name -/

section Locations

variable {f : Fields} {key : String}

theorem location_of_text (h : f.text key = .error cause) :
    cause.location? = some (f.field key).text := by
  unfold Fields.text at h
  split at h
  · cases h
    rfl
  · split at h
    · cases h
      rfl
    · cases h
  · cases h
    rfl

theorem location_of_goodText {good : String → Bool} {defect : Defect}
    (h : f.goodText key good defect = .error cause) : cause.location? = some (f.field key).text := by
  unfold Fields.goodText at h
  cases htext : f.text key with
  | error e =>
    rw [htext] at h
    cases h
    exact location_of_text htext
  | ok s =>
    rw [htext, ok_bind] at h
    split at h
    · cases h
    · cases h
      rfl

theorem location_of_boolean {default : Option Bool} (h : f.boolean key default = .error cause) :
    cause.location? = some (f.field key).text := by
  unfold Fields.boolean at h
  split at h
  · cases h
  · cases h
    rfl
  · cases h
  · cases h
    rfl

theorem location_of_version (h : f.version key = .error cause) :
    cause.location? = some (f.field key).text := by
  unfold Fields.version at h
  split at h
  · cases h
    rfl
  · split at h
    · cases h
    · cases h
      rfl
  · cases h
    rfl

theorem location_of_choice {ofTag? : String → Option α} {default : Option α}
    (h : f.choice key ofTag? default = .error cause) :
    cause.location? = some (f.field key).text := by
  unfold Fields.choice at h
  split at h
  · cases h
  · cases h
    rfl
  · split at h
    · cases h
    · cases h
      rfl
  · cases h
    rfl

theorem location_of_reliability {default : Option Reliability}
    (h : f.reliability default = .error cause) :
    cause.location? = some (f.field "reliability").text := by
  unfold Fields.reliability at h
  dsimp only at h
  split at h
  · cases h
  · cases h
    rfl
  · split at h
    · cases h
    · cases h
      rfl
  · cases h
    rfl
  · split at h
    · cases h
    · cases h
      rfl
  · cases h
    rfl

theorem location_of_mappingItems (h : f.mappingItems = .error cause) :
    cause.location? = some (f.field "mappings").text ∨ cause = .noMappings := by
  unfold Fields.mappingItems at h
  split at h
  · cases h
    exact Or.inl rfl
  · cases h
    exact Or.inr rfl
  · cases h
  · cases h
    exact Or.inl rfl

theorem location_of_ofJson {place : Place} (h : Fields.ofJson place v = .error cause) :
    cause.location? = some place.text := by
  cases v <;> cases h <;> rfl

end Locations

theorem text_of_mapping_field (index : Nat) {key suffix : String} (h : "." ++ key = suffix) :
    (Field.mk (.mapping index) key).text = "mappings[" ++ toString index ++ "]" ++ suffix := by
  show "mappings[" ++ toString index ++ "]" ++ "." ++ key = _
  rw [String.append_assoc, h]

theorem MappingTest.location_of_fault? {index : Nat} {item : Json} {t : MappingTest}
    (h : t.fault? applyDefaults index item = some cause) :
    cause.location? = some ("mappings[" ++ toString index ++ "]" ++ t.suffix) := by
  cases t with
  | isObject =>
    rw [location_of_ofJson (failure_eq_some_iff.mp h)]
    exact congrArg some (String.append_empty ..).symm
  | endpoint =>
    rw [location_of_goodText (failure_eq_some_iff.mp h)]
    exact congrArg some (text_of_mapping_field index rfl)
  | type =>
    rw [location_of_choice (failure_eq_some_iff.mp h)]
    exact congrArg some (text_of_mapping_field index rfl)
  | reliability =>
    rw [location_of_reliability (failure_eq_some_iff.mp h)]
    exact congrArg some (text_of_mapping_field index rfl)
  | explicitTimestamp =>
    rw [location_of_boolean (failure_eq_some_iff.mp h)]
    exact congrArg some (text_of_mapping_field index rfl)
  | allowUnset =>
    rw [location_of_boolean (failure_eq_some_iff.mp h)]
    exact congrArg some (text_of_mapping_field index rfl)

theorem nameKey_eq (v : Json) : Fields.nameKey ⟨.root, v.entries⟩ = nameKey v := by
  show (if (v.field? "interface_name").isNone && (v.field? "name").isSome then _ else _) = _
  unfold nameKey
  cases v.field? "interface_name" with
  | some w => rfl
  | none => cases v.field? "name" <;> rfl

/-- An error names what was tested. Only a list of mappings that is empty is not named. -/
theorem Test.location_of_fault? {t : Test} (h : t.fault? applyDefaults v = some cause) :
    cause.location? = some (t.location v) ∨ (t = .mappings ∧ cause = .noMappings) := by
  cases t with
  | isObject => exact Or.inl (location_of_ofJson (failure_eq_some_iff.mp h))
  | name =>
    refine Or.inl ((location_of_goodText (failure_eq_some_iff.mp h)).trans ?_)
    exact congrArg some (nameKey_eq v)
  | versionMajor => exact Or.inl (location_of_version (failure_eq_some_iff.mp h))
  | versionMinor => exact Or.inl (location_of_version (failure_eq_some_iff.mp h))
  | type => exact Or.inl (location_of_choice (failure_eq_some_iff.mp h))
  | ownership => exact Or.inl (location_of_choice (failure_eq_some_iff.mp h))
  | aggregation => exact Or.inl (location_of_choice (failure_eq_some_iff.mp h))
  | mappings =>
    cases location_of_mappingItems (failure_eq_some_iff.mp h) with
    | inl hlocation => exact Or.inl hlocation
    | inr hempty => exact Or.inr ⟨rfl, hempty⟩
  | mapping index test =>
    obtain ⟨item, _, hfault⟩ := Option.bind_eq_some_iff.mp h
    exact Or.inl (MappingTest.location_of_fault? hfault)

/-! ## The first test that fails -/

def MappingTest.all : List MappingTest :=
  [.isObject, .endpoint, .type, .reliability, .explicitTimestamp, .allowUnset]

/-- The tests of a document with so many mappings. -/
def Test.upTo (count : Nat) : List Test :=
  [.isObject, .name, .versionMajor, .versionMinor, .type, .ownership, .aggregation, .mappings] ++
    (List.range count).flatMap fun index => MappingTest.all.map (.mapping index)

instance (t t' : Test) : Decidable (t.Before t') :=
  inferInstanceAs (Decidable (_ ∨ _))

theorem MappingTest.mem_all (t : MappingTest) : t ∈ all := by
  cases t <;> decide

theorem Test.mem_upTo_iff {count : Nat} {t : Test} :
    t ∈ upTo count ↔ ∀ index test, t = .mapping index test → index < count := by
  unfold upTo
  cases t with
  | mapping index test => simp [MappingTest.mem_all]
  | _ => simp

theorem Test.pairwise_upTo (count : Nat) : (upTo count).Pairwise Before := by
  unfold upTo
  rw [List.pairwise_append, List.pairwise_flatMap]
  refine ⟨by decide, ⟨?_, ?_⟩, ?_⟩
  · intro index _
    rw [List.pairwise_map]
    have hranks : MappingTest.all.Pairwise fun t t' => t.rank < t'.rank := by decide
    exact hranks.imp fun hrank => Or.inr ⟨rfl, hrank⟩
  · refine List.pairwise_lt_range.imp ?_
    intro index index' hlt t ht t' ht'
    obtain ⟨test, _, rfl⟩ := List.mem_map.mp ht
    obtain ⟨test', _, rfl⟩ := List.mem_map.mp ht'
    exact Or.inl (Nat.succ_lt_succ hlt)
  · intro t ht t' ht'
    obtain ⟨index, _, htest⟩ := List.mem_flatMap.mp ht'
    obtain ⟨test, _, rfl⟩ := List.mem_map.mp htest
    have hfirst : t.position.1 = 0 := by
      revert t
      decide
    refine Or.inl ?_
    rw [hfirst]
    exact Nat.succ_pos index

theorem Test.Before.asymm {t t' : Test} (h : t.Before t') : ¬ t'.Before t := by
  unfold Before at *
  omega

/-- Searching the tests in their order finds the one that no failing test comes before. -/
theorem Test.findSome?_upTo_eq_some_iff {count : Nat} {fault? : Test → Option SchemaCause}
    (hmem : ∀ t, fault? t ≠ none → t ∈ upTo count) :
    (upTo count).findSome? fault? = some cause ↔
      ∃ t, fault? t = some cause ∧ ∀ t', t'.Before t → fault? t' = none := by
  have hsorted := pairwise_upTo count
  rw [List.findSome?_eq_some_iff]
  constructor
  · intro h
    obtain ⟨front, t, rest, hsplit, hfault, hfront⟩ := h
    refine ⟨t, hfault, fun t' hbefore => ?_⟩
    by_contra hfault'
    have ht' := hmem t' hfault'
    rw [hsplit] at hsorted ht'
    have hrest := (List.pairwise_cons.mp (List.pairwise_append.mp hsorted).2.1).1
    cases List.mem_append.mp ht' with
    | inl hin => exact hfault' (hfront t' hin)
    | inr hin =>
      cases List.mem_cons.mp hin with
      | inl heq => exact (heq ▸ hbefore).asymm (heq ▸ hbefore)
      | inr hafter => exact (hrest t' hafter).asymm hbefore
  · intro h
    obtain ⟨t, hfault, hbefore⟩ := h
    obtain ⟨front, rest, hsplit⟩ := List.append_of_mem (hmem t (by simp [hfault]))
    refine ⟨front, t, rest, hsplit, hfault, fun t' ht' => hbefore t' ?_⟩
    rw [hsplit] at hsorted
    exact (List.pairwise_append.mp hsorted).2.2 t' ht' t (List.mem_cons_self ..)

theorem findSome?_cons_eq_or {f : α → Option β} {a : α} {as : List α} :
    (a :: as).findSome? f = (f a).or (as.findSome? f) := by
  rw [List.findSome?_cons]
  cases f a <;> rfl

theorem mapping_eq_bind (applyDefaults : Bool) (f : Fields) :
    mapping applyDefaults f = do
      let endpoint ← f.goodText "endpoint" isEndpoint .endpoint
      let type ← f.choice "type" ValueType.ofTag? none
      let reliability ← f.reliability (filled applyDefaults .unreliable)
      let explicitTimestamp ← f.boolean "explicit_timestamp" (filled applyDefaults false)
      let allowUnset ← f.boolean "allow_unset" (filled applyDefaults false)
      return { endpoint, type, reliability, explicitTimestamp, allowUnset } := by
  unfold mapping Fields.goodText
  cases f.text "endpoint" with
  | error cause => rfl
  | ok s =>
    simp only [ok_bind]
    cases isEndpoint s <;> rfl

theorem failure_ofJson_bind {place : Place} {next : Fields → Check α} :
    failure (Fields.ofJson place v >>= next) =
      (failure (Fields.ofJson place v)).or (failure (next ⟨place, v.entries⟩)) := by
  cases v <;> rfl

/-- The tests of one mapping are made one after the other. -/
theorem failure_mapping (index : Nat) (item : Json) :
    failure (Fields.ofJson (.mapping index) item >>= mapping applyDefaults) =
      MappingTest.all.findSome? (MappingTest.fault? applyDefaults index item) := by
  rw [failure_ofJson_bind, mapping_eq_bind, failure_bind fun _ _ => failure_bind fun _ _ =>
    failure_bind fun _ _ => failure_bind fun _ _ => failure_bind fun _ _ => failure_pure]
  simp only [MappingTest.all, findSome?_cons_eq_or, List.findSome?_nil]
  rfl

/-- The mappings of a list are tested one after the other. -/
theorem failure_mappings (index : Nat) (items : List Json) :
    failure (mappings applyDefaults index items) = (items.zipIdx index).findSome? fun x =>
      MappingTest.all.findSome? (MappingTest.fault? applyDefaults x.2 x.1) := by
  induction items generalizing index with
  | nil => rfl
  | cons item rest ih =>
    have hassoc : mappings applyDefaults index (item :: rest) =
        (Fields.ofJson (.mapping index) item >>= mapping applyDefaults) >>= fun m =>
          mappings applyDefaults (index + 1) rest >>= fun ms => pure (m :: ms) := by
      rw [mappings, bind_assoc]
    rw [hassoc, failure_bind fun _ _ => failure_bind fun _ _ => failure_pure, failure_mapping, ih,
      List.zipIdx_cons, findSome?_cons_eq_or, Option.or_none]

theorem listed_of_mappingItems {place : Place} {items : List Json}
    (h : Fields.mappingItems ⟨place, v.entries⟩ = .ok items) : v.listed = items := by
  have hfield : v.field? "mappings" = some (.array items) := (mappingItems_eq_ok_iff.mp h).1
  unfold Json.listed
  rw [hfield]

/-- A test of the mapping at some position is made on the item that is listed there. -/
theorem findSome?_mapping_tests {xs : List (Json × Nat)} (hxs : ∀ x ∈ xs, v.mapping? x.2 = some x.1) :
    (xs.flatMap fun x => MappingTest.all.map (.mapping x.2)).findSome? (Test.fault? applyDefaults v) =
      xs.findSome? fun x => MappingTest.all.findSome? (MappingTest.fault? applyDefaults x.2 x.1) := by
  induction xs with
  | nil => rfl
  | cons x xs ih =>
    have hitem : Test.fault? applyDefaults v ∘ Test.mapping x.2 =
        MappingTest.fault? applyDefaults x.2 x.1 := by
      funext test
      show (v.mapping? x.2).bind _ = _
      rw [hxs x (List.mem_cons_self ..)]
      rfl
    rw [List.flatMap_cons, List.findSome?_append, List.findSome?_map, hitem, findSome?_cons_eq_or,
      ih fun y hy => hxs y (List.mem_cons_of_mem x hy)]

theorem findSome?_upTo_length :
    (Test.upTo v.listed.length).findSome? (Test.fault? applyDefaults v) =
      ([.isObject, .name, .versionMajor, .versionMinor, .type, .ownership, .aggregation,
        .mappings].findSome? (Test.fault? applyDefaults v)).or
      (v.listed.zipIdx.findSome? fun x =>
        MappingTest.all.findSome? (MappingTest.fault? applyDefaults x.2 x.1)) := by
  have hrange : List.range v.listed.length = v.listed.zipIdx.map Prod.snd := by
    rw [List.zipIdx_map_snd, List.range_eq_range']
  rw [Test.upTo, List.findSome?_append, hrange, List.flatMap_map, findSome?_mapping_tests]
  intro x hx
  exact List.mem_zipIdx_iff_getElem?.mp hx

theorem failure_document (applyDefaults : Bool) (source : Path) (v : Json) :
    failure (document applyDefaults source v) =
      (Test.upTo v.listed.length).findSome? (Test.fault? applyDefaults v) := by
  have hmappings : ∀ items, Fields.mappingItems ⟨.root, v.entries⟩ = .ok items →
      failure (mappings applyDefaults 0 items) = v.listed.zipIdx.findSome? fun x =>
        MappingTest.all.findSome? (MappingTest.fault? applyDefaults x.2 x.1) := by
    intro items hitems
    rw [failure_mappings, listed_of_mappingItems hitems]
  unfold document
  rw [failure_ofJson_bind, failure_bind fun _ _ => failure_bind fun _ _ => failure_bind fun _ _ =>
    failure_bind fun _ _ => failure_bind fun _ _ => failure_bind fun _ _ =>
    failure_bind fun items hitems => (failure_bind fun _ _ => failure_pure).trans
      (by rw [hmappings items hitems])]
  rw [findSome?_upTo_length]
  simp only [findSome?_cons_eq_or, List.findSome?_nil, Option.or_assoc, Option.or_none]
  rfl

theorem Test.mem_upTo_of_fault? {t : Test} (h : t.fault? applyDefaults v ≠ none) :
    t ∈ upTo v.listed.length := by
  rw [mem_upTo_iff]
  intro index test ht
  subst ht
  by_contra hcount
  have hnone : v.mapping? index = none := List.getElem?_eq_none (Nat.le_of_not_lt hcount)
  apply h
  show (v.mapping? index).bind _ = none
  rw [hnone]
  rfl

/-- A value is refused with the error of the first test that it fails. -/
theorem document_eq_error_iff :
    document applyDefaults source v = .error cause ↔
      ∃ t : Test, t.fault? applyDefaults v = some cause ∧
        ∀ t' : Test, t'.Before t → t'.fault? applyDefaults v = none := by
  rw [← failure_eq_some_iff, failure_document]
  exact Test.findSome?_upTo_eq_some_iff fun _ => Test.mem_upTo_of_fault?

theorem exists_document_eq_error {t : Test} (h : t.fault? applyDefaults v ≠ none) :
    ∃ cause, document applyDefaults source v = .error cause := by
  have hfailure : failure (document applyDefaults source v) ≠ none := by
    rw [failure_document, Ne, List.findSome?_eq_none_iff]
    intro hall
    exact h (hall t (Test.mem_upTo_of_fault? h))
  obtain ⟨cause, hcause⟩ := Option.ne_none_iff_exists'.mp hfailure
  exact ⟨cause, failure_eq_some_iff.mp hcause⟩

/-- Whatever comes after the test that decides has no say. -/
theorem document_error_congr {t : Test} (hfault : t.fault? applyDefaults v = some cause)
    (hfirst : ∀ t' : Test, t'.Before t → t'.fault? applyDefaults v = none)
    (hsees : ∀ t' : Test, t' = t ∨ t'.Before t → t'.sees v' = t'.sees v) :
    document applyDefaults source v' = .error cause := by
  rw [document_eq_error_iff]
  refine ⟨t, ?_, fun t' hbefore => ?_⟩
  · rw [Test.fault?_congr (hsees t (Or.inl rfl)), hfault]
  · rw [Test.fault?_congr (hsees t' (Or.inr hbefore)), hfirst t' hbefore]

/-! ## Fields that are recognised -/

def rootKeys : List String :=
  ["interface_name", "name", "version_major", "version_minor", "type", "ownership", "aggregation"]

def mappingKeys : List String :=
  ["endpoint", "type", "reliability", "explicit_timestamp", "allow_unset"]

/-- Both values are objects that agree on some keys, or neither is an object. -/
structure SameFields (keys : List String) (v v' : Json) : Prop where
  isObject : v'.isObject = v.isObject
  field? : ∀ key ∈ keys, v'.field? key = v.field? key

/-- Both lists of mappings agree on what is recognised in each mapping. Where there is no list, nothing
is recognised. -/
inductive SameMappings : Option Json → Option Json → Prop where
  | absent : SameMappings none none
  | array {items items' : List Json} (h : List.Forall₂ (SameFields mappingKeys) items items') :
      SameMappings (some (.array items)) (some (.array items'))
  | noArray {w w' : Json} (h : w.isArray = false) (h' : w'.isArray = false) :
      SameMappings (some w) (some w')

/-- Both values agree on all that is recognised. -/
structure SameRecognised (v v' : Json) : Prop where
  root : SameFields rootKeys v v'
  mappings : SameMappings (v.field? "mappings") (v'.field? "mappings")

theorem SameFields.agree {keys : List String} {key : String} (h : SameFields keys v v')
    (hkey : key ∈ keys) (place : Place) :
    Fields.Agree ⟨place, v.entries⟩ ⟨place, v'.entries⟩ key :=
  agree_of_field (h.field? key hkey)

theorem ofJson_bind_congr {place : Place} {next : Fields → Check α} (h : v'.isObject = v.isObject)
    (hnext : next ⟨place, v'.entries⟩ = next ⟨place, v.entries⟩) :
    (Fields.ofJson place v' >>= next) = Fields.ofJson place v >>= next := by
  cases v <;> cases v' <;> first | rfl | exact hnext | cases h

theorem SameFields.mapping {index : Nat} {item item' : Json} (h : SameFields mappingKeys item item') :
    (Fields.ofJson (.mapping index) item' >>= Schema.mapping applyDefaults) =
      Fields.ofJson (.mapping index) item >>= Schema.mapping applyDefaults := by
  have hagree : ∀ key ∈ mappingKeys,
      Fields.Agree ⟨.mapping index, item.entries⟩ ⟨.mapping index, item'.entries⟩ key :=
    fun key hkey => h.agree hkey (.mapping index)
  have hendpoint := (hagree "endpoint" (by decide)).goodText isEndpoint .endpoint
  have htype : Fields.choice ⟨.mapping index, item'.entries⟩ "type" ValueType.ofTag? none =
      Fields.choice ⟨.mapping index, item.entries⟩ "type" ValueType.ofTag? none :=
    (hagree "type" (by decide)).choice
  have hreliability := (hagree "reliability" (by decide)).reliability (filled applyDefaults .unreliable)
  have htimestamp := (hagree "explicit_timestamp" (by decide)).boolean (filled applyDefaults false)
  have hunset := (hagree "allow_unset" (by decide)).boolean (filled applyDefaults false)
  apply ofJson_bind_congr h.isObject
  simp only [mapping_eq_bind, hendpoint, htype, hreliability, htimestamp, hunset]

theorem mappings_congr {items items' : List Json}
    (h : List.Forall₂ (SameFields mappingKeys) items items') (index : Nat) :
    mappings applyDefaults index items' = mappings applyDefaults index items := by
  induction h generalizing index with
  | nil => rfl
  | cons hitem _ ih =>
    simp only [mappings, ← bind_assoc]
    rw [hitem.mapping, ih]

theorem SameMappings.bind_congr {place : Place} {next : List Mapping → Check α}
    (h : SameMappings (v.field? "mappings") (v'.field? "mappings")) :
    (Fields.mappingItems ⟨place, v'.entries⟩ >>= fun items =>
        mappings applyDefaults 0 items >>= next) =
      Fields.mappingItems ⟨place, v.entries⟩ >>= fun items =>
        mappings applyDefaults 0 items >>= next := by
  unfold Fields.mappingItems
  rw [get?_eq_field?, get?_eq_field?]
  generalize v.field? "mappings" = w at h
  generalize v'.field? "mappings" = w' at h
  cases h with
  | absent => rfl
  | array hall =>
    cases hall with
    | nil => rfl
    | cons hitem hrest =>
      simp only [ok_bind, mappings_congr (.cons hitem hrest)]
  | @noArray w w' h h' =>
    cases w with
    | array items => cases h
    | _ =>
      cases w' with
      | array items => cases h'
      | _ => rfl

/-- Values that agree on all that is recognised give the same document or the same error. -/
theorem SameRecognised.document_eq (h : SameRecognised v v') :
    document applyDefaults source v' = document applyDefaults source v := by
  have hagree : ∀ key ∈ rootKeys, Fields.Agree ⟨.root, v.entries⟩ ⟨.root, v'.entries⟩ key :=
    fun key hkey => h.root.agree hkey .root
  have hname : name ⟨.root, v'.entries⟩ = name ⟨.root, v.entries⟩ :=
    name_congr (h.root.field? _ (by decide)) fun _ => h.root.field? _ (by decide)
  have hmajor := (hagree "version_major" (by decide)).version
  have hminor := (hagree "version_minor" (by decide)).version
  have hkind : Fields.choice ⟨.root, v'.entries⟩ "type" InterfaceKind.ofTag? none =
      Fields.choice ⟨.root, v.entries⟩ "type" InterfaceKind.ofTag? none :=
    (hagree "type" (by decide)).choice
  have howner : Fields.choice ⟨.root, v'.entries⟩ "ownership" Ownership.ofTag? none =
      Fields.choice ⟨.root, v.entries⟩ "ownership" Ownership.ofTag? none :=
    (hagree "ownership" (by decide)).choice
  have haggregation : Fields.choice ⟨.root, v'.entries⟩ "aggregation" Aggregation.ofTag?
      (filled applyDefaults .individual) = Fields.choice ⟨.root, v.entries⟩ "aggregation"
      Aggregation.ofTag? (filled applyDefaults .individual) :=
    (hagree "aggregation" (by decide)).choice
  unfold document
  apply ofJson_bind_congr h.root.isObject
  simp only [hname, hmajor, hminor, hkind, howner, haggregation, h.mappings.bind_congr]

end Schema

section

variable {applyDefaults : Bool} {source : Path} {text : String} {v : Json} {e : SchemaError}

theorem Document.parse_of_json (h : Json.parse text = .ok v) :
    Document.parse applyDefaults source text =
      (Schema.document applyDefaults source v).mapError (SchemaError.mk source) := by
  unfold Document.parse
  rw [h]
  dsimp only
  cases Schema.document applyDefaults source v <;> rfl

theorem Document.parse_eq_error_iff (h : Json.parse text = .ok v) :
    Document.parse applyDefaults source text = .error e ↔
      e.path = source ∧ Schema.document applyDefaults source v = .error e.cause := by
  rw [Document.parse_of_json h]
  cases Schema.document applyDefaults source v with
  | ok d => simp [Except.mapError]
  | error cause =>
    obtain ⟨path, cause'⟩ := e
    simp [Except.mapError, eq_comm]

/-- What is read of a value depends only on what is recognised. If it is refused, there is a first test
that it fails: the error names what was tested there, and any value that looks the same to this test and
to those before it is refused with the same error. A value that fails some test is refused. -/
theorem Document.parse_reports_first_violation (applyDefaults : Bool) (source : Path)
    (hv : Json.parse text = .ok v) :
    (∀ text' v', Json.parse text' = .ok v' → Schema.SameRecognised v v' →
      Document.parse applyDefaults source text' = Document.parse applyDefaults source text) ∧
    (∀ e, Document.parse applyDefaults source text = .error e →
      e.path = source ∧
      ∃ t : Schema.Test, ¬ t.Passes applyDefaults v ∧
        (∀ t' : Schema.Test, t'.Before t → t'.Passes applyDefaults v) ∧
        (e.cause.location? = some (t.location v) ∨ (t = .mappings ∧ e.cause = .noMappings)) ∧
        ∀ text' v', Json.parse text' = .ok v' →
          (∀ t' : Schema.Test, t' = t ∨ t'.Before t → t'.sees v' = t'.sees v) →
          Document.parse applyDefaults source text' = .error e) ∧
    ∀ t : Schema.Test, ¬ t.Passes applyDefaults v →
      ∃ e, Document.parse applyDefaults source text = .error e := by
  refine ⟨?_, ?_, ?_⟩
  · intro text' v' hv' hsame
    rw [Document.parse_of_json hv, Document.parse_of_json hv', hsame.document_eq]
  · intro e he
    obtain ⟨hpath, hcause⟩ := (Document.parse_eq_error_iff hv).mp he
    obtain ⟨t, hfault, hfirst⟩ := Schema.document_eq_error_iff.mp hcause
    refine ⟨hpath, t, ?_, ?_, Schema.Test.location_of_fault? hfault, ?_⟩
    · rw [← Schema.Test.fault?_eq_none_iff, hfault]
      simp
    · intro t' hbefore
      rw [← Schema.Test.fault?_eq_none_iff]
      exact hfirst t' hbefore
    · intro text' v' hv' hsees
      rw [Document.parse_eq_error_iff hv']
      exact ⟨hpath, Schema.document_error_congr hfault hfirst hsees⟩
  · intro t ht
    rw [← Schema.Test.fault?_eq_none_iff] at ht
    obtain ⟨cause, hcause⟩ := Schema.exists_document_eq_error ht
    exact ⟨⟨source, cause⟩, (Document.parse_eq_error_iff hv).mpr ⟨rfl, hcause⟩⟩

end

namespace OneMapping

open Json

/-- The text of a document with one mapping and a remark, which is not recognised. -/
def remarkedText (name endpoint : String) : String :=
  String.ofList (objectText (stringMember "name" name)
    (moreMembers endpoint ++ [stringMember "doc" "remark"]))

theorem parse_remarkedText {name endpoint : String} (hn : Plain name) (he : Plain endpoint) :
    Json.parse (remarkedText name endpoint) =
      .ok (.object (fields name endpoint ++ [("doc", .string "remark")])) := by
  have hname : Plain "name" := .literal (by decide)
  have hremark : ∀ fuel, ∀ m ∈ moreMembers endpoint ++ [stringMember "doc" "remark"],
      m.Read (readValue (fuel + 6) 126) := by
    intro fuel m hm
    cases List.mem_append.mp hm with
    | inl hmore => exact read_moreMembers he m hmore
    | inr hdoc =>
      rw [List.mem_singleton.mp hdoc]
      exact read_stringMember (.literal (by decide)) (.literal (by decide))
  have hparse := parse_object (fun _ => read_stringMember hname hn) hremark
  have hfields : (moreMembers endpoint ++ [stringMember "doc" "remark"]).foldl Member.put
      ((stringMember "name" name).put []) = fields name endpoint ++ [("doc", .string "remark")] := by
    simp [moreMembers, stringMember, Member.put, putField, fields]
  rw [remarkedText, hparse, hfields]

theorem sameRecognised_remarked (name endpoint : String) :
    Schema.SameRecognised (.object (fields name endpoint))
      (.object (fields name endpoint ++ [("doc", .string "remark")])) := by
  refine ⟨⟨rfl, ?_⟩, .array (.cons ⟨rfl, fun _ _ => rfl⟩ .nil)⟩
  intro key hkey
  simp only [Schema.rootKeys, List.mem_cons, List.not_mem_nil, or_false] at hkey
  obtain rfl | rfl | rfl | rfl | rfl | rfl | rfl := hkey <;> rfl

end OneMapping

/-- A name that starts with a digit is refused under its short key. A remark, another endpoint and fields
that are filled in make no difference. -/
theorem Document.parse_text_one_reports_name :
    Json.parse (OneMapping.text "1" "/v") = .ok (.object (OneMapping.fields "1" "/v")) ∧
    Document.parse true "a.json" (OneMapping.remarkedText "1" "/v") =
      Document.parse true "a.json" (OneMapping.text "1" "/v") ∧
    ∃ e, Document.parse true "a.json" (OneMapping.text "1" "/v") = .error e ∧
      e.path = "a.json" ∧ e.cause.location? = some "name" ∧
      Document.parse true "a.json" (OneMapping.completeText "1" "v") = .error e := by
  have hone : Json.Plain "1" := .literal (by decide)
  have hslash : Json.Plain "/v" := .literal (by decide)
  have hv := OneMapping.parse_text hone hslash
  obtain ⟨hsame, hfirst, hrefused⟩ := Document.parse_reports_first_violation true "a.json" hv
  have hname : ¬ Schema.Test.Passes true (.object (OneMapping.fields "1" "/v")) .name := by
    rw [← Schema.Test.fault?_eq_none_iff]
    exact nofun
  obtain ⟨e, he⟩ := hrefused .name hname
  obtain ⟨hpath, t, hfails, hbefore, hlocation, hcongr⟩ := hfirst e he
  have ht : t = .name := by
    cases t with
    | isObject => exact absurd rfl hfails
    | name => rfl
    | mapping index test => exact absurd (hbefore .name (Or.inl (Nat.succ_pos index))) hname
    | _ => exact absurd (hbefore .name (by decide)) hname
  subst ht
  refine ⟨hv, ?_, e, he, hpath, hlocation.resolve_right nofun, ?_⟩
  · exact hsame _ _ (OneMapping.parse_remarkedText hone hslash)
      (OneMapping.sameRecognised_remarked "1" "/v")
  · refine hcongr _ _ (OneMapping.parse_completeText hone (.literal (by decide))) ?_
    intro t' ht'
    cases t' with
    | isObject => rfl
    | name => rfl
    | mapping index test => exact absurd ht' (by simp [Schema.Test.Before, Schema.Test.position])
    | _ => exact absurd ht' (by decide)

/-- The text of a document whose list of mappings is empty. -/
def noMappingsText : String :=
  "\x7b\"name\":\"n\",\"version_major\":0,\"version_minor\":1,\"type\":\"datastream\"," ++
    "\"ownership\":\"device\",\"mappings\":[]\x7d"

/-- An error need not name the field that was tested: that there are no mappings is told without it. -/
theorem Document.empty_mappings_named_nowhere :
    ¬ ∀ (applyDefaults : Bool) (source : Path) (text : String) (v : Json) (e : SchemaError),
      Json.parse text = .ok v → Document.parse applyDefaults source text = .error e →
      ∃ t : Schema.Test, ¬ t.Passes applyDefaults v ∧ e.cause.location? = some (t.location v) := by
  intro h
  have herror : Document.parse true "a.json" noMappingsText = .error ⟨"a.json", .noMappings⟩ := by
    decide +kernel
  cases hv : Json.parse noMappingsText with
  | error fault =>
    have hunread : Document.parse true "a.json" noMappingsText = .error ⟨"a.json", .notJson fault⟩ := by
      simp only [Document.parse, hv]
    cases herror.symm.trans hunread
  | ok v =>
    obtain ⟨t, -, hnamed⟩ := h true "a.json" noMappingsText v _ hv herror
    cases hnamed

end InterfaceTables
