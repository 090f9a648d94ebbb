import InterfaceTables.Proofs.AcceptedNames

/-!
Reading with defaults. A value is read with defaults as its completed form is read without them, down
to the error that comes first; where nothing is missing, defaults change nothing.
-/

namespace InterfaceTables

namespace Schema

/-! ## Completed values -/

/-- The fields of an object with one more at the end, if there is none of that key. -/
def withDefault (key : String) (value : Json) (entries : List (String × Json)) :
    List (String × Json) :=
  if (entries.lookup key).isNone then entries ++ [(key, value)] else entries

def completeMappingFields (entries : List (String × Json)) : List (String × Json) :=
  withDefault "allow_unset" (.boolean false)
    (withDefault "explicit_timestamp" (.boolean false)
      (withDefault "reliability" (.string "unreliable") entries))

def completeMapping : Json → Json
  | .object entries => .object (completeMappingFields entries)
  | v => v

def completeMappings : Json → Json
  | .array items => .array (items.map completeMapping)
  | v => v

def completeEntry (entry : String × Json) : String × Json :=
  (entry.1, if entry.1 = "mappings" then completeMappings entry.2 else entry.2)

def completeFields (entries : List (String × Json)) : List (String × Json) :=
  withDefault "aggregation" (.string "individual") (entries.map completeEntry)

/-- The value with all that the schema has defaults for. -/
def complete : Json → Json
  | .object entries => .object (completeFields entries)
  | v => v

variable {key other : String} {value : Json} {entries : List (String × Json)}

theorem lookup_withDefault_self :
    (withDefault key value entries).lookup key = some ((entries.lookup key).getD value) := by
  unfold withDefault
  cases h : entries.lookup key with
  | none => simp [List.lookup_append, h]
  | some v => simp [h]

theorem lookup_withDefault_of_ne (hne : other ≠ key) :
    (withDefault key value entries).lookup other = entries.lookup other := by
  unfold withDefault
  split
  · simp [List.lookup_append, List.lookup_cons, beq_eq_false_iff_ne.mpr hne]
  · rfl

theorem lookup_map_completeEntry (entries : List (String × Json)) (key : String) :
    (entries.map completeEntry).lookup key =
      (entries.lookup key).map fun v => if key = "mappings" then completeMappings v else v := by
  induction entries with
  | nil => rfl
  | cons entry rest ih =>
    obtain ⟨k, v⟩ := entry
    by_cases hk : key = k
    · subst hk
      simp [completeEntry]
    · have hbeq : (key == k) = false := beq_eq_false_iff_ne.mpr hk
      simp only [List.map_cons, completeEntry, List.lookup_cons, hbeq]
      exact ih

/-! ## Checks of two objects -/

variable {f f' : Fields}

/-- Objects at one place have a field in common, or both lack it. -/
structure Fields.Agree (f f' : Fields) (key : String) : Prop where
  place : f'.place = f.place
  get? : f'.get? key = f.get? key

/-- The second object has a field as the first, or with the given value where the first lacks it. -/
structure Fields.Fills (f f' : Fields) (key : String) (value : Json) : Prop where
  place : f'.place = f.place
  get? : f'.get? key = some ((f.get? key).getD value)

theorem Fields.Agree.text (h : f.Agree f' key) : f'.text key = f.text key := by
  unfold Fields.text Fields.field
  rw [h.place, h.get?]

theorem Fields.Agree.version (h : f.Agree f' key) : f'.version key = f.version key := by
  unfold Fields.version Fields.field
  rw [h.place, h.get?]

theorem Fields.Agree.choice {α : Type} {ofTag? : String → Option α} {default : Option α}
    (h : f.Agree f' key) : f'.choice key ofTag? default = f.choice key ofTag? default := by
  unfold Fields.choice Fields.field
  rw [h.place, h.get?]

theorem Fields.Fills.boolean {b : Bool} (h : f.Fills f' key (.boolean b)) :
    f'.boolean key none = f.boolean key (some b) := by
  unfold Fields.boolean Fields.field
  rw [h.place, h.get?]
  cases f.get? key with
  | none => rfl
  | some v => cases v <;> rfl

theorem Fields.Fills.choice {α : Type} {ofTag? : String → Option α} {s : String} {a : α}
    (h : f.Fills f' key (.string s)) (hs : ofTag? s = some a) :
    f'.choice key ofTag? none = f.choice key ofTag? (some a) := by
  unfold Fields.choice Fields.field
  rw [h.place, h.get?]
  cases f.get? key with
  | none => simp only [Option.getD_none, hs]
  | some v => cases v <;> rfl

theorem Fields.Fills.reliability {s : String} {r : Reliability}
    (h : f.Fills f' "reliability" (.string s)) (hs : Reliability.ofTag? s = some r) :
    f'.reliability none = f.reliability (some r) := by
  unfold Fields.reliability Fields.field
  dsimp only
  rw [h.place, h.get?]
  cases f.get? "reliability" with
  | none => simp only [Option.getD_none, hs]
  | some v =>
    cases v with
    | number n => cases n <;> rfl
    | _ => rfl

/-! ## Reading completed values -/

/-- Completing a mapping fills in three fields and touches no other. -/
theorem mapping_complete (place : Place) (entries : List (String × Json)) :
    mapping false ⟨place, completeMappingFields entries⟩ = mapping true ⟨place, entries⟩ := by
  have hagree : ∀ key, key ≠ "reliability" → key ≠ "explicit_timestamp" → key ≠ "allow_unset" →
      Fields.Agree ⟨place, entries⟩ ⟨place, completeMappingFields entries⟩ key := by
    intro key hr ht hu
    refine ⟨rfl, ?_⟩
    unfold Fields.get? completeMappingFields
    rw [lookup_withDefault_of_ne hu, lookup_withDefault_of_ne ht, lookup_withDefault_of_ne hr]
  have hreliability : Fields.Fills ⟨place, entries⟩ ⟨place, completeMappingFields entries⟩
      "reliability" (.string "unreliable") := by
    refine ⟨rfl, ?_⟩
    unfold Fields.get? completeMappingFields
    rw [lookup_withDefault_of_ne (by decide), lookup_withDefault_of_ne (by decide),
      lookup_withDefault_self]
  have htimestamp : Fields.Fills ⟨place, entries⟩ ⟨place, completeMappingFields entries⟩
      "explicit_timestamp" (.boolean false) := by
    refine ⟨rfl, ?_⟩
    unfold Fields.get? completeMappingFields
    rw [lookup_withDefault_of_ne (by decide), lookup_withDefault_self,
      lookup_withDefault_of_ne (by decide)]
  have hunset : Fields.Fills ⟨place, entries⟩ ⟨place, completeMappingFields entries⟩
      "allow_unset" (.boolean false) := by
    refine ⟨rfl, ?_⟩
    unfold Fields.get? completeMappingFields
    rw [lookup_withDefault_self, lookup_withDefault_of_ne (by decide),
      lookup_withDefault_of_ne (by decide)]
  have hendpoint := (hagree "endpoint" (by decide) (by decide) (by decide)).text
  have htype : Fields.choice ⟨place, completeMappingFields entries⟩ "type" ValueType.ofTag? none =
      Fields.choice ⟨place, entries⟩ "type" ValueType.ofTag? none :=
    (hagree "type" (by decide) (by decide) (by decide)).choice
  unfold mapping
  rw [hendpoint, htype]
  simp only [filled, if_true, Bool.false_eq_true, if_false, hreliability.reliability rfl,
    htimestamp.boolean, hunset.boolean]
  rfl

theorem mappings_complete (index : Nat) (items : List Json) :
    mappings false index (items.map completeMapping) = mappings true index items := by
  induction items generalizing index with
  | nil => rfl
  | cons v rest ih =>
    rw [List.map_cons, mappings, mappings, ih]
    cases v with
    | object entries =>
      simp only [completeMapping, Fields.ofJson]
      show (mapping false _ >>= _) = (mapping true _ >>= _)
      rw [mapping_complete]
    | _ => rfl

theorem ok_bind {ε α β : Type} {a : α} {next : α → Except ε β} : (Except.ok a >>= next) = next a := rfl

theorem error_bind {ε α β : Type} {e : ε} {next : α → Except ε β} :
    (Except.error e >>= next) = .error e := rfl

theorem map_bind {ε α β γ : Type} {x : Except ε α} {change : α → β} {next : β → Except ε γ} :
    (x.map change >>= next) = x >>= fun a => next (change a) := by
  cases x <;> rfl

theorem lookup_completeFields (ha : key ≠ "aggregation") (hm : key ≠ "mappings") :
    (completeFields entries).lookup key = entries.lookup key := by
  rw [completeFields, lookup_withDefault_of_ne ha, lookup_map_completeEntry]
  simp [hm]

theorem mappingItems_complete (place : Place) (entries : List (String × Json)) :
    Fields.mappingItems ⟨place, completeFields entries⟩ =
      (Fields.mappingItems ⟨place, entries⟩).map (List.map completeMapping) := by
  have hlookup : (completeFields entries).lookup "mappings" =
      (entries.lookup "mappings").map completeMappings := by
    rw [completeFields, lookup_withDefault_of_ne (by decide), lookup_map_completeEntry]
    simp
  unfold Fields.mappingItems Fields.get? Fields.field
  rw [hlookup]
  cases entries.lookup "mappings" with
  | none => rfl
  | some v =>
    cases v with
    | array items => cases items <;> rfl
    | _ => rfl

theorem name_complete (place : Place) (entries : List (String × Json)) :
    name ⟨place, completeFields entries⟩ = name ⟨place, entries⟩ := by
  have hlong : (completeFields entries).lookup "interface_name" = entries.lookup "interface_name" :=
    lookup_completeFields (by decide) (by decide)
  have hshort : (completeFields entries).lookup "name" = entries.lookup "name" :=
    lookup_completeFields (by decide) (by decide)
  have hkey : Fields.nameKey ⟨place, completeFields entries⟩ = Fields.nameKey ⟨place, entries⟩ := by
    unfold Fields.nameKey Fields.get?
    rw [hlong, hshort]
  have htext : Fields.text ⟨place, completeFields entries⟩ (Fields.nameKey ⟨place, entries⟩) =
      Fields.text ⟨place, entries⟩ (Fields.nameKey ⟨place, entries⟩) := by
    refine Fields.Agree.text ⟨rfl, ?_⟩
    unfold Fields.nameKey
    split
    · exact hshort
    · exact hlong
  unfold name
  dsimp only
  rw [hkey, htext]
  rfl

/-- A value is read with defaults as its completed form is read without. -/
theorem document_complete (source : Path) (v : Json) :
    document false source (complete v) = document true source v := by
  cases v with
  | object entries =>
    have hagree : ∀ key, key ≠ "aggregation" → key ≠ "mappings" →
        Fields.Agree ⟨.root, entries⟩ ⟨.root, completeFields entries⟩ key :=
      fun key ha hm => ⟨rfl, lookup_completeFields ha hm⟩
    have haggregation : Fields.Fills ⟨.root, entries⟩ ⟨.root, completeFields entries⟩ "aggregation"
        (.string "individual") := by
      refine ⟨rfl, ?_⟩
      unfold Fields.get?
      rw [completeFields, lookup_withDefault_self, lookup_map_completeEntry]
      simp
    have hkind : Fields.choice ⟨.root, completeFields entries⟩ "type" InterfaceKind.ofTag? none =
        Fields.choice ⟨.root, entries⟩ "type" InterfaceKind.ofTag? none :=
      (hagree "type" (by decide) (by decide)).choice
    have howner : Fields.choice ⟨.root, completeFields entries⟩ "ownership" Ownership.ofTag? none =
        Fields.choice ⟨.root, entries⟩ "ownership" Ownership.ofTag? none :=
      (hagree "ownership" (by decide) (by decide)).choice
    have hdefault : Fields.choice ⟨.root, completeFields entries⟩ "aggregation" Aggregation.ofTag? none =
        Fields.choice ⟨.root, entries⟩ "aggregation" Aggregation.ofTag? (some .individual) :=
      haggregation.choice rfl
    have hmajor := (hagree "version_major" (by decide) (by decide)).version
    have hminor := (hagree "version_minor" (by decide) (by decide)).version
    unfold document
    simp only [complete, Fields.ofJson, ok_bind, filled, if_true, Bool.false_eq_true, if_false]
    rw [name_complete, hmajor, hminor, hkind, howner, hdefault, mappingItems_complete]
    simp only [map_bind, mappings_complete]
  | _ => simp only [document, complete, Fields.ofJson, error_bind]

/-! ## Documents without gaps -/

theorem Optional.imp {α : Type} {Means : Json → α → Prop} {StandsIn StandsIn' : α → Prop}
    {v : Option Json} {a : α} (h : Optional Means StandsIn v a) (hs : ∀ a, StandsIn a → StandsIn' a) :
    Optional Means StandsIn' v a := by
  cases h with
  | given h => exact .given h
  | absent h => exact .absent (hs _ h)

theorem DescribesMapping.lenient {m : Mapping} (h : DescribesMapping false entries m) :
    DescribesMapping true entries m :=
  { h with
    reliability := h.reliability.imp fun _ hs => by cases hs.1
    explicitTimestamp := h.explicitTimestamp.imp fun _ hs => by cases hs.1
    allowUnset := h.allowUnset.imp fun _ hs => by cases hs.1 }

/-- What describes a document without defaults describes the same one with them. -/
theorem DescribesDocument.lenient {source : Path} {d : Document}
    (h : DescribesDocument false source entries d) : DescribesDocument true source entries d := by
  obtain ⟨items, hitems, hne, hms⟩ := h.mappings
  exact { h with
    aggregation := h.aggregation.imp fun _ hs => by cases hs.1
    mappings := ⟨items, hitems, hne, hms.imp fun v m ⟨fields, hv, hm⟩ => ⟨fields, hv, hm.lenient⟩⟩ }

end Schema

/-- A text is read with defaults as the text of the completed value is read without, whether it is
accepted or not; and what is accepted without defaults is accepted with them and gives the same. -/
theorem Document.parse_lenient_eq_parse_complete (source : Path) (v : Json) :
    Schema.document true source v = Schema.document false source (Schema.complete v) ∧
    (∀ text text', Json.parse text = .ok v → Json.parse text' = .ok (Schema.complete v) →
      Document.parse true source text = Document.parse false source text') ∧
    ∀ text d, Document.parse false source text = .ok d → Document.parse true source text = .ok d := by
  have hcomplete := Schema.document_complete source v
  refine ⟨hcomplete.symm, fun text text' hv hv' => ?_, fun text d h => ?_⟩
  · unfold Document.parse
    rw [hv, hv']
    simp only [hcomplete]
  · obtain ⟨entries, hv, hd⟩ := Document.exists_of_parse h
    exact Document.parse_of_describes hv hd.lenient

namespace OneMapping

open Json

def falseMember (key : String) : Member := ⟨key, "false".toList, .boolean false⟩

def moreOfMapping : List Member :=
  [stringMember "type" "string",
   stringMember "reliability" "unreliable",
   falseMember "explicit_timestamp",
   falseMember "allow_unset"]

def completeMembers (endpoint : String) : List Member :=
  [⟨"version_major", ['0'], .number (.unsigned 0)⟩,
   ⟨"version_minor", ['1'], .number (.unsigned 1)⟩,
   stringMember "type" "datastream",
   stringMember "ownership" "device",
   ⟨"mappings", arrayText (objectText (stringMember "endpoint" endpoint) moreOfMapping),
     .array [.object (Schema.completeMappingFields (mappingFields endpoint))]⟩,
   stringMember "aggregation" "individual"]

/-- The text of a document with one mapping that leaves nothing out. -/
def completeText (name endpoint : String) : String :=
  String.ofList (objectText (stringMember "name" name) (completeMembers endpoint))

variable {fuel depth : Nat}

theorem read_falseMember {key : String} (hk : Plain key) :
    (falseMember key).Read (readValue fuel (depth + 1)) :=
  ⟨hk, fun offset _ _ _ => ⟨offset + 5, rfl⟩⟩

theorem reads_completeMapping {endpoint : String} (h : Plain endpoint) :
    Reads (readValue (fuel + 6) (depth + 2))
      (objectText (stringMember "endpoint" endpoint) moreOfMapping)
      (.object (Schema.completeMappingFields (mappingFields endpoint))) := by
  have hmore : ∀ m ∈ moreOfMapping, m.Read (readValue (fuel + 6) (depth + 1)) := by
    simp only [moreOfMapping, List.forall_mem_cons]
    exact ⟨read_stringMember (.literal (by decide)) (.literal (by decide)),
      read_stringMember (.literal (by decide)) (.literal (by decide)),
      read_falseMember (.literal (by decide)), read_falseMember (.literal (by decide)),
      List.forall_mem_nil _⟩
  intro offset stop _ rest
  exact exists_readValue_object (read_stringMember (.literal (by decide)) h) hmore
    (by simp [moreOfMapping]) offset (stop :: rest)

theorem read_completeMembers {endpoint : String} (h : Plain endpoint) :
    ∀ m ∈ completeMembers endpoint, m.Read (readValue (fuel + 6) (depth + 3)) := by
  simp only [completeMembers, List.forall_mem_cons]
  exact ⟨⟨.literal (by decide), reads_digit (by decide)⟩,
    ⟨.literal (by decide), reads_digit (by decide)⟩,
    read_stringMember (.literal (by decide)) (.literal (by decide)),
    read_stringMember (.literal (by decide)) (.literal (by decide)),
    ⟨.literal (by decide), reads_array (reads_completeMapping h) (by simp)⟩,
    read_stringMember (.literal (by decide)) (.literal (by decide)),
    List.forall_mem_nil _⟩

theorem parse_completeText {name endpoint : String} (hn : Plain name) (he : Plain endpoint) :
    Json.parse (completeText name endpoint) =
      .ok (Schema.complete (.object (fields name endpoint))) := by
  have hname : Plain "name" := .literal (by decide)
  have hparse := parse_object (fun _ => read_stringMember hname hn) (fun _ => read_completeMembers he)
  rw [completeText, hparse]
  rfl

end OneMapping

/-- The text with gaps and the one without are both read as the document with one mapping. -/
theorem Document.parse_oneMapping_complete :
    Json.parse (OneMapping.text "n" "/v") = .ok (.object (OneMapping.fields "n" "/v")) ∧
    Json.parse (OneMapping.completeText "n" "/v") =
      .ok (Schema.complete (.object (OneMapping.fields "n" "/v"))) ∧
    Document.parse true "a.json" (OneMapping.text "n" "/v") = .ok (oneMapping "n" "/v") ∧
    Document.parse false "a.json" (OneMapping.completeText "n" "/v") = .ok (oneMapping "n" "/v") ∧
    Document.parse true "a.json" (OneMapping.completeText "n" "/v") = .ok (oneMapping "n" "/v") := by
  have hgaps : Json.parse (OneMapping.text "n" "/v") = .ok (.object (OneMapping.fields "n" "/v")) :=
    OneMapping.parse_text (.literal (by decide)) (.literal (by decide))
  have hfull : Json.parse (OneMapping.completeText "n" "/v") =
      .ok (Schema.complete (.object (OneMapping.fields "n" "/v"))) :=
    OneMapping.parse_completeText (.literal (by decide)) (.literal (by decide))
  have hname : Schema.IsName "n" := Schema.isName_iff.mp (by decide)
  have hendpoint : Schema.IsEndpoint "/v" := Schema.isEndpoint_iff.mp (by decide)
  have hlenient := Document.parse_of_describes hgaps (OneMapping.describes hname hendpoint)
  obtain ⟨_, htexts, hstrict⟩ := Document.parse_lenient_eq_parse_complete "a.json"
    (.object (OneMapping.fields "n" "/v"))
  have hcomplete := (htexts _ _ hgaps hfull).symm.trans hlenient
  exact ⟨hgaps, hfull, hlenient, hcomplete, hstrict _ _ hcomplete⟩

end InterfaceTables
