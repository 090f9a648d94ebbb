import InterfaceTables.Proofs.SchemaGrammar
import InterfaceTables.Proofs.SourceFrames

/-!
Reading a generated source back. The text of a source fixes every document it was made of, but not
where that was read from.
-/

namespace InterfaceTables

/-! ## Reading values -/

/-- The word that a text spells, out of all there are. -/
def wordOf? {α : Type} (all : List α) (word : α → String) (s : String) : Option α :=
  all.find? fun a => word a == s

def numberOf (s : String) : Nat := Nat.ofDigitChars 10 s.toList 0

theorem numberOf_repr (n : Nat) : numberOf n.repr = n := by
  rw [numberOf, Nat.toList_repr, Nat.ofDigitChars_toDigits (by decide) (by decide)]

theorem InterfaceKind.wordOf?_constant (k : InterfaceKind) :
    wordOf? all InterfaceKind.constant k.constant = some k :=
  (find?_word_iff mem_all (by decide)).mpr rfl

theorem Ownership.wordOf?_constant (o : Ownership) :
    wordOf? all Ownership.constant o.constant = some o :=
  (find?_word_iff mem_all (by decide)).mpr rfl

theorem Aggregation.wordOf?_constant (a : Aggregation) :
    wordOf? all Aggregation.constant a.constant = some a :=
  (find?_word_iff mem_all (by decide)).mpr rfl

theorem Reliability.wordOf?_constant (r : Reliability) :
    wordOf? all Reliability.constant r.constant = some r :=
  (find?_word_iff mem_all (by decide)).mpr rfl

theorem ValueType.wordOf?_constant (t : ValueType) :
    wordOf? all ValueType.constant t.constant = some t :=
  (find?_word_iff mem_all (by decide +kernel)).mpr rfl

theorem wordOf?_boolConstant (b : Bool) : wordOf? [false, true] boolConstant (boolConstant b) = some b :=
  (find?_word_iff (by decide) (by decide)).mpr rfl

/-! ## Texts of certain characters -/

/-- Every character of the text is of the given sort. -/
def Only (p : Char → Bool) (s : String) : Prop := ∀ c ∈ s.toList, p c = true

namespace Only

variable {p q : Char → Bool} {a b value : String}

theorem literal {cs : List Char} (h : cs.all p = true) : Only p (String.ofList cs) := by
  rw [Only, String.toList_ofList]
  exact List.all_eq_true.mp h

theorem append (ha : Only p a) (hb : Only p b) : Only p (a ++ b) := by
  intro c hc
  rw [String.toList_append, List.mem_append] at hc
  exact hc.elim (ha c) (hb c)

theorem within {before after : List Char} (hv : Only p value) (h : (before ++ after).all p = true) :
    Only p (String.ofList before ++ value ++ String.ofList after) := by
  rw [List.all_append, Bool.and_eq_true] at h
  exact ((literal h.1).append hv).append (literal h.2)

theorem imp (h : Only p a) (hpq : ∀ c, p c = true → q c = true) : Only q a :=
  fun c hc => hpq c (h c hc)

theorem not_mem (h : Only p a) {c : Char} (hc : p c = false) : c ∉ a.toList := by
  intro hm
  rw [h c hm] at hc
  cases hc

end Only

/-! ## What stands in values -/

theorem not_mem_toString {stop : Char} (h : stop.isDigit = false) (n : Nat) :
    stop ∉ (toString n).toList := by
  intro hm
  rw [Nat.toString_eq_repr, Nat.toList_repr] at hm
  rw [Nat.isDigit_of_mem_toDigits (by decide) (by decide) hm] at h
  cases h

namespace Symbol

/-- Letters, digits and underscores only. -/
abbrev Wordlike : String → Prop := Only isWordChar

theorem wordlike_sanitize (name : String) : Wordlike (sanitize name) := by
  intro c hc
  rw [sanitize, String.toList_ofList, List.mem_map] at hc
  obtain ⟨c', _, rfl⟩ := hc
  unfold sanitizeChar
  split
  · assumption
  · rfl

theorem wordlike_mappings (name : String) : Wordlike (mappings (sanitize name)) :=
  (wordlike_sanitize name).append (.literal (by decide))

def isCapital (c : Char) : Bool := ('A' ≤ c && c ≤ 'Z') || ('0' ≤ c && c ≤ '9') || c == '_'

/-- Capitals, digits and underscores only. -/
abbrev Capital : String → Prop := Only isCapital

theorem Capital.wordlike {s : String} (h : Capital s) : Wordlike s := by
  refine h.imp fun c hc => ?_
  unfold isCapital at hc
  unfold isWordChar
  simp only [Bool.or_eq_true] at hc ⊢
  obtain (hc | hc) | hc := hc
  · exact .inl (.inl (.inr hc))
  · exact .inl (.inr hc)
  · exact .inr hc

theorem isCapital_toUpper {c : Char} (h : isWordChar c = true) : isCapital c.toUpper = true := by
  unfold Char.toUpper
  split
  · rename_i hc
    have hlow := UInt32.le_iff_toNat_le.mp hc.1
    have hhigh := UInt32.le_iff_toNat_le.mp hc.2
    have ha : 'a'.val.toNat = 97 := rfl
    have hz : 'z'.val.toNat = 122 := rfl
    have hshift : ('A'.val - 'a'.val).toNat = 2 ^ 32 - 32 := rfl
    have hval : (c.val + ('A'.val - 'a'.val)).toNat = c.val.toNat - 32 := by
      rw [UInt32.toNat_add]
      omega
    have hA : 'A'.val ≤ c.val + ('A'.val - 'a'.val) := by
      rw [UInt32.le_iff_toNat_le, hval, show 'A'.val.toNat = 65 from rfl]
      omega
    have hZ : c.val + ('A'.val - 'a'.val) ≤ 'Z'.val := by
      rw [UInt32.le_iff_toNat_le, hval, show 'Z'.val.toNat = 90 from rfl]
      omega
    simp only [isCapital, Bool.or_eq_true, Bool.and_eq_true, decide_eq_true_eq]
    exact .inl (.inl ⟨hA, hZ⟩)
  · rename_i hc
    simp only [isWordChar, isCapital, Bool.or_eq_true, Bool.and_eq_true, decide_eq_true_eq] at h ⊢
    obtain ((h | h) | h) | h := h
    · exact absurd h hc
    · exact .inl (.inl h)
    · exact .inl (.inr h)
    · exact .inr h

theorem Wordlike.upper {s : String} (h : Wordlike s) : Capital (upper s) := by
  intro c hc
  rw [Symbol.upper, String.toList_ofList, List.mem_map] at hc
  obtain ⟨c', hc', rfl⟩ := hc
  exact isCapital_toUpper (h c' hc')

end Symbol

theorem InterfaceKind.capital (k : InterfaceKind) : Symbol.Capital k.constant :=
  .append (.literal (by decide)) (Symbol.Wordlike.upper (by cases k <;> exact .literal (by decide)))

theorem Ownership.capital (o : Ownership) : Symbol.Capital o.constant :=
  .append (.literal (by decide)) (Symbol.Wordlike.upper (by cases o <;> exact .literal (by decide)))

theorem Aggregation.capital (a : Aggregation) : Symbol.Capital a.constant :=
  .append (.literal (by decide)) (Symbol.Wordlike.upper (by cases a <;> exact .literal (by decide)))

theorem Reliability.capital (r : Reliability) : Symbol.Capital r.constant :=
  .append (.literal (by decide)) (Symbol.Wordlike.upper (by cases r <;> exact .literal (by decide)))

theorem ValueType.capital (t : ValueType) : Symbol.Capital t.constant := by
  have hitem : Symbol.Wordlike t.item.tag := by cases t.item <;> exact .literal (by decide)
  have htag : Symbol.Wordlike t.tag := by
    unfold tag
    split
    · exact hitem.append (.literal (by decide))
    · exact hitem
  exact .append (.literal (by decide)) htag.upper

theorem wordlike_boolConstant (b : Bool) : Symbol.Wordlike (boolConstant b) := by
  cases b <;> exact .literal (by decide)

/-! ## Reading definitions -/

/-- The mapping with the given values in its definition. -/
def Mapping.ofValues? : List String → Option Mapping
  | [endpoint, type, reliability, explicitTimestamp, allowUnset] => do
    let type ← wordOf? ValueType.all ValueType.constant type
    let reliability ← wordOf? Reliability.all Reliability.constant reliability
    let explicitTimestamp ← wordOf? [false, true] boolConstant explicitTimestamp
    let allowUnset ← wordOf? [false, true] boolConstant allowUnset
    return { endpoint, type, reliability, explicitTimestamp, allowUnset }
  | _ => none

theorem Mapping.ofValues?_values (m : Mapping) : ofValues? m.record.values = some m := by
  simp [ofValues?, MappingRecord.values, Mapping.record, ValueType.wordOf?_constant,
    Reliability.wordOf?_constant, wordOf?_boolConstant]

/-- The interface with the given mappings and the given values in its definition. -/
def Document.ofValues? (mappings : List Mapping) : List String → Option Document
  | [_, name, versionMajor, versionMinor, kind, ownership, aggregation, _, _] => do
    let kind ← wordOf? InterfaceKind.all InterfaceKind.constant kind
    let ownership ← wordOf? Ownership.all Ownership.constant ownership
    let aggregation ← wordOf? Aggregation.all Aggregation.constant aggregation
    return {
      name, kind, ownership, aggregation, mappings
      versionMajor := numberOf versionMajor
      versionMinor := numberOf versionMinor
      source := "" }
  | _ => none

/-- A document without the file that it was read from. -/
def Document.content (d : Document) : Document := { d with source := "" }

theorem Document.ofValues?_backValues (d : Document) :
    ofValues? d.mappings d.record.backValues = some d.content := by
  simp [ofValues?, InterfaceRecord.backValues, Document.record, Document.content,
    InterfaceKind.wordOf?_constant, Ownership.wordOf?_constant, Aggregation.wordOf?_constant,
    numberOf_repr]

def readMapping (cs : List Char) : Option (Mapping × List Char) := do
  let (values, cs) ← MappingRecord.frame.read cs
  let m ← Mapping.ofValues? values
  let cs ← MappingRecord.foot.isPrefixOf? cs
  return (m, cs)

def readMappings : (count : Nat) → List Char → Option (List Mapping × List Char)
  | 0, cs => some ([], cs)
  | count + 1, cs => do
    let (m, cs) ← readMapping cs
    let (ms, cs) ← readMappings count cs
    return (m :: ms, cs)

/-- The number of mappings that the front of a definition gives. -/
def countOf : List String → Nat
  | [_, count] => numberOf count
  | _ => 0

def readDefinition (cs : List Char) : Option (Document × List Char) := do
  let (front, cs) ← InterfaceRecord.frontFrame.read cs
  let cs ← InterfaceRecord.opening.isPrefixOf? cs
  let (mappings, cs) ← readMappings (countOf front) cs
  let (back, cs) ← InterfaceRecord.backFrame.read cs
  let d ← Document.ofValues? mappings back
  let cs ← InterfaceRecord.foot.isPrefixOf? cs
  return (d, cs)

theorem readMapping_definition {m : Mapping} (h : '"' ∉ m.endpoint.toList) (rest : List Char) :
    readMapping (m.record.definition.toList ++ rest) = some (m, rest) := by
  have hframe : MappingRecord.frame.Fits m.record.values :=
    .cons h (.cons (m.type.capital.not_mem (by decide)) (.cons (m.reliability.capital.not_mem (by decide))
      (.cons ((wordlike_boolConstant _).not_mem (by decide))
      (.cons ((wordlike_boolConstant _).not_mem (by decide)) .nil))))
  rw [MappingRecord.toList_definition, List.append_assoc]
  unfold readMapping
  simp [Frame.read_text hframe, Mapping.ofValues?_values, Frame.isPrefixOf?_append]

theorem readMappings_definitions {ms : List Mapping} (h : ∀ m ∈ ms, '"' ∉ m.endpoint.toList)
    (rest : List Char) :
    readMappings ms.length (ms.flatMap (fun m => m.record.definition.toList) ++ rest) =
      some (ms, rest) := by
  induction ms with
  | nil => rfl
  | cons m ms ih =>
    have hm := readMapping_definition (h m (by simp))
    have hms := ih fun m' hm' => h m' (List.mem_cons_of_mem m hm')
    simp [readMappings, hm, hms]

/-- No quote ends the name or an endpoint of a document early. -/
structure Document.Quotable (d : Document) : Prop where
  name : '"' ∉ d.name.toList
  endpoint : ∀ m ∈ d.mappings, '"' ∉ m.endpoint.toList

theorem readDefinition_definition {d : Document} (h : d.Quotable) (rest : List Char) :
    readDefinition (d.record.definition.toList ++ rest) = some (d.content, rest) := by
  have hfront : InterfaceRecord.frontFrame.Fits d.record.frontValues :=
    .cons ((Symbol.wordlike_mappings d.name).not_mem (by decide))
      (.cons (not_mem_toString (by decide) _) .nil)
  have hback : InterfaceRecord.backFrame.Fits d.record.backValues :=
    .cons ((Symbol.wordlike_sanitize d.name).not_mem (by decide)) (.cons h.name
      (.cons (not_mem_toString (by decide) _) (.cons (not_mem_toString (by decide) _)
      (.cons (d.kind.capital.not_mem (by decide)) (.cons (d.ownership.capital.not_mem (by decide))
      (.cons (d.aggregation.capital.not_mem (by decide))
      (.cons ((Symbol.wordlike_mappings d.name).not_mem (by decide))
      (.cons (not_mem_toString (by decide) _) .nil))))))))
  have hcount : countOf d.record.frontValues = d.mappings.length := by
    simp [countOf, InterfaceRecord.frontValues, numberOf_repr, InterfaceRecord.mappingsLength,
      Document.record]
  have hmappings : d.record.mappings.flatMap (fun m => m.definition.toList) =
      d.mappings.flatMap (fun m => m.record.definition.toList) := by
    simp [Document.record, List.flatMap_map]
  rw [InterfaceRecord.toList_definition, hmappings]
  simp only [List.append_assoc]
  unfold readDefinition
  simp [Frame.read_text hfront, Frame.read_text hback, Frame.isPrefixOf?_append, hcount,
    readMappings_definitions h.endpoint, Document.ofValues?_backValues]

/-! ## Reading sources -/

section Lines

variable {α β : Type}

/-- Items, each after a line feed, up to the foot of a text. -/
def readLines (item : List Char → Option (α × List Char)) (foot : List Char) :
    (fuel : Nat) → List Char → Option (List α)
  | 0, _ => none
  | fuel + 1, cs =>
    if cs = foot then some []
    else do
      let cs ← ['\n'].isPrefixOf? cs
      let (x, cs) ← item cs
      let xs ← readLines item foot fuel cs
      return x :: xs

theorem readLines_flatMap {item : List Char → Option (α × List Char)} {foot : List Char}
    {text : β → List Char} {value : β → α} {xs : List β} {fuel : Nat}
    (hitem : ∀ x ∈ xs, ∀ rest, item (text x ++ rest) = some (value x, rest))
    (hfoot : ∀ x ∈ xs, ∀ rest, '\n' :: (text x ++ rest) ≠ foot) (hfuel : xs.length < fuel) :
    readLines item foot fuel (xs.flatMap (fun x => '\n' :: text x) ++ foot) = some (xs.map value) := by
  induction xs generalizing fuel with
  | nil =>
    cases fuel with
    | zero => simp at hfuel
    | succ fuel => simp [readLines]
  | cons x xs ih =>
    cases fuel with
    | zero => simp at hfuel
    | succ fuel =>
      have hx := hitem x (by simp)
      have hne := hfoot x (by simp)
      have hxs := ih (fun y hy => hitem y (List.mem_cons_of_mem x hy))
        (fun y hy => hfoot y (List.mem_cons_of_mem x hy)) (Nat.lt_of_succ_lt_succ hfuel)
      simp [readLines, List.isPrefixOf?, hx, hne, hxs]

end Lines

/-- The documents that a source with the given base name was made of. A line feed stands between two
definitions but not before the first. -/
def readSource (baseName : String) (text : String) : Option (List Document) := do
  let cs ← (SourceText.head baseName).isPrefixOf? text.toList
  if cs = SourceText.foot then some []
  else readLines readDefinition SourceText.foot (cs.length + 2) ('\n' :: cs)

theorem SourceText.foot_eq : ∃ cs, foot = '\n' :: '\n' :: '/' :: cs := by
  unfold foot
  rw [String.toList_ofList]
  exact ⟨_, rfl⟩

theorem InterfaceRecord.definition_head (r : InterfaceRecord) :
    ∃ cs, r.definition.toList = '\n' :: 's' :: cs := by
  have hliteral : ∃ cs, "\nstatic const astarte_mapping_t ".toList = '\n' :: 's' :: cs := by
    rw [String.toList_ofList]
    exact ⟨_, rfl⟩
  obtain ⟨cs, hcs⟩ := hliteral
  rw [toList_definition]
  unfold frontFrame frontValues
  rw [Frame.text, hcs]
  exact ⟨_, rfl⟩

/-- The third character tells a definition from the foot. -/
theorem InterfaceRecord.cons_definition_ne_foot (r : InterfaceRecord) (rest : List Char) :
    '\n' :: (r.definition.toList ++ rest) ≠ SourceText.foot := by
  obtain ⟨cs, hcs⟩ := SourceText.foot_eq
  obtain ⟨cs', hcs'⟩ := r.definition_head
  rw [hcs, hcs']
  simp

/-- With a line feed before the first text every text comes after one, and with a line feed after the
last text every text comes before one. -/
theorem toList_joinLines {α : Type} {xs : List α} (h : xs ≠ []) (text : α → String) :
    '\n' :: (joinLines (xs.map text)).toList = xs.flatMap (fun x => '\n' :: (text x).toList) ∧
      (joinLines (xs.map text)).toList ++ ['\n'] = xs.flatMap fun x => (text x).toList ++ ['\n'] := by
  have hsep : "\n".toList = ['\n'] := String.toList_ofList
  rw [joinLines, String.toList_intercalate, hsep]
  induction xs with
  | nil => exact absurd rfl h
  | cons x xs ih =>
    cases xs with
    | nil => simp
    | cons x' xs =>
      obtain ⟨hbefore, hafter⟩ := ih (by simp)
      exact ⟨by simpa using hbefore, by simpa using hafter⟩

theorem length_le_flatMap {α : Type} (c : Char) (text : α → List Char) (xs : List α) :
    xs.length ≤ (xs.flatMap fun x => c :: text x).length := by
  induction xs with
  | nil => simp
  | cons x xs ih =>
    simp only [List.flatMap_cons, List.length_append, List.length_cons]
    omega

/-- A source can be read back. -/
theorem readSource_sourceText {ds : List Document} (h : ∀ d ∈ ds, d.Quotable) (baseName : String) :
    readSource baseName (sourceText (ds.map Document.record) baseName) =
      some (ds.map Document.content) := by
  unfold readSource
  rw [SourceText.toList_sourceText, Frame.isPrefixOf?_append]
  cases ds with
  | nil => simp [joinLines]
  | cons d ds =>
    -- The reader puts a line feed in front, and every definition comes after one.
    have hjoin : '\n' :: (joinLines (((d :: ds).map Document.record).map
        InterfaceRecord.definition)).toList =
        (d :: ds).flatMap fun d => '\n' :: d.record.definition.toList := by
      rw [(toList_joinLines (by simp) _).1, List.flatMap_map]
    generalize (joinLines (((d :: ds).map Document.record).map InterfaceRecord.definition)).toList =
      cs at hjoin
    have hne : cs ++ SourceText.foot ≠ SourceText.foot := by
      obtain ⟨cs', hcs'⟩ := SourceText.foot_eq
      obtain ⟨cs'', hcs''⟩ := d.record.definition_head
      rw [List.flatMap_cons, hcs''] at hjoin
      rw [(List.cons.inj hjoin).2, hcs']
      simp
    have hlength := length_le_flatMap '\n' (fun d : Document => d.record.definition.toList) (d :: ds)
    rw [← hjoin] at hlength
    have hfuel : (d :: ds).length < (cs ++ SourceText.foot).length + 2 := by
      simp only [List.length_cons, List.length_append] at hlength ⊢
      omega
    have hread := readLines_flatMap (fun d hd => readDefinition_definition (h d hd))
      (fun d _ => d.record.cons_definition_ne_foot) hfuel
    rw [← hjoin, List.cons_append] at hread
    show (if cs ++ SourceText.foot = SourceText.foot then some [] else _) = _
    rw [if_neg hne, hread]

/-! ## Accepted documents -/

/-- A document that some text of the schema denotes. -/
def Document.Accepted (d : Document) : Prop :=
  ∃ applyDefaults source text, Document.parse applyDefaults source text = .ok d

theorem Schema.IsEndpoint.not_mem_quote {s : String} (h : IsEndpoint s) : '"' ∉ s.toList := by
  obtain ⟨rest, hs, hrest⟩ := h
  rw [hs]
  intro hm
  cases List.mem_cons.mp hm with
  | inl he => exact absurd he (by decide)
  | inr hm => exact (hrest _ hm).1 rfl

/-- A name or an endpoint of the schema holds no quote. -/
theorem Document.Accepted.quotable {d : Document} (h : d.Accepted) : d.Quotable := by
  obtain ⟨applyDefaults, source, text, hparse⟩ := h
  obtain ⟨entries, -, hd⟩ := Document.exists_of_parse hparse
  constructor
  · obtain ⟨first, rest, hs, hfirst, hrest⟩ := hd.isName
    rw [hs]
    intro hm
    cases List.mem_cons.mp hm with
    | inl he => exact absurd hfirst (by rw [← he]; decide)
    | inr hm => exact absurd (hrest _ hm) (by decide)
  · exact fun m hm => (hd.isEndpoint hm).not_mem_quote

/-- Two documents give the same fields but may come from different files. -/
structure Document.Agree (d d' : Document) : Prop where
  name : d.name = d'.name
  versionMajor : d.versionMajor = d'.versionMajor
  versionMinor : d.versionMinor = d'.versionMinor
  kind : d.kind = d'.kind
  ownership : d.ownership = d'.ownership
  aggregation : d.aggregation = d'.aggregation
  mappings : d.mappings = d'.mappings

theorem Document.content_eq_iff {d d' : Document} : d.content = d'.content ↔ d.Agree d' := by
  constructor
  · intro h
    obtain ⟨hn, hmaj, hmin, hk, ho, ha, hm, -⟩ := Document.mk.inj h
    exact ⟨hn, hmaj, hmin, hk, ho, ha, hm⟩
  · rintro ⟨hn, hmaj, hmin, hk, ho, ha, hm⟩
    simp [content, hn, hmaj, hmin, hk, ho, ha, hm]

theorem map_content_eq_iff {ds ds' : List Document} :
    ds.map Document.content = ds'.map Document.content ↔ List.Forall₂ Document.Agree ds ds' := by
  rw [← List.forall₂_eq_eq_eq, List.forall₂_map_left_iff, List.forall₂_map_right_iff]
  simp only [Document.content_eq_iff]

theorem Document.definition_content (d : Document) :
    d.content.record.definition = d.record.definition := by
  unfold InterfaceRecord.definition
  rfl

/-- A source does not say where a document was read from. -/
theorem sourceText_content (ds : List Document) (baseName : String) :
    sourceText ((ds.map Document.content).map Document.record) baseName =
      sourceText (ds.map Document.record) baseName := by
  unfold sourceText
  simp only [List.map_map, Function.comp_def, Document.definition_content]

/-- The source of accepted documents can be read back, and it is the source of exactly the lists of
accepted documents that agree with them place by place. -/
theorem sourceText_eq_iff_agree {ds ds' : List Document} (h : ∀ d ∈ ds, d.Accepted)
    (h' : ∀ d ∈ ds', d.Accepted) (baseName : String) :
    readSource baseName (sourceText (ds.map Document.record) baseName) =
        some (ds.map Document.content) ∧
      (sourceText (ds.map Document.record) baseName = sourceText (ds'.map Document.record) baseName ↔
        List.Forall₂ Document.Agree ds ds') := by
  have hread := readSource_sourceText (fun d hd => (h d hd).quotable) baseName
  have hread' := readSource_sourceText (fun d hd => (h' d hd).quotable) baseName
  refine ⟨hread, ?_⟩
  rw [← map_content_eq_iff]
  constructor
  · intro he
    rw [he, hread'] at hread
    exact (Option.some.inj hread).symm
  · intro he
    rw [← sourceText_content ds, he, sourceText_content]

theorem eq_ok_of_toOption {ε α : Type} {x : Except ε α} {a : α} (h : x.toOption = some a) :
    x = .ok a := by
  cases x with
  | error e => simp [Except.toOption] at h
  | ok b => simpa [Except.toOption] using h

/-- A document whose endpoint reads like a placeholder and the end of a record. -/
def placeholderEndpoint (source : Path) : Document where
  name := "a.B"
  versionMajor := 0
  versionMinor := 1
  kind := .datastream
  ownership := .device
  aggregation := .individual
  mappings := [⟨"/$\x7bname\x7d, \x7d;", ⟨.string, false⟩, .unreliable, false, false⟩]
  source := source

def placeholderText : String :=
  "\x7b\"name\": \"a.B\", \"version_major\": 0, \"version_minor\": 1, \"type\": \"datastream\", " ++
  "\"ownership\": \"device\", " ++
  "\"mappings\": [\x7b\"endpoint\": \"/$\x7bname\x7d, \x7d;\", \"type\": \"string\"\x7d]\x7d"

theorem placeholderEndpoint_accepted {source : Path} (h : source ∈ ["a.json", "b.json"]) :
    (placeholderEndpoint source).Accepted := by
  have hparse : ∀ source ∈ ["a.json", "b.json"],
      (Document.parse true source placeholderText).toOption = some (placeholderEndpoint source) := by
    decide +kernel
  exact ⟨true, source, placeholderText, eq_ok_of_toOption (hparse source h)⟩

theorem sourceText_placeholderEndpoint :
    (∀ d ∈ [placeholderEndpoint "a.json"], d.Accepted) ∧
      (∀ d ∈ [placeholderEndpoint "b.json"], d.Accepted) ∧
      readSource "t" (sourceText [(placeholderEndpoint "a.json").record] "t") =
        some [(placeholderEndpoint "a.json").content] ∧
      sourceText [(placeholderEndpoint "a.json").record] "t" =
        sourceText [(placeholderEndpoint "b.json").record] "t" := by
  have ha : ∀ d ∈ [placeholderEndpoint "a.json"], d.Accepted :=
    List.forall_mem_singleton.mpr (placeholderEndpoint_accepted (by simp))
  have hb : ∀ d ∈ [placeholderEndpoint "b.json"], d.Accepted :=
    List.forall_mem_singleton.mpr (placeholderEndpoint_accepted (by simp))
  obtain ⟨hread, hiff⟩ := sourceText_eq_iff_agree ha hb "t"
  exact ⟨ha, hb, hread, hiff.mpr (.cons ⟨rfl, rfl, rfl, rfl, rfl, rfl, rfl⟩ .nil)⟩

end InterfaceTables
