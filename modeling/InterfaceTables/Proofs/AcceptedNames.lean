import InterfaceTables.Proofs.TextLines

/-!
Every name and every endpoint of the schema occurs in an accepted document: the JSON text with that
name and that endpoint, written without blanks and escapes, is read as it was written.
-/

namespace InterfaceTables

namespace Json

/-! ## Reading what was written -/

/-- Written so, and followed by the end of an item, the value is read. -/
def Reads {α : Type} (item : Cursor → Reading α) (written : List Char) (value : α) : Prop :=
  ∀ offset, ∀ stop ∈ [',', ']', '\x7d'], ∀ rest, ∃ n,
    item ⟨offset, written ++ stop :: rest⟩ = .ok (value, ⟨n, stop :: rest⟩)

/-- The character stands for itself in a string. -/
def isPlain (c : Char) : Bool := c != '"' && c != '\\' && 0x20 ≤ c.toNat

abbrev Plain : String → Prop := Only isPlain

theorem exists_stringBody {cs : List Char} (h : ∀ c ∈ cs, isPlain c = true) (acc : List Char)
    (offset : Nat) (rest : List Char) :
    ∃ n, stringBody .plain acc offset (cs ++ '"' :: rest) = .ok (acc.reverse ++ cs, ⟨n, rest⟩) := by
  induction cs generalizing acc offset with
  | nil => exact ⟨offset + 1, by simp [stringBody]⟩
  | cons c cs ih =>
    have hc := h c (by simp)
    simp only [isPlain, Bool.and_eq_true, bne_iff_ne, decide_eq_true_eq] at hc
    obtain ⟨⟨hquote, hback⟩, hcontrol⟩ := hc
    obtain ⟨n, hn⟩ := ih (fun c' hc' => h c' (List.mem_cons_of_mem c hc')) (c :: acc)
      (offset + c.utf8Size)
    refine ⟨n, ?_⟩
    rw [List.cons_append, stringBody, if_neg hquote, if_neg hback,
      if_neg (Nat.not_lt_of_ge hcontrol), hn]
    simp

def quoted (s : String) (rest : List Char) : List Char := '"' :: (s.toList ++ '"' :: rest)

theorem exists_readString {s : String} (h : Plain s) (offset : Nat) (rest : List Char) :
    ∃ n, readString ⟨offset, quoted s rest⟩ = .ok (s, ⟨n, rest⟩) := by
  obtain ⟨n, hn⟩ := exists_stringBody h [] (offset + 1) rest
  refine ⟨n, ?_⟩
  rw [readString, quoted, List.drop_succ_cons, List.drop_zero, hn, List.reverse_nil, List.nil_append]
  simp

theorem skipBlanks_cons {c : Char} (h : isBlank c = false) (offset : Nat) (cs : List Char) :
    skipBlanks ⟨offset, c :: cs⟩ = ⟨offset, c :: cs⟩ := by
  simp [skipBlanks, h, Cursor.advance]

section Values

variable {fuel depth : Nat}

theorem reads_string {s : String} (h : Plain s) :
    Reads (readValue fuel (depth + 1)) (quoted s []) (.string s) := by
  intro offset stop _ rest
  obtain ⟨n, hn⟩ := exists_readString h offset (stop :: rest)
  have hquoted : quoted s [] ++ stop :: rest = quoted s (stop :: rest) := by simp [quoted]
  have hvalue : readValue fuel (depth + 1) ⟨offset, quoted s (stop :: rest)⟩ =
    (readString ⟨offset, quoted s (stop :: rest)⟩).map fun r => (.string r.1, r.2) := rfl
  exact ⟨n, by rw [hquoted, hvalue, hn]; rfl⟩

theorem reads_digit {digit : Char} (h : digit ∈ ['0', '1']) :
    Reads (readValue fuel (depth + 1)) [digit] (.number (.unsigned (digit.toNat - '0'.toNat))) := by
  intro offset stop hstop rest
  simp only [List.mem_cons, List.not_mem_nil, or_false] at h hstop
  obtain rfl | rfl := h <;> obtain rfl | rfl | rfl := hstop <;> exact ⟨offset + 1, rfl⟩

end Values

/-! ## Objects and arrays -/

section Members

variable {item : Cursor → Reading Json}

/-- A key, how its value is written, and the value. -/
structure Member where
  key : String
  written : List Char
  value : Json

def Member.text (m : Member) : List Char := quoted m.key (':' :: m.written)

structure Member.Read (item : Cursor → Reading Json) (m : Member) : Prop where
  key : Plain m.key
  value : Reads item m.written m.value

theorem Member.Read.reads {m : Member} (h : m.Read item) :
    Reads (readMember item) m.text (m.key, m.value) := by
  intro offset stop hstop rest
  obtain ⟨o, ho⟩ := exists_readString h.key offset (':' :: (m.written ++ stop :: rest))
  obtain ⟨n, hn⟩ := h.value (o + 1) stop hstop rest
  have htext : m.text ++ stop :: rest = quoted m.key (':' :: (m.written ++ stop :: rest)) := by
    simp [Member.text, quoted]
  have hcolon : skipBlanks ⟨o, ':' :: (m.written ++ stop :: rest)⟩ = ⟨o, _⟩ :=
    skipBlanks_cons (by decide) o _
  refine ⟨n, ?_⟩
  rw [htext]
  unfold quoted at ho ⊢
  simp [readMember, ho, hcolon, Cursor.advance, hn]

/-- The fields of an object after one more member. -/
def Member.put (fields : List (String × Json)) (m : Member) : List (String × Json) :=
  putField m.key m.value fields

theorem exists_readMembers_first {m : Member} (h : m.Read item) {stop : Char}
    (hstop : stop ∈ [',', ']', '\x7d']) (fuel offset : Nat) (rest : List Char) :
    ∃ n, readMembers item (fuel + 1) [] ⟨offset, m.text ++ stop :: rest⟩ =
      readMembers item fuel (Member.put [] m) ⟨n, stop :: rest⟩ := by
  obtain ⟨n, hn⟩ := h.reads offset stop hstop rest
  have hblank := skipBlanks_cons (c := '"') (by decide) offset
    (m.key.toList ++ '"' :: (':' :: m.written ++ stop :: rest))
  refine ⟨n, ?_⟩
  unfold Member.text quoted at hn ⊢
  simp only [List.cons_append, List.append_assoc] at hn hblank ⊢
  simp [readMembers, hblank, hn, Member.put]

theorem exists_readMembers_next {m : Member} (h : m.Read item) {acc : List (String × Json)}
    (hacc : acc ≠ []) {stop : Char} (hstop : stop ∈ [',', ']', '\x7d']) (fuel offset : Nat)
    (rest : List Char) :
    ∃ n, readMembers item (fuel + 1) acc ⟨offset, ',' :: (m.text ++ stop :: rest)⟩ =
      readMembers item fuel (Member.put acc m) ⟨n, stop :: rest⟩ := by
  obtain ⟨n, hn⟩ := h.reads (offset + 1) stop hstop rest
  have hcomma := skipBlanks_cons (c := ',') (by decide) offset
    ('"' :: (m.key.toList ++ '"' :: (':' :: m.written ++ stop :: rest)))
  have hblank := skipBlanks_cons (c := '"') (by decide) (offset + 1)
    (m.key.toList ++ '"' :: (':' :: m.written ++ stop :: rest))
  have hempty : acc.isEmpty = false := List.isEmpty_eq_false_iff.mpr hacc
  refine ⟨n, ?_⟩
  unfold Member.text quoted at hn ⊢
  simp only [List.cons_append, List.append_assoc] at hn hcomma hblank ⊢
  simp [readMembers, hcomma, hblank, hempty, Cursor.advance, hn, Member.put]

theorem Member.put_ne_nil (fields : List (String × Json)) (m : Member) : m.put fields ≠ [] := by
  unfold Member.put
  cases fields with
  | nil => simp [putField]
  | cons field fields =>
    obtain ⟨key, value⟩ := field
    unfold putField
    split <;> simp

def moreText (ms : List Member) : List Char := ms.flatMap fun m => ',' :: m.text

theorem exists_stop_of_more (ms : List Member) (rest : List Char) :
    ∃ stop ∈ [',', ']', '\x7d'], ∃ cs, moreText ms ++ '\x7d' :: rest = stop :: cs := by
  cases ms with
  | nil => exact ⟨'\x7d', by decide, rest, rfl⟩
  | cons m ms => exact ⟨',', by decide, _, rfl⟩

theorem exists_readMembers {ms : List Member} (h : ∀ m ∈ ms, m.Read item)
    {acc : List (String × Json)} (hacc : acc ≠ []) {fuel : Nat} (hfuel : ms.length < fuel)
    (offset : Nat) (rest : List Char) :
    ∃ n, readMembers item fuel acc ⟨offset, moreText ms ++ '\x7d' :: rest⟩ =
      .ok (ms.foldl Member.put acc, ⟨n, rest⟩) := by
  induction ms generalizing acc fuel offset with
  | nil =>
    obtain ⟨fuel, rfl⟩ := Nat.exists_eq_add_of_lt hfuel
    have hend := skipBlanks_cons (c := '\x7d') (by decide) offset rest
    exact ⟨offset + 1, by simp [moreText, readMembers, hend, Cursor.advance]⟩
  | cons m ms ih =>
    obtain ⟨fuel, rfl⟩ : ∃ f, fuel = f + 1 := Nat.exists_eq_succ_of_ne_zero (Nat.ne_zero_of_lt hfuel)
    obtain ⟨stop, hstop, cs, hcs⟩ := exists_stop_of_more ms rest
    obtain ⟨n, hn⟩ := exists_readMembers_next (h m (by simp)) hacc hstop fuel offset cs
    obtain ⟨n', hn'⟩ := ih (fun m' hm' => h m' (List.mem_cons_of_mem m hm')) (m.put_ne_nil acc)
      (Nat.lt_of_succ_lt_succ hfuel) n
    refine ⟨n', ?_⟩
    rw [moreText, List.flatMap_cons, ← moreText, List.append_assoc, hcs, List.cons_append, hn, ← hcs,
      hn', List.foldl_cons]

end Members

section Nested

variable {fuel depth : Nat}

def objectText (m : Member) (ms : List Member) : List Char :=
  '\x7b' :: (m.text ++ (moreText ms ++ ['\x7d']))

theorem exists_readValue_object {m : Member} {ms : List Member} (hm : m.Read (readValue fuel depth))
    (hms : ∀ m' ∈ ms, m'.Read (readValue fuel depth)) (hfuel : ms.length + 1 < fuel) (offset : Nat)
    (rest : List Char) :
    ∃ n, readValue fuel (depth + 1) ⟨offset, objectText m ms ++ rest⟩ =
      .ok (.object (ms.foldl Member.put (m.put [])), ⟨n, rest⟩) := by
  obtain ⟨fuel', rfl⟩ : ∃ f, fuel = f + 1 := Nat.exists_eq_succ_of_ne_zero (Nat.ne_zero_of_lt hfuel)
  obtain ⟨stop, hstop, cs, hcs⟩ := exists_stop_of_more ms rest
  obtain ⟨n, hn⟩ := exists_readMembers_first hm hstop fuel' (offset + 1) cs
  obtain ⟨n', hn'⟩ := exists_readMembers hms (m.put_ne_nil []) (Nat.lt_of_succ_lt_succ hfuel) n rest
  have htext : objectText m ms ++ rest = '\x7b' :: (m.text ++ (moreText ms ++ '\x7d' :: rest)) := by
    simp [objectText]
  have hvalue : readValue (fuel' + 1) (depth + 1)
      ⟨offset, '\x7b' :: (m.text ++ (moreText ms ++ '\x7d' :: rest))⟩ =
      (readMembers (readValue (fuel' + 1) depth) (fuel' + 1) []
        ⟨offset + 1, m.text ++ (moreText ms ++ '\x7d' :: rest)⟩).map
          fun r => (.object r.1, r.2) := rfl
  refine ⟨n', ?_⟩
  rw [htext, hvalue, hcs, hn, ← hcs, hn']
  rfl

def arrayText (written : List Char) : List Char := '[' :: (written ++ [']'])

theorem exists_readItems {item : Cursor → Reading Json} {m : Member} {ms : List Member} {value : Json}
    (h : Reads item (objectText m ms) value) (fuel offset : Nat) (rest : List Char) :
    ∃ n, readItems item (fuel + 2) [] ⟨offset, objectText m ms ++ ']' :: rest⟩ =
      .ok ([value], ⟨n, rest⟩) := by
  obtain ⟨n, hn⟩ := h offset ']' (by decide) rest
  have hopen := skipBlanks_cons (c := '\x7b') (by decide) offset
    (m.text ++ (moreText ms ++ '\x7d' :: ']' :: rest))
  have hclose := skipBlanks_cons (c := ']') (by decide) n rest
  refine ⟨n + 1, ?_⟩
  simp only [objectText, List.cons_append, List.append_assoc, List.nil_append] at hn ⊢
  simp [readItems, hopen, hn, hclose, Cursor.advance]

theorem reads_array {m : Member} {ms : List Member} {value : Json}
    (h : Reads (readValue fuel depth) (objectText m ms) value) (hfuel : 1 < fuel) :
    Reads (readValue fuel (depth + 1)) (arrayText (objectText m ms)) (.array [value]) := by
  intro offset stop _ rest
  obtain ⟨fuel', rfl⟩ : ∃ f, fuel = f + 2 := Nat.exists_eq_add_of_le' hfuel
  obtain ⟨n, hn⟩ := exists_readItems h fuel' (offset + 1) (stop :: rest)
  have htext : arrayText (objectText m ms) ++ stop :: rest =
      '[' :: (objectText m ms ++ ']' :: stop :: rest) := by
    simp [arrayText]
  have hvalue : readValue (fuel' + 2) (depth + 1)
      ⟨offset, '[' :: (objectText m ms ++ ']' :: stop :: rest)⟩ =
      (readItems (readValue (fuel' + 2) depth) (fuel' + 2) []
        ⟨offset + 1, objectText m ms ++ ']' :: stop :: rest⟩).map fun r => (.array r.1, r.2) := rfl
  refine ⟨n, ?_⟩
  rw [htext, hvalue, hn]
  rfl

end Nested

theorem parse_object {m : Member} {ms : List Member}
    (hm : ∀ fuel, m.Read (readValue (fuel + 6) 126))
    (hms : ∀ fuel, ∀ m' ∈ ms, m'.Read (readValue (fuel + 6) 126)) :
    parse (String.ofList (objectText m ms)) = .ok (.object (ms.foldl Member.put (m.put []))) := by
  -- Each member takes at least one character, so the length of the text is fuel enough.
  have hmore : ms.length ≤ (moreText ms).length := length_le_flatMap ',' Member.text ms
  have hlength : (objectText m ms).length =
      m.key.toList.length + m.written.length + (moreText ms).length + 5 := by
    simp only [objectText, Member.text, quoted, List.length_cons, List.length_append, List.length_nil]
    omega
  have hfuel : ms.length + 1 < (objectText m ms).length + 1 := by omega
  rw [hlength] at hfuel
  obtain ⟨n, hn⟩ := exists_readValue_object (hm _) (hms _) hfuel 0 []
  rw [List.append_nil] at hn
  have hdocument : readDocument ⟨0, objectText m ms⟩ =
      .ok (.object (ms.foldl Member.put (m.put []))) := by
    unfold readDocument maxDepth
    dsimp only
    rw [hlength, hn]
    rfl
  rw [parse, String.toList_ofList, hdocument]

end Json

/-! ## Documents with one mapping -/

/-- The document with the given name and endpoint and the least there can be besides. -/
def oneMapping (name endpoint : String) : Document where
  name := name
  versionMajor := 0
  versionMinor := 1
  kind := .datastream
  ownership := .device
  aggregation := .individual
  mappings := [⟨endpoint, ⟨.string, false⟩, .unreliable, false, false⟩]
  source := "a.json"

namespace OneMapping

open Json

def stringMember (key value : String) : Member := ⟨key, quoted value [], .string value⟩

def mappingText (endpoint : String) : List Char :=
  objectText (stringMember "endpoint" endpoint) [stringMember "type" "string"]

def mappingFields (endpoint : String) : List (String × Json) :=
  [("endpoint", .string endpoint), ("type", .string "string")]

def moreMembers (endpoint : String) : List Member :=
  [⟨"version_major", ['0'], .number (.unsigned 0)⟩,
   ⟨"version_minor", ['1'], .number (.unsigned 1)⟩,
   stringMember "type" "datastream",
   stringMember "ownership" "device",
   ⟨"mappings", arrayText (mappingText endpoint), .array [.object (mappingFields endpoint)]⟩]

def text (name endpoint : String) : String :=
  String.ofList (objectText (stringMember "name" name) (moreMembers endpoint))

def fields (name endpoint : String) : List (String × Json) :=
  [("name", .string name),
   ("version_major", .number (.unsigned 0)),
   ("version_minor", .number (.unsigned 1)),
   ("type", .string "datastream"),
   ("ownership", .string "device"),
   ("mappings", .array [.object (mappingFields endpoint)])]

variable {fuel depth : Nat}

theorem read_stringMember {key value : String} (hk : Plain key) (hv : Plain value) :
    (stringMember key value).Read (readValue fuel (depth + 1)) :=
  ⟨hk, reads_string hv⟩

theorem reads_mapping {endpoint : String} (h : Plain endpoint) :
    Reads (readValue (fuel + 3) (depth + 2)) (mappingText endpoint)
      (.object (mappingFields endpoint)) := by
  have htype : ∀ m ∈ [stringMember "type" "string"], m.Read (readValue (fuel + 3) (depth + 1)) :=
    List.forall_mem_singleton.mpr (read_stringMember (.literal (by decide)) (.literal (by decide)))
  intro offset stop _ rest
  exact exists_readValue_object (read_stringMember (.literal (by decide)) h) htype (by simp) offset
    (stop :: rest)

theorem read_moreMembers {endpoint : String} (h : Plain endpoint) :
    ∀ m ∈ moreMembers endpoint, m.Read (readValue (fuel + 3) (depth + 3)) := by
  simp only [moreMembers, List.forall_mem_cons]
  exact ⟨⟨.literal (by decide), reads_digit (by decide)⟩,
    ⟨.literal (by decide), reads_digit (by decide)⟩,
    read_stringMember (.literal (by decide)) (.literal (by decide)),
    read_stringMember (.literal (by decide)) (.literal (by decide)),
    ⟨.literal (by decide), reads_array (reads_mapping h) (by simp)⟩,
    List.forall_mem_nil _⟩

theorem parse_text {name endpoint : String} (hn : Plain name) (he : Plain endpoint) :
    Json.parse (text name endpoint) = .ok (.object (fields name endpoint)) := by
  have hname : Plain "name" := .literal (by decide)
  have hparse := parse_object (fun _ => read_stringMember hname hn) (fun _ => read_moreMembers he)
  have hfields : (moreMembers endpoint).foldl Member.put ((stringMember "name" name).put []) =
      fields name endpoint := by
    simp [moreMembers, stringMember, Member.put, putField, fields]
  rw [text, hparse, hfields]

theorem describes_mapping {endpoint : String} (h : Schema.IsEndpoint endpoint) :
    Schema.DescribesMapping true (mappingFields endpoint)
      ⟨endpoint, ⟨.string, false⟩, .unreliable, false, false⟩ where
  endpoint := rfl
  isEndpoint := h
  type := rfl
  reliability := .absent ⟨rfl, rfl⟩
  explicitTimestamp := .absent ⟨rfl, rfl⟩
  allowUnset := .absent ⟨rfl, rfl⟩

theorem describes {name endpoint : String} (hn : Schema.IsName name) (he : Schema.IsEndpoint endpoint) :
    Schema.DescribesDocument true "a.json" (fields name endpoint) (oneMapping name endpoint) := by
  have hmajor : 0 < UInt32.size := by decide
  have hminor : 1 < UInt32.size := by decide
  exact {
    name := rfl
    isName := hn
    versionMajor := ⟨_, rfl, rfl, hmajor⟩
    versionMinor := ⟨_, rfl, rfl, hminor⟩
    kind := rfl
    ownership := rfl
    aggregation := .absent ⟨rfl, rfl⟩
    mappings := ⟨_, rfl, by simp, .cons ⟨_, rfl, describes_mapping he⟩ .nil⟩
    source := rfl }

end OneMapping

theorem Json.plain_of_printed {s : String} (h : Printed s) (hquote : '"' ∉ s.toList) : Plain s := by
  intro c hc
  have hprinted := h c hc
  have hq : c ≠ '"' := fun he => hquote (he ▸ hc)
  simp only [isPrinted, Bool.and_eq_true, decide_eq_true_eq, bne_iff_ne] at hprinted
  simp [isPlain, hq, hprinted]

/-- Every name and every endpoint of the schema are those of an accepted document. -/
theorem oneMapping_accepted {name endpoint : String} (hn : Schema.IsName name)
    (he : Schema.IsEndpoint endpoint) : (oneMapping name endpoint).Accepted := by
  have hname := Json.plain_of_printed hn.worded.printed (hn.worded.not_mem (by decide))
  have hendpoint := Json.plain_of_printed he.printed he.not_mem_quote
  exact ⟨true, "a.json", OneMapping.text name endpoint,
    Document.parse_of_describes (OneMapping.parse_text hname hendpoint) (OneMapping.describes hn he)⟩

end InterfaceTables
