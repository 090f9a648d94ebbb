import InterfaceTables.Proofs.AcceptedNames
import InterfaceTables.Proofs.Identifiers

/-!
Words that C and the generated files use themselves. No array of mappings is ever called so, but an
interface may be: names are taken as they are, and only interfaces are compared with each other.
-/

namespace InterfaceTables

/-! ## Reserved words -/

def keywords : List String :=
  ["alignas", "alignof", "auto", "bool", "break", "case", "char", "const", "constexpr", "continue",
   "default", "do", "double", "else", "enum", "extern", "false", "float", "for", "goto", "if", "inline",
   "int", "long", "nullptr", "register", "restrict", "return", "short", "signed", "sizeof", "static",
   "static_assert", "struct", "switch", "thread_local", "true", "typedef", "typeof", "typeof_unqual",
   "union", "unsigned", "void", "volatile", "while", "_Alignas", "_Alignof", "_Atomic", "_BitInt",
   "_Bool", "_Complex", "_Decimal128", "_Decimal32", "_Decimal64", "_Generic", "_Imaginary",
   "_Noreturn", "_Static_assert", "_Thread_local"]

/-- The types and the constants that the generated files refer to. -/
def tableWords : List String :=
  ["astarte_interface_t", "astarte_mapping_t"] ++ [false, true].map boolConstant ++
    InterfaceKind.all.map InterfaceKind.constant ++ Ownership.all.map Ownership.constant ++
    Aggregation.all.map Aggregation.constant ++ Reliability.all.map Reliability.constant ++
    ValueType.all.map ValueType.constant

/-- A word that means something else in the files of a run. -/
def Reserved (baseName word : String) : Prop :=
  word ∈ keywords ∨ word ∈ tableWords ∨ word = Symbol.includeGuard baseName

instance (baseName word : String) : Decidable (Reserved baseName word) :=
  inferInstanceAs (Decidable (_ ∨ _ ∨ _))

namespace Symbol

/-- A word that names no array of mappings. -/
structure NoArray (word : String) : Prop where
  wordlike : Wordlike word
  ne_mappings : ¬ "_mappings".toList <:+ word.toList

theorem NoArray.literal {cs : List Char} (h : cs.all isWordChar = true)
    (hs : ¬ ['_', 'm', 'a', 'p', 'p', 'i', 'n', 'g', 's'] <:+ cs) : NoArray (String.ofList cs) := by
  refine ⟨.literal h, ?_⟩
  rw [String.toList_ofList, String.toList_ofList]
  exact hs

theorem Capital.noArray {word : String} (h : Capital word) : NoArray word := by
  refine ⟨h.wordlike, fun hs => ?_⟩
  have hmem : 's' ∈ "_mappings".toList := by decide
  exact h.not_mem (by decide) (hs.subset hmem)

end Symbol

theorem noArray_keywords : ∀ w ∈ keywords, Symbol.NoArray w := by
  simp only [keywords, List.forall_mem_cons]
  and_intros
  all_goals first
    | exact List.forall_mem_nil _
    | exact .literal (by decide) (by decide)

theorem noArray_tableWords : ∀ w ∈ tableWords, Symbol.NoArray w := by
  have htypes : ∀ w ∈ ["astarte_interface_t", "astarte_mapping_t"], Symbol.NoArray w := by
    simp only [List.forall_mem_cons]
    exact ⟨.literal (by decide) (by decide), .literal (by decide) (by decide), List.forall_mem_nil _⟩
  have hbools : ∀ b ∈ [false, true], Symbol.NoArray (boolConstant b) := by
    intro b _
    cases b <;> exact .literal (by decide) (by decide)
  simp only [tableWords, List.forall_mem_append, List.forall_mem_map]
  exact ⟨⟨⟨⟨⟨⟨htypes, hbools⟩, fun k _ => k.capital.noArray⟩, fun o _ => o.capital.noArray⟩,
    fun a _ => a.capital.noArray⟩, fun r _ => r.capital.noArray⟩, fun t _ => t.capital.noArray⟩

theorem Reserved.noArray {baseName word : String} (h : Reserved baseName word) :
    Symbol.NoArray word := by
  obtain h | h | rfl := h
  · exact noArray_keywords word h
  · exact noArray_tableWords word h
  · exact (Symbol.capital_includeGuard baseName).noArray

theorem Symbol.NoArray.ne {word : String} (h : NoArray word) (r : InterfaceRecord) :
    r.mappingsSymbol ≠ word := by
  rintro rfl
  apply h.ne_mappings
  rw [InterfaceRecord.mappingsSymbol, mappings, String.toList_append]
  exact List.suffix_append _ _

/-! ## Reserved words as identifiers -/

/-- A run goes on to generate files for the documents. -/
structure Admitted (ds : List Document) : Prop where
  accepted : ∀ d ∈ ds, d.Accepted
  free : Collision.find? (ds.map Document.record) = none

namespace Symbol

theorem sanitize_eq_self {s : String} (h : Wordlike s) : sanitize s = s := by
  rw [sanitize, List.map_congr_left fun c hc => sanitizeChar_eq_self (h c hc), List.map_id',
    String.ofList_toList]

theorem IsIdentifier.isName {s : String} (h : IsIdentifier s) : Schema.IsName s := by
  obtain ⟨first, rest, hs, hfirst, hrest⟩ := h
  refine ⟨first, rest, hs, hfirst, fun c hc => ?_⟩
  have hword := hrest c hc
  simp only [isWordChar, Bool.or_eq_true, Bool.and_eq_true, decide_eq_true_eq, beq_iff_eq] at hword
  obtain (hletter | hdigit) | hunder := hword
  · exact .inl hletter
  · exact .inr (.inl hdigit)
  · exact .inr (.inr (.inr (.inr hunder)))

theorem IsIdentifier.wordlike {s : String} (h : IsIdentifier s) : Wordlike s := by
  obtain ⟨first, rest, hs, hfirst, hrest⟩ := h
  intro c hc
  rw [hs] at hc
  cases List.mem_cons.mp hc with
  | inl he => exact he ▸ isWordChar_of_isLetter hfirst
  | inr hm => exact hrest c hm

theorem Wordlike.isIdentifier {s : String} (h : Wordlike s) {first : Char} {rest : List Char}
    (hs : s.toList = first :: rest) (hfirst : Schema.IsLetter first) : IsIdentifier s :=
  ⟨first, rest, hs, hfirst, fun c hc => h c (hs ▸ List.mem_cons_of_mem first hc)⟩

/-- Every identifier that starts with a letter is the symbol of some interface. -/
theorem IsIdentifier.admitted {s : String} (h : IsIdentifier s) :
    Admitted [oneMapping s "/"] ∧ (oneMapping s "/").record.symbol = s := by
  have hsymbol : (oneMapping s "/").record.symbol = s := sanitize_eq_self h.wordlike
  have hendpoint : Schema.IsEndpoint "/" := Schema.isEndpoint_iff.mp (by decide)
  have hne : s ≠ Symbol.mappings s := by
    intro he
    have hlength := congrArg String.length he
    rw [Symbol.mappings, String.length_append] at hlength
    have hsuffix : 0 < "_mappings".length := by decide
    omega
  refine ⟨⟨List.forall_mem_singleton.mpr (oneMapping_accepted h.isName hendpoint), ?_⟩, hsymbol⟩
  rw [Collision.find?_eq_none_iff]
  simp [InterfaceRecord.identifiers, InterfaceRecord.mappingsSymbol, hsymbol, hne]

end Symbol

/-- A reserved word is an identifier of some run exactly if it starts with a letter, and then it is the
symbol of an interface and never that of an array. -/
theorem reserved_identifier_iff {lead word : String} (h : Reserved (baseName lead) word) :
    ((∃ ds, Admitted ds ∧ ∃ d ∈ ds, d.record.symbol = word) ↔
        ∃ first rest, word.toList = first :: rest ∧ Schema.IsLetter first) ∧
      ∀ d : Document, d.record.mappingsSymbol ≠ word := by
  refine ⟨⟨?_, ?_⟩, fun d => h.noArray.ne d.record⟩
  · rintro ⟨ds, hds, d, hd, rfl⟩
    obtain ⟨first, rest, hs, hfirst, -⟩ := Symbol.isIdentifier_sanitize (hds.accepted d hd).isName
    exact ⟨first, rest, hs, hfirst⟩
  · rintro ⟨first, rest, hs, hfirst⟩
    obtain ⟨hadmitted, hsymbol⟩ := (h.noArray.wordlike.isIdentifier hs hfirst).admitted
    exact ⟨_, hadmitted, _, List.mem_singleton_self _, hsymbol⟩

/-- An interface may be called like the type of integers. -/
theorem int_is_symbol :
    Reserved (baseName "") "int" ∧
      ∃ ds, Admitted ds ∧ ∃ d ∈ ds, d.record.symbol = "int" := by
  have hreserved : Reserved (baseName "") "int" := by decide
  have hletter : ∃ first rest, "int".toList = first :: rest ∧ Schema.IsLetter first :=
    ⟨'i', ['n', 't'], String.toList_ofList, by decide⟩
  exact ⟨hreserved, (reserved_identifier_iff hreserved).1.mpr hletter⟩

end InterfaceTables
