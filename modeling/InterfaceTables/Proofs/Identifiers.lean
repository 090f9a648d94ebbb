import InterfaceTables.Proofs.TextLines
import InterfaceTables.Table.Collision

/-!
The identifiers of a run. The check for collisions passes exactly if none is taken twice, and each of
them has the form of a C identifier that starts with a letter.
-/

namespace InterfaceTables

namespace Collision

theorem lookup_eq_none_iff {taken : List (String × InterfaceRecord)} {s : String} :
    taken.lookup s = none ↔ s ∉ taken.map Prod.fst := by
  simp only [List.lookup_eq_none_iff, List.mem_map, not_exists, not_and, bne_iff_ne]
  exact ⟨fun h u hu he => h u hu he.symm, fun h u hu he => h u hu he.symm⟩

/-- Nothing clashes exactly if the identifiers to come differ from each other and from those taken. -/
theorem firstClash?_eq_none_iff {taken us : List (String × InterfaceRecord)} :
    firstClash? taken us = none ↔
      (us.map Prod.fst).Nodup ∧ ∀ s ∈ us.map Prod.fst, s ∉ taken.map Prod.fst := by
  induction us generalizing taken with
  | nil => simp [firstClash?]
  | cons u us ih =>
    obtain ⟨s, r⟩ := u
    rw [List.map_cons, List.nodup_cons, List.forall_mem_cons]
    cases hs : taken.lookup s with
    | none =>
      have hnew := lookup_eq_none_iff.mp hs
      simp only [firstClash?, hs, ih, List.map_cons, List.mem_cons, not_or]
      constructor
      · rintro ⟨hnodup, hall⟩
        exact ⟨⟨fun hm => (hall s hm).1 rfl, hnodup⟩, hnew, fun t ht => (hall t ht).2⟩
      · rintro ⟨⟨hs', hnodup⟩, -, hall⟩
        exact ⟨hnodup, fun t ht => ⟨fun he => hs' (he ▸ ht), hall t ht⟩⟩
    | some owner =>
      have hold : ¬ s ∉ taken.map Prod.fst := by
        rw [← lookup_eq_none_iff, hs]
        simp
      simp only [firstClash?, hs]
      exact ⟨fun h => absurd h (by simp), fun h => absurd h.2.1 hold⟩

theorem find?_eq_none_iff {records : List InterfaceRecord} :
    find? records = none ↔ (records.flatMap InterfaceRecord.identifiers).Nodup := by
  have huses : (uses records).map Prod.fst = records.flatMap InterfaceRecord.identifiers := by
    simp [uses, List.map_flatMap, Function.comp_def]
  simp [find?, firstClash?_eq_none_iff, huses]

end Collision

namespace Symbol

/-- A letter followed by letters, digits and underscores. -/
def IsIdentifier (s : String) : Prop :=
  ∃ first rest, s.toList = first :: rest ∧ Schema.IsLetter first ∧ ∀ c ∈ rest, isWordChar c = true

theorem isWordChar_of_isLetter {c : Char} (h : Schema.IsLetter c) : isWordChar c = true := by
  unfold Schema.IsLetter at h
  simp only [isWordChar, Bool.or_eq_true, Bool.and_eq_true, decide_eq_true_eq]
  exact .inl (.inl h)

theorem sanitizeChar_eq_self {c : Char} (h : isWordChar c = true) : sanitizeChar c = c := if_pos h

/-- The identifier for a name of the schema. -/
theorem isIdentifier_sanitize {name : String} (h : Schema.IsName name) :
    IsIdentifier (sanitize name) := by
  obtain ⟨first, rest, hs, hfirst, -⟩ := h
  have hs' : (sanitize name).toList = first :: rest.map sanitizeChar := by
    rw [sanitize, String.toList_ofList, hs, List.map_cons,
      sanitizeChar_eq_self (isWordChar_of_isLetter hfirst)]
  have hrest : ∀ c ∈ rest.map sanitizeChar, isWordChar c = true := fun c hc =>
    wordlike_sanitize name c (hs' ▸ List.mem_cons_of_mem first hc)
  exact ⟨first, rest.map sanitizeChar, hs', hfirst, hrest⟩

theorem IsIdentifier.mappings {s : String} (h : IsIdentifier s) : IsIdentifier (mappings s) := by
  obtain ⟨first, rest, hs, hfirst, hrest⟩ := h
  have hsuffix : "_mappings".toList.all isWordChar = true := by decide
  refine ⟨first, rest ++ "_mappings".toList, ?_, hfirst, List.forall_mem_append.mpr
    ⟨hrest, List.all_eq_true.mp hsuffix⟩⟩
  rw [Symbol.mappings, String.toList_append, hs, List.cons_append]

end Symbol

theorem Document.Accepted.isName {d : Document} (h : d.Accepted) : Schema.IsName d.name := by
  obtain ⟨applyDefaults, source, text, hparse⟩ := h
  obtain ⟨entries, -, hd⟩ := Document.exists_of_parse hparse
  exact hd.isName

end InterfaceTables
