import InterfaceTables.Proofs.AcceptedNames
import InterfaceTables.Proofs.Identifiers
import Mathlib.Data.List.Nodup

/-!
What the check for collisions reports. The identifiers of a run stand in one sequence, two for each
interface, and the check tells the first of them that was taken before, with both owners.
-/

namespace InterfaceTables

namespace Collision

/-- The identifiers of a run: for each interface that of its record, then that of its array. -/
def sequence (records : List InterfaceRecord) : List String :=
  records.flatMap InterfaceRecord.identifiers

/-- Place `later` of a list is the first whose item stands at a place before it, and this place is
`earlier`. -/
structure FirstRepeat (ids : List String) (earlier later : Nat) : Prop where
  lt : earlier < later
  lt_length : later < ids.length
  same : ids[earlier]? = ids[later]?
  unique : ∀ k < later, ids[k]? = ids[later]? → k = earlier
  first : ∀ j < later, ∀ k < j, ids[k]? ≠ ids[j]?

/-- The identifier at the first repeated place with the interface that took it before and the one that
takes it there. -/
def IsEarliest (records : List InterfaceRecord) (c : Collision) : Prop :=
  ∃ (earlier later : Nat) (symbol : String) (r s : InterfaceRecord),
    FirstRepeat (sequence records) earlier later ∧
    (sequence records)[later]? = some symbol ∧ earlier / 2 < later / 2 ∧
    records[earlier / 2]? = some r ∧ records[later / 2]? = some s ∧
    c = ⟨symbol, r.name, r.source, s.name, s.source⟩

theorem map_fst_uses (records : List InterfaceRecord) :
    (uses records).map Prod.fst = sequence records := by
  simp [uses, sequence, List.map_flatMap, Function.comp_def]

theorem getElem?_uses (records : List InterfaceRecord) (j : Nat) :
    (uses records)[j]? = records[j / 2]?.map fun r =>
      (if j % 2 = 0 then r.symbol else r.mappingsSymbol, r) := by
  induction records generalizing j with
  | nil => simp [uses]
  | cons r records ih =>
    have hcons : uses (r :: records) = (r.symbol, r) :: (r.mappingsSymbol, r) :: uses records := by
      simp [uses, InterfaceRecord.identifiers]
    rw [hcons]
    obtain _ | _ | j := j
    · simp
    · simp
    · simp [ih, Nat.add_assoc]

theorem symbol_ne_mappingsSymbol (r : InterfaceRecord) : r.symbol ≠ r.mappingsSymbol := by
  intro h
  have hlength := congrArg String.length h
  simp [InterfaceRecord.mappingsSymbol, Symbol.mappings] at hlength

/-! ## The first clash -/

/-- The check stops at the first use of an identifier that the uses before it have taken. -/
theorem firstClash?_eq_some_iff {taken us : List (String × InterfaceRecord)} {c : Collision} :
    firstClash? taken us = some c ↔ ∃ before symbol r after owner,
      us = before ++ (symbol, r) :: after ∧ firstClash? taken before = none ∧
      (before.reverse ++ taken).lookup symbol = some owner ∧ c = between symbol owner r := by
  induction us generalizing taken with
  | nil => simp [firstClash?]
  | cons u us ih =>
    obtain ⟨symbol, r⟩ := u
    cases hs : taken.lookup symbol with
    | some owner =>
      simp only [firstClash?, hs, Option.some.injEq]
      constructor
      · rintro rfl
        exact ⟨[], symbol, r, us, owner, rfl, rfl, by simpa using hs, rfl⟩
      · rintro ⟨before, symbol', r', after, owner', he, hfree, hown, rfl⟩
        cases before with
        | nil =>
          simp only [List.nil_append, List.cons.injEq, Prod.mk.injEq] at he
          obtain ⟨⟨rfl, rfl⟩, -⟩ := he
          rw [List.reverse_nil, List.nil_append, hs] at hown
          rw [Option.some.inj hown]
        | cons u before =>
          obtain ⟨rfl, -⟩ := List.cons.inj he
          simp [firstClash?, hs] at hfree
    | none =>
      simp only [firstClash?, hs, ih]
      constructor
      · rintro ⟨before, symbol', r', after, owner, rfl, hfree, hown, rfl⟩
        exact ⟨(symbol, r) :: before, symbol', r', after, owner, rfl, by simpa [firstClash?, hs],
          by simpa using hown, rfl⟩
      · rintro ⟨before, symbol', r', after, owner, he, hfree, hown, rfl⟩
        cases before with
        | nil =>
          simp only [List.nil_append, List.cons.injEq, Prod.mk.injEq] at he
          obtain ⟨⟨rfl, rfl⟩, -⟩ := he
          simp [hs] at hown
        | cons u before =>
          obtain ⟨rfl, rfl⟩ := List.cons.inj he
          exact ⟨before, symbol', r', after, owner, rfl, by simpa [firstClash?, hs] using hfree,
            by simpa using hown, rfl⟩

theorem find?_append {records : List InterfaceRecord} {c : Collision} (h : find? records = some c)
    (more : List InterfaceRecord) : find? (records ++ more) = some c := by
  obtain ⟨before, symbol, r, after, owner, hus, hfree, hown, rfl⟩ := firstClash?_eq_some_iff.mp h
  have hus' : uses (records ++ more) = before ++ (symbol, r) :: (after ++ uses more) := by
    simpa [uses] using congrArg (· ++ uses more) hus
  exact firstClash?_eq_some_iff.mpr ⟨before, symbol, r, _, owner, hus', hfree, hown, rfl⟩

theorem FirstRepeat.eq {ids : List String} {e l e' l' : Nat} (h : FirstRepeat ids e l)
    (h' : FirstRepeat ids e' l') : e = e' ∧ l = l' := by
  have hl : l = l' := by
    rcases Nat.lt_trichotomy l l' with hlt | heq | hlt
    · exact absurd h.same (h'.first l hlt e h.lt)
    · exact heq
    · exact absurd h'.same (h.first l' hlt e' h'.lt)
  subst hl
  exact ⟨h'.unique e h.lt h.same, rfl⟩

theorem firstRepeat_of_nodup {ids : List String} {earlier later : Nat} (hlt : earlier < later)
    (hlength : later < ids.length) (hsame : ids[earlier]? = ids[later]?)
    (hnodup : (ids.take later).Nodup) : FirstRepeat ids earlier later := by
  have hfirst : ∀ j < later, ∀ k < j, ids[k]? ≠ ids[j]? := by
    intro j hj k hk
    have hne := List.nodup_iff_getElem?_ne_getElem?.mp hnodup k j hk (by simp; omega)
    rwa [List.getElem?_take_of_lt (by omega), List.getElem?_take_of_lt hj] at hne
  refine ⟨hlt, hlength, hsame, fun k hk he => ?_, hfirst⟩
  rcases Nat.lt_trichotomy k earlier with hlt' | heq | hlt'
  · exact absurd (he.trans hsame.symm) (hfirst earlier hlt k hlt')
  · exact heq
  · exact absurd (hsame.trans he.symm) (hfirst k hk earlier hlt')

theorem isEarliest_of_find? {records : List InterfaceRecord} {c : Collision}
    (h : find? records = some c) : IsEarliest records c := by
  obtain ⟨before, symbol, s, after, owner, hus, hfree, hown, rfl⟩ := firstClash?_eq_some_iff.mp h
  rw [List.append_nil] at hown
  obtain ⟨back, front, hback, -⟩ := List.lookup_eq_some_iff.mp hown
  have hbefore : before = front.reverse ++ (symbol, owner) :: back.reverse := by
    rw [← before.reverse_reverse, hback]
    simp
  have hnodup := (firstClash?_eq_none_iff.mp hfree).1
  have hids : sequence records = before.map Prod.fst ++ symbol :: after.map Prod.fst := by
    rw [← map_fst_uses, hus, List.map_append, List.map_cons]
  -- The owner stands in the uses where the earlier one was made, the clash where the later one is.
  have hearlier : (uses records)[front.length]? = some (symbol, owner) := by
    simp [hus, hbefore]
  have hlater : (uses records)[before.length]? = some (symbol, s) := by
    simp [hus]
  have hlt : front.length < before.length := by
    simp [hbefore]
  have hsame : (sequence records)[front.length]? = (sequence records)[before.length]? := by
    rw [← map_fst_uses, List.getElem?_map, List.getElem?_map, hearlier, hlater]
    rfl
  have hrepeat : FirstRepeat (sequence records) front.length before.length := by
    refine firstRepeat_of_nodup hlt ?_ hsame ?_
    · simp [hids]
    · simpa [hids] using hnodup
  rw [getElem?_uses, Option.map_eq_some_iff] at hearlier hlater
  obtain ⟨r, hr, hre⟩ := hearlier
  obtain ⟨s', hs, hse⟩ := hlater
  obtain ⟨hsymbol, rfl⟩ := Prod.mk.inj hre
  obtain ⟨hsymbol', rfl⟩ := Prod.mk.inj hse
  refine ⟨front.length, before.length, symbol, r, s', hrepeat, by simp [hids], ?_, hr, hs, rfl⟩
  have hne : front.length / 2 ≠ before.length / 2 := by
    intro heq
    obtain rfl : r = s' := Option.some.inj (by rw [← hr, ← hs, heq])
    rw [if_pos (by omega)] at hsymbol
    rw [if_neg (by omega)] at hsymbol'
    exact symbol_ne_mappingsSymbol r (hsymbol.trans hsymbol'.symm)
  omega

theorem find?_eq_some_iff {records : List InterfaceRecord} {c : Collision} :
    find? records = some c ↔ IsEarliest records c := by
  refine ⟨isEarliest_of_find?, fun hc => ?_⟩
  obtain ⟨earlier, later, symbol, r, s, hrepeat, hsymbol, -, hr, hs, rfl⟩ := hc
  cases hfind : find? records with
  | none =>
    have hnodup := find?_eq_none_iff.mp hfind
    exact absurd hrepeat.same
      (List.nodup_iff_getElem?_ne_getElem?.mp hnodup _ _ hrepeat.lt hrepeat.lt_length)
  | some c =>
    obtain ⟨earlier', later', symbol', r', s', hrepeat', hsymbol', -, hr', hs', rfl⟩ :=
      isEarliest_of_find? hfind
    obtain ⟨rfl, rfl⟩ := hrepeat.eq hrepeat'
    obtain rfl : symbol = symbol' := Option.some.inj (hsymbol.symm.trans hsymbol')
    obtain rfl : r = r' := Option.some.inj (hr.symm.trans hr')
    obtain rfl : s = s' := Option.some.inj (hs.symm.trans hs')
    rfl

theorem find?_eq_none_of_perm {records records' : List InterfaceRecord}
    (h : records.Perm records') : find? records = none ↔ find? records' = none := by
  rw [find?_eq_none_iff, find?_eq_none_iff]
  exact (h.flatMap_right InterfaceRecord.identifiers).nodup_iff

/-! ## Names that clash -/

theorem disjoint_identifiers_iff {r s : InterfaceRecord} :
    r.identifiers.Disjoint s.identifiers ↔
      r.symbol ≠ s.symbol ∧ r.symbol ≠ s.mappingsSymbol ∧ s.symbol ≠ r.mappingsSymbol := by
  have hmappings : r.mappingsSymbol = s.mappingsSymbol ↔ r.symbol = s.symbol := by
    simp [InterfaceRecord.mappingsSymbol, Symbol.mappings]
  simp only [InterfaceRecord.identifiers, List.disjoint_cons_left, List.mem_cons,
    List.not_mem_nil, or_false, List.disjoint_nil_left, and_true, not_or, hmappings]
  tauto

/-- No identifier is taken twice exactly if no interface has the symbol of another, or that of its
array. -/
theorem nodup_sequence_iff {records : List InterfaceRecord} :
    (sequence records).Nodup ↔ ∀ (i j : Nat) (r s : InterfaceRecord), i ≠ j →
      records[i]? = some r → records[j]? = some s →
      r.symbol ≠ s.symbol ∧ r.symbol ≠ s.mappingsSymbol := by
  have hown : ∀ r ∈ records, r.identifiers.Nodup := fun r _ => by
    simp [InterfaceRecord.identifiers, symbol_ne_mappingsSymbol r]
  rw [sequence, List.nodup_flatMap, and_iff_right hown, List.pairwise_iff_getElem]
  constructor
  · intro h i j r s hne hi hj
    obtain ⟨hi', rfl⟩ := List.getElem?_eq_some_iff.mp hi
    obtain ⟨hj', rfl⟩ := List.getElem?_eq_some_iff.mp hj
    rcases Nat.lt_or_gt_of_ne hne with hlt | hlt
    · have hd := disjoint_identifiers_iff.mp (h i j hi' hj' hlt)
      exact ⟨hd.1, hd.2.1⟩
    · have hd := disjoint_identifiers_iff.mp (h j i hj' hi' hlt)
      exact ⟨hd.1.symm, hd.2.2⟩
  · intro h i j hi hj hlt
    have hij := h i j _ _ (Nat.ne_of_lt hlt) (List.getElem?_eq_getElem hi) (List.getElem?_eq_getElem hj)
    have hji := h j i _ _ (Nat.ne_of_gt hlt) (List.getElem?_eq_getElem hj) (List.getElem?_eq_getElem hi)
    exact disjoint_identifiers_iff.mpr ⟨hij.1, hij.2, hji.2⟩

end Collision

/-- A name with underscores in place of its dots and hyphens. -/
def underscored (name : String) : String :=
  String.ofList (name.toList.map fun c => if c = '.' ∨ c = '-' then '_' else c)

theorem sanitize_eq_underscored {name : String} (h : Schema.IsName name) :
    Symbol.sanitize name = underscored name := by
  obtain ⟨first, rest, hname, hfirst, hrest⟩ := h
  have hchar : ∀ c ∈ name.toList, Symbol.isWordChar c = true ∨ c = '.' ∨ c = '-' := by
    intro c hc
    rw [hname, List.mem_cons] at hc
    rcases hc with rfl | hc
    · exact .inl (Symbol.isWordChar_of_isLetter hfirst)
    · rcases hrest c hc with hletter | hdigit | rfl | rfl | rfl
      · exact .inl (Symbol.isWordChar_of_isLetter hletter)
      · exact .inl (by simp [Symbol.isWordChar, hdigit])
      · exact .inr (.inl rfl)
      · exact .inr (.inr rfl)
      · exact .inl (by decide)
  unfold Symbol.sanitize underscored
  congr 1
  refine List.map_congr_left fun c hc => ?_
  rcases hchar c hc with hword | rfl | rfl
  · rw [Symbol.sanitizeChar_eq_self hword, if_neg]
    rintro (rfl | rfl)
    · exact absurd hword (by decide)
    · exact absurd hword (by decide)
  · decide
  · decide

namespace Collision

/-- Two names at different places are the same with underscores, or one is the other with the ending
of an array. -/
def NamesClash (documents : List Document) : Prop :=
  ∃ (i j : Nat) (d d' : Document), i ≠ j ∧ documents[i]? = some d ∧ documents[j]? = some d' ∧
    (underscored d.name = underscored d'.name ∨
      underscored d.name = underscored d'.name ++ "_mappings")

theorem find?_ne_none_iff_namesClash {documents : List Document} (h : ∀ d ∈ documents, d.Accepted) :
    find? (documents.map Document.record) ≠ none ↔ NamesClash documents := by
  have hsymbol : ∀ {i : Nat} {d : Document}, documents[i]? = some d →
      d.record.symbol = underscored d.name := fun hd =>
    sanitize_eq_underscored (h _ (List.mem_of_getElem? hd)).isName
  rw [Ne, find?_eq_none_iff]
  change ¬ (sequence (documents.map Document.record)).Nodup ↔ _
  rw [nodup_sequence_iff]
  simp only [List.getElem?_map, Option.map_eq_some_iff]
  constructor
  · intro hclash
    by_contra hfree
    refine hclash ?_
    rintro i j _ _ hne ⟨d, hd, rfl⟩ ⟨d', hd', rfl⟩
    rw [InterfaceRecord.mappingsSymbol, hsymbol hd, hsymbol hd']
    refine ⟨fun he => ?_, fun he => ?_⟩
    · exact hfree ⟨i, j, d, d', hne, hd, hd', .inl he⟩
    · exact hfree ⟨i, j, d, d', hne, hd, hd', .inr he⟩
  · rintro ⟨i, j, d, d', hne, hd, hd', he⟩ hfree
    have hij := hfree i j d.record d'.record hne ⟨d, hd, rfl⟩ ⟨d', hd', rfl⟩
    rw [InterfaceRecord.mappingsSymbol, hsymbol hd, hsymbol hd'] at hij
    rcases he with he | he
    · exact hij.1 he
    · exact hij.2 he

/-- The check passes exactly if no identifier is taken twice, in whatever order the interfaces come.
If one is, the check tells the first that was taken before and the two interfaces that take it,
whatever other interfaces follow. Accepted documents fail exactly if two of their names clash. -/
theorem check_finds_earliest_clash (records : List InterfaceRecord) (documents : List Document) :
    (find? records = none ↔ (sequence records).Nodup) ∧
      (∀ records', records.Perm records' → (find? records = none ↔ find? records' = none)) ∧
      (∀ c, find? records = some c ↔ IsEarliest records c) ∧
      (∀ c more, find? records = some c → find? (records ++ more) = some c) ∧
      ((∀ d ∈ documents, d.Accepted) →
        (find? (documents.map Document.record) ≠ none ↔ NamesClash documents)) :=
  ⟨find?_eq_none_iff, fun _ => find?_eq_none_of_perm, fun _ => find?_eq_some_iff,
    fun _ more h => find?_append h more, find?_ne_none_iff_namesClash⟩

/-- Two names that differ in a separator, with another between them. -/
def separators : List Document :=
  [oneMapping "org.a-b" "/v", oneMapping "org.c" "/v", oneMapping "org.a_b" "/v"]

theorem check_finds_separators :
    (∀ d ∈ separators, d.Accepted) ∧ NamesClash separators ∧
      (separators.map Document.record).Perm (separators.reverse.map Document.record) ∧
      find? (separators.reverse.map Document.record) ≠ none ∧
      ∀ more, find? (separators.map Document.record ++ more) =
        some ⟨"org_a_b", "org.a-b", "a.json", "org.a_b", "a.json"⟩ := by
  have haccepted : ∀ d ∈ separators, d.Accepted := by
    have hendpoint : Schema.IsEndpoint "/v" := Schema.isEndpoint_iff.mp (by decide)
    simp only [separators, List.forall_mem_cons]
    exact ⟨oneMapping_accepted (Schema.isName_iff.mp (by decide)) hendpoint,
      oneMapping_accepted (Schema.isName_iff.mp (by decide)) hendpoint,
      oneMapping_accepted (Schema.isName_iff.mp (by decide)) hendpoint, List.forall_mem_nil _⟩
  have hperm : (separators.map Document.record).Perm (separators.reverse.map Document.record) :=
    separators.reverse_perm.symm.map _
  have hfound : find? (separators.map Document.record) =
      some ⟨"org_a_b", "org.a-b", "a.json", "org.a_b", "a.json"⟩ := by decide +kernel
  obtain ⟨-, horder, -, hmore, hnames⟩ :=
    check_finds_earliest_clash (separators.map Document.record) separators
  refine ⟨haccepted, (hnames haccepted).mp (by simp [hfound]), hperm, ?_, fun more => hmore _ more hfound⟩
  rw [Ne, ← horder _ hperm, hfound]
  simp

end Collision

end InterfaceTables
