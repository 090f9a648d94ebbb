import InterfaceTables.Table.Template
import Mathlib.Data.List.Infix

/-!
What filling a template means. A text is taken apart in just one way into literals, placeholders and
what stands after the last placeholder, and filling puts the values in the places of the
placeholders without looking at them.
-/

namespace InterfaceTables

namespace Template

/-! ## Taking a text apart -/

/-- No placeholder opens in the text. -/
def Unopened (text : List Char) : Prop := ¬ Segment.opening <:+: text

/-- No placeholder of the text is complete: where one opens, nothing closes it. -/
def Incomplete (text : List Char) : Prop :=
  ∀ before after, text = before ++ Segment.opening ++ after → '\x7d' ∉ after

/-- Literals with the keys of the placeholders after them, and what follows the last placeholder. -/
structure Parts where
  front : List (List Char × List Char)
  tail : List Char

namespace Parts

def text (p : Parts) : List Char :=
  p.front.flatMap (fun part => part.1 ++ Segment.opening ++ part.2 ++ ['\x7d']) ++ p.tail

/-- The parts are those of a text. -/
structure Of (p : Parts) (cs : List Char) : Prop where
  unopened : ∀ part ∈ p.front, Unopened part.1
  unclosed : ∀ part ∈ p.front, '\x7d' ∉ part.2
  incomplete : Incomplete p.tail
  text_eq : p.text = cs

/-- The keys of the placeholders in their order. -/
def keys (p : Parts) : List String := p.front.map fun part => String.ofList part.2

/-- The value of the first variable of a key, or else the placeholder itself. -/
def valueOf (vars : List (String × String)) (key : List Char) : List Char :=
  match vars.lookup (String.ofList key) with
  | some value => value.toList
  | none => Segment.opening ++ key ++ ['\x7d']

/-- The parts put together with the values of the variables. -/
def filled (p : Parts) (vars : List (String × String)) : List Char :=
  p.front.flatMap (fun part => part.1 ++ valueOf vars part.2) ++ p.tail

end Parts

/-! ## Literals and tails -/

theorem unopened_nil : Unopened [] := by
  simp [Unopened, Segment.opening]

theorem unopened_cons_iff {c : Char} {cs : List Char} :
    Unopened (c :: cs) ↔ Unopened cs ∧ ¬ (c = '$' ∧ cs.head? = some '\x7b') := by
  have hstart : Segment.opening <+: c :: cs ↔ c = '$' ∧ cs.head? = some '\x7b' := by
    cases cs <;> simp [Segment.opening, List.cons_prefix_cons, eq_comm]
  simp only [Unopened, List.infix_cons_iff, hstart]
  tauto

/-- A placeholder after a literal is the first that opens. -/
theorem head?_of_unopened {literal rest : List Char} (h : Unopened ('$' :: literal)) :
    (literal ++ Segment.opening ++ rest).head? ≠ some '\x7b' := by
  cases literal with
  | nil => simp [Segment.opening]
  | cons c literal => simpa using (unopened_cons_iff.mp h).2

theorem Incomplete.of_cons {c : Char} {cs : List Char} (h : Incomplete (c :: cs)) : Incomplete cs :=
  fun before after he => h (c :: before) after (by simp [he])

theorem Incomplete.cons {c : Char} {cs : List Char} (h : Incomplete cs)
    (hc : ¬ (c = '$' ∧ cs.head? = some '\x7b')) : Incomplete (c :: cs) := by
  intro before after he
  cases before with
  | nil =>
    obtain ⟨rfl, rfl⟩ : c = '$' ∧ cs = '\x7b' :: after := by simpa [Segment.opening] using he
    exact absurd ⟨rfl, rfl⟩ hc
  | cons d before => exact h before after (by simpa using (List.cons.inj (by simpa using he)).2)

/-- A placeholder that is never closed. -/
theorem incomplete_opening {cs : List Char} (h : '\x7d' ∉ cs) : Incomplete ('$' :: '\x7b' :: cs) := by
  intro before after he
  match before with
  | [] =>
    have hafter : cs = after := by simpa [Segment.opening] using he
    exact hafter ▸ h
  | [c] => simp [Segment.opening] at he
  | c :: d :: before =>
    have hcs : cs = before ++ Segment.opening ++ after := by
      simp only [List.cons_append, List.cons.injEq] at he
      simpa using he.2.2
    exact fun hm => h (hcs ▸ List.mem_append_right _ hm)

theorem not_incomplete (literal key rest : List Char) :
    ¬ Incomplete (literal ++ Segment.opening ++ key ++ ['\x7d'] ++ rest) :=
  fun h => h literal (key ++ ['\x7d'] ++ rest) (by simp) (by simp)

/-- A text has no complete placeholder or a first one. -/
theorem incomplete_or_exists_first (cs : List Char) :
    Incomplete cs ∨ ∃ literal key rest, Unopened literal ∧ '\x7d' ∉ key ∧
      cs = literal ++ Segment.opening ++ key ++ ['\x7d'] ++ rest := by
  induction cs with
  | nil => exact .inl fun before after he => by simp [Segment.opening] at he
  | cons c cs ih =>
    by_cases hopen : c = '$' ∧ cs.head? = some '\x7b'
    · obtain ⟨rfl, hhead⟩ := hopen
      obtain ⟨inner, rfl⟩ := List.head?_eq_some_iff.mp hhead
      by_cases hclose : '\x7d' ∈ inner
      · obtain ⟨key, rest, rfl, hkey⟩ := List.eq_append_cons_of_mem hclose
        exact .inr ⟨[], key, rest, unopened_nil, hkey, by simp [Segment.opening]⟩
      · exact .inl (incomplete_opening hclose)
    · rcases ih with hin | ⟨literal, key, rest, hl, hkey, rfl⟩
      · exact .inl (hin.cons hopen)
      · refine .inr ⟨c :: literal, key, rest, unopened_cons_iff.mpr ⟨hl, ?_⟩, hkey, by simp⟩
        rintro ⟨rfl, hhead⟩
        exact hopen ⟨rfl, by simp [hhead]⟩

/-! ## What the segments of a text are -/

theorem outside_cons {c : Char} {rest : List Char} (h : ¬ (c = '$' ∧ rest.head? = some '\x7b'))
    (acc : List Char) : Segment.outside acc (c :: rest) = Segment.outside (c :: acc) rest := by
  rw [Segment.outside]
  rintro tail rfl rfl
  exact h ⟨rfl, rfl⟩

theorem inside_cons {c : Char} (h : c ≠ '\x7d') (key rest : List Char) :
    Segment.inside key (c :: rest) = Segment.inside (c :: key) rest := by
  rw [Segment.inside]
  exact h

theorem outside_append_opening {literal : List Char} (h : Unopened literal) (acc rest : List Char) :
    Segment.outside acc (literal ++ Segment.opening ++ rest) =
      .literal (acc.reverse ++ literal) :: Segment.inside [] rest := by
  induction literal generalizing acc with
  | nil => simp [Segment.opening, Segment.outside]
  | cons c literal ih =>
    have hnext : ¬ (c = '$' ∧ (literal ++ Segment.opening ++ rest).head? = some '\x7b') := by
      rintro ⟨rfl, hhead⟩
      exact head?_of_unopened h hhead
    rw [List.cons_append, List.cons_append, outside_cons hnext, ih (unopened_cons_iff.mp h).1]
    simp

theorem inside_append_close {key : List Char} (h : '\x7d' ∉ key) (acc rest : List Char) :
    Segment.inside acc (key ++ '\x7d' :: rest) =
      .placeholder (acc.reverse ++ key) :: Segment.outside [] rest := by
  induction key generalizing acc with
  | nil => simp [Segment.inside]
  | cons c key ih =>
    obtain ⟨hc, hkey⟩ := List.ne_and_not_mem_of_not_mem_cons h
    rw [List.cons_append, inside_cons hc.symm, ih hkey]
    simp

/-- The first placeholder of a text that has one. -/
theorem split_append {literal key : List Char} (hl : Unopened literal) (hk : '\x7d' ∉ key)
    (rest : List Char) :
    Segment.split (literal ++ Segment.opening ++ key ++ ['\x7d'] ++ rest) =
      .literal literal :: .placeholder key :: Segment.split rest := by
  have htext : literal ++ Segment.opening ++ key ++ ['\x7d'] ++ rest =
      literal ++ Segment.opening ++ (key ++ '\x7d' :: rest) := by simp
  rw [htext, Segment.split, outside_append_opening hl, inside_append_close hk]
  rfl

theorem inside_unclosed {cs : List Char} (h : '\x7d' ∉ cs) (key : List Char) :
    Segment.inside key cs = [.literal (Segment.opening ++ (key.reverse ++ cs))] := by
  induction cs generalizing key with
  | nil => simp [Segment.inside]
  | cons c cs ih =>
    obtain ⟨hc, hcs⟩ := List.ne_and_not_mem_of_not_mem_cons h
    rw [inside_cons hc.symm, ih hcs]
    simp

/-- A text without complete placeholders is kept as it is. -/
theorem fill_incomplete {cs : List Char} (h : Incomplete cs) (vars : List (String × String))
    (acc : List Char) :
    (Segment.outside acc cs).flatMap (Segment.fill vars) = acc.reverse ++ cs := by
  induction cs generalizing acc with
  | nil => simp [Segment.outside, Segment.fill]
  | cons c cs ih =>
    by_cases hopen : c = '$' ∧ cs.head? = some '\x7b'
    · obtain ⟨rfl, hhead⟩ := hopen
      obtain ⟨rest, rfl⟩ := List.head?_eq_some_iff.mp hhead
      have hrest : '\x7d' ∉ rest := h [] rest rfl
      simp [Segment.outside, inside_unclosed hrest, Segment.fill, Segment.opening]
    · rw [outside_cons hopen, ih h.of_cons]
      simp

/-! ## The parts of a text -/

namespace Parts

theorem of_nil_iff {tail cs : List Char} : (⟨[], tail⟩ : Parts).Of cs ↔ tail = cs ∧ Incomplete cs := by
  constructor
  · rintro ⟨-, -, htail, rfl⟩
    exact ⟨by simp [text], htail⟩
  · rintro ⟨rfl, h⟩
    exact ⟨by simp, by simp, h, by simp [text]⟩

theorem of_cons_iff {literal key tail cs : List Char} {front : List (List Char × List Char)} :
    (⟨(literal, key) :: front, tail⟩ : Parts).Of cs ↔
      Unopened literal ∧ '\x7d' ∉ key ∧ ∃ rest, (⟨front, tail⟩ : Parts).Of rest ∧
        cs = literal ++ Segment.opening ++ key ++ ['\x7d'] ++ rest := by
  constructor
  · rintro ⟨hl, hk, htail, rfl⟩
    rw [List.forall_mem_cons] at hl hk
    exact ⟨hl.1, hk.1, _, ⟨hl.2, hk.2, htail, rfl⟩, by simp [text]⟩
  · rintro ⟨hl, hk, rest, ⟨hls, hks, htail, rfl⟩, rfl⟩
    exact ⟨List.forall_mem_cons.mpr ⟨hl, hls⟩, List.forall_mem_cons.mpr ⟨hk, hks⟩, htail,
      by simp [text]⟩

theorem exists_of (cs : List Char) : ∃ p : Parts, p.Of cs := by
  induction hn : cs.length using Nat.strong_induction_on generalizing cs with
  | _ n ih =>
    rcases incomplete_or_exists_first cs with hin | ⟨literal, key, rest, hl, hk, rfl⟩
    · exact ⟨⟨[], cs⟩, of_nil_iff.mpr ⟨rfl, hin⟩⟩
    · obtain ⟨⟨front, tail⟩, hp⟩ := ih rest.length (by simp [← hn]; omega) rest rfl
      exact ⟨⟨(literal, key) :: front, tail⟩, of_cons_iff.mpr ⟨hl, hk, rest, hp, rfl⟩⟩

/-- The segments of a text tell its parts, so it has no others. -/
theorem Of.unique {p q : Parts} {cs : List Char} (hp : p.Of cs) (hq : q.Of cs) : p = q := by
  obtain ⟨front, tail⟩ := p
  obtain ⟨front', tail'⟩ := q
  induction front generalizing front' cs with
  | nil =>
    obtain ⟨rfl, hin⟩ := of_nil_iff.mp hp
    cases front' with
    | nil => rw [(of_nil_iff.mp hq).1]
    | cons part front' =>
      obtain ⟨-, -, rest, -, rfl⟩ := of_cons_iff.mp hq
      exact absurd hin (not_incomplete _ _ _)
  | cons part front ih =>
    obtain ⟨hl, hk, rest, hrest, rfl⟩ := of_cons_iff.mp hp
    cases front' with
    | nil => exact absurd (of_nil_iff.mp hq).2 (not_incomplete _ _ _)
    | cons part' front' =>
      obtain ⟨hl', hk', rest', hrest', he⟩ := of_cons_iff.mp hq
      have hsplit := congrArg Segment.split he
      rw [split_append hl hk, split_append hl' hk'] at hsplit
      simp only [List.cons.injEq, Segment.literal.injEq, Segment.placeholder.injEq] at hsplit
      obtain ⟨hliteral, hkey, -⟩ := hsplit
      have hpart : part = part' := Prod.ext hliteral hkey
      subst hpart
      obtain rfl : rest = rest' := List.append_cancel_left he
      simpa using ih hrest front' hrest'

theorem fill_placeholder (vars : List (String × String)) (key : List Char) :
    Segment.fill vars (.placeholder key) = valueOf vars key := by
  unfold Segment.fill valueOf
  rfl

theorem Of.fill {p : Parts} {cs : List Char} (h : p.Of cs) (vars : List (String × String)) :
    (Segment.split cs).flatMap (Segment.fill vars) = p.filled vars := by
  obtain ⟨front, tail⟩ := p
  induction front generalizing cs with
  | nil =>
    obtain ⟨rfl, hin⟩ := of_nil_iff.mp h
    simpa [filled, Segment.split] using fill_incomplete hin vars []
  | cons part front ih =>
    obtain ⟨hl, hk, rest, hrest, rfl⟩ := of_cons_iff.mp h
    rw [split_append hl hk, List.flatMap_cons, List.flatMap_cons, ih hrest, fill_placeholder]
    simp [filled, Segment.fill]

theorem filled_nil (p : Parts) : p.filled [] = p.text := by
  simp [filled, text, valueOf]

/-- Only the values of the keys matter. -/
theorem filled_congr {p : Parts} {vars vars' : List (String × String)}
    (h : ∀ key ∈ p.keys, vars.lookup key = vars'.lookup key) : p.filled vars = p.filled vars' := by
  unfold filled
  congr 1
  refine List.flatMap_congr fun part hpart => ?_
  have hkey := h (String.ofList part.2) (List.mem_map_of_mem hpart)
  simp only [valueOf, hkey]

/-- Where the value of a variable goes does not depend on the value. -/
theorem exists_pieces (p : Parts) (key : String) (vars : List (String × String)) :
    ∃ pieces : List (List Char), pieces.length = p.keys.count key + 1 ∧
      ∀ value : String, p.filled ((key, value) :: vars) = List.intercalate value.toList pieces := by
  obtain ⟨front, tail⟩ := p
  induction front with
  | nil => exact ⟨[tail], by simp [keys], fun value => by simp [filled]⟩
  | cons part front ih =>
    obtain ⟨literal, name⟩ := part
    obtain ⟨pieces, hlength, hpieces⟩ := ih
    obtain ⟨piece, pieces, rfl⟩ := List.exists_cons_of_length_eq_add_one hlength
    have hfilled : ∀ value, filled ⟨(literal, name) :: front, tail⟩ ((key, value) :: vars) =
        literal ++ valueOf ((key, value) :: vars) name ++
          List.intercalate value.toList (piece :: pieces) := fun value => by
      rw [← hpieces]
      simp [filled]
    by_cases hkey : String.ofList name = key
    · refine ⟨literal :: piece :: pieces, ?_, fun value => ?_⟩
      · simpa [keys, hkey] using hlength
      · rw [hfilled]
        simp [valueOf, hkey, List.intercalate_cons_cons]
    · refine ⟨(literal ++ valueOf vars name ++ piece) :: pieces, ?_, fun value => ?_⟩
      · simpa [keys, List.count_cons, hkey] using hlength
      · have hvalue : valueOf ((key, value) :: vars) name = valueOf vars name := by
          have hne : (String.ofList name == key) = false := beq_eq_false_iff_ne.mpr hkey
          simp only [valueOf, List.lookup_cons, hne]
        rw [hfilled, hvalue]
        cases pieces <;> simp [List.intercalate_cons_cons]

end Parts

theorem toList_fill_of {t : Template} {p : Parts} (h : p.Of t.text.toList)
    (vars : List (String × String)) : (t.fill vars).toList = p.filled vars := by
  rw [Template.fill, String.toList_ofList, h.fill]

/-- A template has its parts, and no others. Filling it keeps the literals and puts the value of the
first variable of its key in the place of each placeholder, if there is one. So nothing changes
without variables, a variable that no placeholder names does not matter, and a value stands in the
result as it is, whatever it holds. -/
theorem fill_by_parts (t : Template) :
    (∃! p : Parts, p.Of t.text.toList) ∧ t.fill [] = t.text ∧
      ∀ p : Parts, p.Of t.text.toList →
        (∀ vars, (t.fill vars).toList = p.filled vars) ∧
        (∀ key, key ∉ p.keys → ∀ vars value vars',
          t.fill (vars ++ (key, value) :: vars') = t.fill (vars ++ vars')) ∧
        (∀ key vars, ∃ pieces : List (List Char), pieces.length = p.keys.count key + 1 ∧
          ∀ value : String,
            (t.fill ((key, value) :: vars)).toList = List.intercalate value.toList pieces) := by
  obtain ⟨p, hp⟩ := Parts.exists_of t.text.toList
  refine ⟨⟨p, hp, fun q hq => hq.unique hp⟩, ?_, ?_⟩
  · rw [← String.toList_inj, toList_fill_of hp, p.filled_nil, hp.text_eq]
  · intro p hp
    refine ⟨toList_fill_of hp, ?_, ?_⟩
    · intro key hkey vars value vars'
      rw [← String.toList_inj, toList_fill_of hp, toList_fill_of hp]
      refine Parts.filled_congr fun other hother => ?_
      have hne : (other == key) = false := beq_eq_false_iff_ne.mpr fun he => hkey (he ▸ hother)
      simp only [List.lookup_append, List.lookup_cons, hne]
    · intro key vars
      obtain ⟨pieces, hlength, hpieces⟩ := p.exists_pieces key vars
      exact ⟨pieces, hlength, fun value => (toList_fill_of hp _).trans (hpieces value)⟩

/-- A dollar sign before a placeholder, a value that looks like one, and one that is never closed. -/
def openEnded : Template where
  text := "$$\x7ba\x7d$\x7bb\x7d $\x7bc"

def openEndedParts : Parts := ⟨[(['$'], ['a']), ([], ['b'])], [' ', '$', '\x7b', 'c']⟩

theorem fill_openEnded :
    openEndedParts.Of openEnded.text.toList ∧ "c" ∉ openEndedParts.keys ∧
      openEnded.fill [("a", "$\x7bb\x7d"), ("c", "z"), ("b", "x")] = "$$\x7bb\x7dx $\x7bc" := by
  have htail : Incomplete [' ', '$', '\x7b', 'c'] := (incomplete_opening (by decide)).cons (by decide)
  have hof : openEndedParts.Of openEnded.text.toList :=
    ⟨by simp [openEndedParts, Unopened]; decide, by decide, htail, by decide⟩
  have hkey : "c" ∉ openEndedParts.keys := by decide
  obtain ⟨hfill, hother, -⟩ := (fill_by_parts openEnded).2.2 openEndedParts hof
  refine ⟨hof, hkey, ?_⟩
  have hdrop := hother "c" hkey [("a", "$\x7bb\x7d")] "z" [("b", "x")]
  rw [List.singleton_append] at hdrop
  rw [hdrop, ← String.toList_inj, hfill]
  decide

end Template

end InterfaceTables
