import InterfaceTables.Generation.Output

/-!
The steps of joined paths and of paths that end in a file name with an extension.
-/

namespace InterfaceTables.Path

/-- A step that names an entry of a directory. -/
structure IsEntryName (step : String) : Prop where
  ne_empty : step ≠ ""
  ne_dot : step ≠ "."
  ne_up : step ≠ ".."
  no_slash : '/' ∉ step.toList

instance (step : String) : Decidable (IsEntryName step) :=
  decidable_of_iff (step ≠ "" ∧ step ≠ "." ∧ step ≠ ".." ∧ '/' ∉ step.toList)
    ⟨fun h => ⟨h.1, h.2.1, h.2.2.1, h.2.2.2⟩, fun h => ⟨h.ne_empty, h.ne_dot, h.ne_up, h.no_slash⟩⟩

theorem splitSlashes_ne_nil (cs : List Char) : splitSlashes cs ≠ [] := by
  cases cs with
  | nil => simp [splitSlashes]
  | cons c cs =>
    unfold splitSlashes
    split
    · simp
    · split <;> simp

theorem splitSlashes_cons_of_ne {c : Char} (hc : c ≠ '/') {cs first : List Char}
    {others : List (List Char)} (h : splitSlashes cs = first :: others) :
    splitSlashes (c :: cs) = (c :: first) :: others := by
  rw [splitSlashes, if_neg hc, h]

theorem splitSlashes_append_slash (xs ys : List Char) :
    splitSlashes (xs ++ '/' :: ys) = splitSlashes xs ++ splitSlashes ys := by
  induction xs with
  | nil => simp [splitSlashes]
  | cons c cs ih =>
    by_cases hc : c = '/'
    · subst hc
      simp [splitSlashes, ih]
    · obtain ⟨first, others, hs⟩ := List.exists_cons_of_ne_nil (splitSlashes_ne_nil cs)
      rw [hs] at ih
      rw [List.cons_append, splitSlashes_cons_of_ne hc ih, splitSlashes_cons_of_ne hc hs]
      rfl

theorem not_mem_of_mem_splitSlashes {cs part : List Char} (h : part ∈ splitSlashes cs) :
    '/' ∉ part := by
  induction cs generalizing part with
  | nil =>
    rw [splitSlashes, List.mem_singleton] at h
    simp [h]
  | cons c cs ih =>
    by_cases hc : c = '/'
    · rw [splitSlashes, if_pos hc, List.mem_cons] at h
      cases h with
      | inl h => simp [h]
      | inr h => exact ih h
    · obtain ⟨first, others, hs⟩ := List.exists_cons_of_ne_nil (splitSlashes_ne_nil cs)
      rw [splitSlashes_cons_of_ne hc hs, List.mem_cons] at h
      rw [hs] at ih
      cases h with
      | inl h =>
        have hf := ih (List.mem_cons_self ..)
        simp [h, hf, Ne.symm hc]
      | inr h => exact ih (List.mem_cons_of_mem _ h)

theorem splitSlashes_of_not_mem {cs : List Char} (h : '/' ∉ cs) : splitSlashes cs = [cs] := by
  induction cs with
  | nil => rfl
  | cons c cs ih =>
    have hc : c ≠ '/' := fun he => h (by simp [he])
    exact splitSlashes_cons_of_ne hc (ih fun hm => h (List.mem_cons_of_mem _ hm))

/-- Text without slashes goes to the end of the last part. -/
theorem splitSlashes_append (cs : List Char) : ∃ front last, splitSlashes cs = front ++ [last] ∧
    ∀ tail, '/' ∉ tail → splitSlashes (cs ++ tail) = front ++ [last ++ tail] := by
  induction cs with
  | nil => exact ⟨[], [], rfl, fun tail h => splitSlashes_of_not_mem h⟩
  | cons c cs ih =>
    obtain ⟨front, last, hs, ht⟩ := ih
    by_cases hc : c = '/'
    · refine ⟨[] :: front, last, by simp [splitSlashes, hc, hs], fun tail h => ?_⟩
      simp [splitSlashes, hc, ht tail h]
    · cases front with
      | nil =>
        refine ⟨[], c :: last, splitSlashes_cons_of_ne hc hs, fun tail h => ?_⟩
        exact splitSlashes_cons_of_ne hc (ht tail h)
      | cons first front =>
        refine ⟨(c :: first) :: front, last, splitSlashes_cons_of_ne hc hs, fun tail h => ?_⟩
        exact splitSlashes_cons_of_ne hc (ht tail h)

theorem no_slash_of_mem_steps {p : Path} {step : String} (h : step ∈ p.steps) :
    '/' ∉ step.toList := by
  obtain ⟨part, hp, rfl⟩ := List.mem_map.mp h
  simpa using not_mem_of_mem_splitSlashes hp

theorem steps_of_no_slash {p : Path} (h : '/' ∉ p.toList) : p.steps = [p] := by
  simp [steps, splitSlashes_of_not_mem h]

theorem steps_slash (p q : Path) : (p ++ "/" ++ q).steps = p.steps ++ q.steps := by
  have h : (p ++ "/" ++ q).toList = p.toList ++ '/' :: q.toList := by simp
  rw [steps, h, splitSlashes_append_slash, List.map_append]
  rfl

theorem steps_concat_slash (p : Path) : (p ++ "/").steps = p.steps ++ [""] := by
  have h := steps_slash p ""
  rw [String.append_empty] at h
  rw [h]
  rfl

theorem steps_append (p : Path) : ∃ front stem, p.steps = front ++ [stem] ∧
    ∀ tail : String, '/' ∉ tail.toList → (p ++ tail).steps = front ++ [stem ++ tail] := by
  obtain ⟨front, last, hs, ht⟩ := splitSlashes_append p.toList
  refine ⟨front.map String.ofList, String.ofList last, by simp [steps, hs], fun tail h => ?_⟩
  rw [steps, String.toList_append, ht tail.toList h]
  simp [String.ofList_append]

/-- A path that ends in a slash has the steps before it and an empty one. -/
theorem exists_of_endsInSlash {p : Path} (h : p.endsInSlash = true) : ∃ q, p = q ++ "/" := by
  have hl : p.toList.getLast? = some '/' := by simpa [endsInSlash] using h
  obtain ⟨cs, hcs⟩ := List.getLast?_eq_some_iff.mp hl
  refine ⟨String.ofList cs, String.toList_injective ?_⟩
  simpa using hcs

theorem IsEntryName.isAbsolute {name : Path} (hn : IsEntryName name) : name.isAbsolute = false := by
  cases h : name.toList with
  | nil => simp [Path.isAbsolute, h]
  | cons c cs =>
    have hc : c ≠ '/' := fun he => hn.no_slash (by simp [h, he])
    simp [Path.isAbsolute, h, hc]

theorem isAbsolute_join {dir name : Path} (hd : dir ≠ "") (hn : IsEntryName name) :
    (dir.join name).isAbsolute = dir.isAbsolute := by
  have he : dir.isEmpty = false := String.isEmpty_eq_false_iff.mpr hd
  have hlist : dir.toList ≠ [] := fun h => hd (String.toList_eq_nil_iff.mp h)
  obtain ⟨c, cs, hc⟩ := List.exists_cons_of_ne_nil hlist
  unfold join
  simp only [hn.isAbsolute, he, Bool.or_false, Bool.false_eq_true, if_false]
  split <;> simp [isAbsolute, hc]

/-- Below a directory whose path is not empty, a name is one more step. -/
theorem steps_join {dir name : Path} (hd : dir ≠ "") (hn : IsEntryName name) :
    ∃ front, (dir.join name).steps = front ++ [name] ∧
      (dir.steps = front ∨ dir.steps = front ++ [""]) := by
  have ha := hn.isAbsolute
  have he : dir.isEmpty = false := String.isEmpty_eq_false_iff.mpr hd
  cases hs : dir.endsInSlash with
  | true =>
    obtain ⟨q, rfl⟩ := exists_of_endsInSlash hs
    have hj : join (q ++ "/") name = q ++ "/" ++ name := by simp [join, ha, he, hs]
    refine ⟨q.steps, ?_, Or.inr (steps_concat_slash q)⟩
    rw [hj, steps_slash, steps_of_no_slash hn.no_slash]
  | false =>
    have hj : join dir name = dir ++ "/" ++ name := by simp [join, ha, he, hs]
    exact ⟨dir.steps, by rw [hj, steps_slash, steps_of_no_slash hn.no_slash], Or.inl rfl⟩

/-! ## Paths of generated files -/

theorem isAbsolute_append {tail : Path} (name : Path) (ht : tail.isAbsolute = false) :
    (name ++ tail).isAbsolute = name.isAbsolute := by
  cases h : name.toList with
  | nil =>
    have he : name = "" := String.toList_eq_nil_iff.mp h
    rw [he, String.empty_append, ht]
    rfl
  | cons c cs => simp [isAbsolute, h]

theorem join_append {tail : Path} (dir name : Path) (ht : tail.isAbsolute = false) :
    dir.join (name ++ tail) = dir.join name ++ tail := by
  unfold join
  rw [isAbsolute_append name ht]
  split
  · rfl
  · split <;> simp [String.append_assoc]

/-- What is wrong with the front of a path is wrong with all of it. -/
theorem fault?_of_append {p tail : Path} (hp : p ≠ "") (h : (p ++ tail).fault? = none) :
    p.fault? = none := by
  have hne : p.isEmpty = false := String.isEmpty_eq_false_iff.mpr hp
  have hnul : p.holdsNul = true → (p ++ tail).holdsNul = true := by
    simp only [holdsNul, String.toList_append, List.contains_iff_mem, List.mem_append]
    exact Or.inl
  unfold fault? at h ⊢
  grind [String.utf8ByteSize_append]

theorem fault?_eq_none_iff {p : Path} : p.fault? = none ↔
    p.holdsNul = false ∧ p ≠ "" ∧ p.utf8ByteSize ≤ maxLength := by
  unfold fault?
  cases p.holdsNul <;> by_cases he : p = "" <;> simp [he, String.isEmpty_iff]

/-- A path that is good stays so if more is added, unless it gets too long. -/
theorem fault?_append {p tail : Path} (h : p.fault? = none) (ht : tail.holdsNul = false)
    (hsize : (p ++ tail).utf8ByteSize ≤ maxLength) : (p ++ tail).fault? = none := by
  obtain ⟨hnul, hne, _⟩ := fault?_eq_none_iff.mp h
  refine fault?_eq_none_iff.mpr ⟨?_, ?_, hsize⟩
  · simp_all [holdsNul]
  · simp [hne]

/-- A path that ends in the name of an entry. -/
structure EndsIn (p : Path) (leaf : String) : Prop where
  name : IsEntryName leaf
  last : p.steps.getLast? = some leaf

theorem endsIn_join {dir name : Path} (hd : dir ≠ "") (hn : IsEntryName name) :
    (dir.join name).EndsIn name := by
  obtain ⟨front, hsteps, _⟩ := steps_join hd hn
  exact ⟨hn, by rw [hsteps, List.getLast?_concat]⟩

theorem EndsIn.trimmedSteps {p : Path} {leaf : String} (h : p.EndsIn leaf) :
    p.trimmedSteps = p.steps := by
  obtain ⟨front, hf⟩ := List.getLast?_eq_some_iff.mp h.last
  simp [Path.trimmedSteps, hf, h.name.ne_empty]

theorem EndsIn.endsInSlash {p : Path} {leaf : String} (h : p.EndsIn leaf) :
    p.endsInSlash = false := by
  rw [Bool.eq_false_iff]
  intro hs
  obtain ⟨q, rfl⟩ := exists_of_endsInSlash hs
  have hl := h.last
  rw [steps_concat_slash, List.getLast?_concat] at hl
  exact h.name.ne_empty (Option.some.inj hl).symm

theorem EndsIn.namesEntry {p : Path} {leaf : String} (h : p.EndsIn leaf) :
    Workspace.namesEntry p = true := by
  simp [Workspace.namesEntry, h.trimmedSteps, h.last, h.name.ne_dot, h.name.ne_up]

theorem toList_of_extension? {name ext : String} (h : extension? name = some ext) :
    ext.toList = (name.toList.reverse.takeWhile (· ≠ '.')).reverse := by
  simp only [extension?] at h
  split at h
  · split at h
    · cases h
    · rw [← Option.some.inj h, String.toList_ofList]
  · cases h

end InterfaceTables.Path

namespace InterfaceTables.ArtifactKind

theorem fileName_eq (k : ArtifactKind) (baseName : String) :
    k.fileName baseName = baseName ++ ("." ++ k.extension) := by
  rw [fileName, String.append_assoc]

theorem toList_fileName (k : ArtifactKind) (baseName : String) :
    (k.fileName baseName).toList = baseName.toList ++ '.' :: k.extension.toList := by
  simp [fileName]

theorem fileName_injective {stem : String} {k k' : ArtifactKind}
    (h : k.fileName stem = k'.fileName stem) : k = k' := by
  have hl := congrArg String.toList h
  rw [toList_fileName, toList_fileName, List.append_cancel_left_eq] at hl
  cases k <;> cases k' <;> simp [extension] at hl ⊢

theorem getLast?_fileName (k : ArtifactKind) (baseName : String) :
    (k.fileName baseName).toList.getLast? = k.extension.toList.getLast? := by
  cases k <;> simp [fileName, extension, List.getLast?_append]

theorem isEntryName_fileName {stem : String} (h : '/' ∉ stem.toList) (k : ArtifactKind) :
    Path.IsEntryName (k.fileName stem) := by
  have hl := getLast?_fileName k stem
  constructor
  · intro he
    rw [he] at hl
    cases k <;> simp [extension] at hl
  · intro he
    rw [he] at hl
    cases k <;> simp [extension] at hl
  · intro he
    rw [he] at hl
    cases k <;> simp [extension] at hl
  · rw [toList_fileName]
    cases k <;> simp [extension, h]

/-- A generated file has no other extension than its own. -/
theorem extension?_fileName {stem ext : String} {k : ArtifactKind}
    (h : Path.extension? (k.fileName stem) = some ext) : ext = k.extension := by
  have hl := Path.toList_of_extension? h
  rw [toList_fileName] at hl
  apply String.toList_injective
  cases k <;> simpa [extension] using hl

theorem utf8ByteSize_fileName (k : ArtifactKind) (stem : String) :
    (k.fileName stem).utf8ByteSize = stem.utf8ByteSize + 2 := by
  cases k <;> rw [fileName_eq, String.utf8ByteSize_append] <;> rfl

theorem join_fileName (dir : Path) (baseName : String) (k : ArtifactKind) :
    dir.join (k.fileName baseName) = dir.join baseName ++ ("." ++ k.extension) := by
  have ha : Path.isAbsolute ("." ++ k.extension) = false := by cases k <;> decide
  rw [fileName_eq, Path.join_append dir baseName ha]

theorem isAbsolute_join_fileName (dir : Path) (baseName : String) (k : ArtifactKind) :
    (dir.join (k.fileName baseName)).isAbsolute = (dir.join baseName).isAbsolute := by
  have ha : Path.isAbsolute ("." ++ k.extension) = false := by cases k <;> decide
  rw [join_fileName, Path.isAbsolute_append _ ha]

/-- What is wrong with the path of one file is wrong with that of the other. -/
theorem fault?_join_fileName (dir : Path) (baseName : String) (k k' : ArtifactKind) :
    (dir.join (k.fileName baseName)).fault? = (dir.join (k'.fileName baseName)).fault? := by
  have hn : ∀ k : ArtifactKind, (dir.join (k.fileName baseName)).holdsNul =
      (dir.join baseName).holdsNul := by
    intro k
    rw [join_fileName]
    cases k <;> simp [Path.holdsNul, extension]
  have hs : ∀ k : ArtifactKind, (dir.join (k.fileName baseName)).utf8ByteSize =
      (dir.join baseName).utf8ByteSize + 2 := by
    intro k
    rw [join_fileName, ← fileName_eq, utf8ByteSize_fileName]
  have he : ∀ k : ArtifactKind, (dir.join (k.fileName baseName)).isEmpty = false := by
    intro k
    rw [String.isEmpty_eq_false_iff]
    intro h
    have := hs k
    rw [h] at this
    simp at this
  simp only [Path.fault?, hn, hs, he]

/-- Both files of a directory stand behind the same steps, each under a name of its own. -/
theorem steps_join_fileName (dir : Path) (baseName : String) :
    ∃ front stem, '/' ∉ stem.toList ∧
      ∀ k : ArtifactKind, (dir.join (k.fileName baseName)).steps = front ++ [k.fileName stem] := by
  obtain ⟨front, stem, hs, ht⟩ := Path.steps_append (dir.join baseName)
  refine ⟨front, stem, Path.no_slash_of_mem_steps (p := dir.join baseName) (by simp [hs]), ?_⟩
  intro k
  have hf : '/' ∉ ("." ++ k.extension).toList := by cases k <;> decide
  rw [join_fileName, ht _ hf, fileName_eq]

theorem endsIn_join_fileName (dir : Path) (baseName : String) :
    ∃ stem, ∀ k : ArtifactKind, (dir.join (k.fileName baseName)).EndsIn (k.fileName stem) := by
  obtain ⟨front, stem, hs, hk⟩ := steps_join_fileName dir baseName
  exact ⟨stem, fun k => ⟨isEntryName_fileName hs k, by simp [hk k]⟩⟩

end InterfaceTables.ArtifactKind
