import InterfaceTables.Proofs.WellFormed

/-!
Paths seen from the working directory, and the same paths written out from the root. Where the long way
can be gone at all, it leads to where the short one does.
-/

namespace InterfaceTables

namespace Path

/-- Names put together with slashes are taken apart again. -/
theorem steps_intercalate {names : List String} (hne : names ≠ [])
    (h : ∀ name ∈ names, '/' ∉ name.toList) : steps (String.intercalate "/" names) = names := by
  induction names with
  | nil => exact absurd rfl hne
  | cons name names ih =>
    have hname := steps_of_no_slash (h name List.mem_cons_self)
    cases names with
    | nil => rw [String.intercalate_singleton, hname]
    | cons next names =>
      have hrest := ih (by simp) fun n hn => h n (.tail _ hn)
      rw [String.intercalate_cons_cons, steps_slash, hname, hrest]
      rfl

theorem intercalate_splitSlashes (cs : List Char) : ['/'].intercalate (splitSlashes cs) = cs := by
  induction cs with
  | nil => rfl
  | cons c cs ih =>
    obtain ⟨first, others, hs⟩ := List.exists_cons_of_ne_nil (splitSlashes_ne_nil cs)
    by_cases hc : c = '/'
    · rw [splitSlashes, if_pos hc, List.intercalate_cons_of_ne_nil (splitSlashes_ne_nil cs), ih, hc]
      rfl
    · rw [splitSlashes_cons_of_ne hc hs]
      rw [hs] at ih
      cases others with
      | nil => simpa using ih
      | cons next others =>
        rw [List.intercalate_cons_cons] at ih ⊢
        rw [← ih]
        rfl

theorem intercalate_steps (p : Path) : String.intercalate "/" p.steps = p := by
  apply String.toList_injective
  have hparts : (p.steps.map String.toList) = splitSlashes p.toList := by
    simp [steps, Function.comp_def]
  rw [String.toList_intercalate, hparts]
  exact intercalate_splitSlashes p.toList

theorem join_of_isAbsolute {dir name : Path} (h : name.isAbsolute = true) : dir.join name = name := by
  simp [join, h]

/-- A path that is joined to a directory ends as it did. -/
theorem getLast?_steps_join (dir : Path) {name : Path} {leaf : String}
    (h : name.steps.getLast? = some leaf) : (dir.join name).steps.getLast? = some leaf := by
  have hslash : ∀ p : Path, (p ++ "/" ++ name).steps.getLast? = some leaf := by
    intro p
    rw [steps_slash, List.getLast?_append, h, Option.some_or]
  unfold join
  split
  · exact h
  · split
    · rename_i hs
      obtain ⟨p, rfl⟩ := exists_of_endsInSlash hs
      exact hslash p
    · exact hslash dir

theorem getLast?_steps_append {p : Path} {leaf tail : String} (h : p.steps.getLast? = some leaf)
    (ht : '/' ∉ tail.toList) : (p ++ tail).steps.getLast? = some (leaf ++ tail) := by
  obtain ⟨front, last, hsteps, happend⟩ := steps_append p
  rw [hsteps, List.getLast?_concat] at h
  rw [happend tail ht, List.getLast?_concat, Option.some.inj h]

theorem fileName?_of_getLast? {p : Path} {leaf : String} (h : p.steps.getLast? = some leaf)
    (hidle : isIdle leaf = false) (hup : leaf ≠ "..") : p.fileName? = some leaf := by
  obtain ⟨front, hsteps⟩ := List.getLast?_eq_some_iff.mp h
  have hmoves : p.moves = front.filter (!isIdle ·) ++ [leaf] := by
    rw [moves, hsteps, List.filter_append]
    simp [hidle]
  rw [fileName?, hmoves, List.getLast?_concat]
  exact if_neg hup

end Path

namespace FileTree

variable {t : FileTree} {last : LastStep} {links : Nat} {here : Location} {steps : List String}
  {goal : Target}

theorem leads_enter_iff {name : String} (hw : t.WellFormed) (hl : last ≠ .written)
    (hd : t.IsDirectory (name :: here)) :
    t.Leads last links here (name :: steps) goal ↔
      (t.Searchable here ∧ name.utf8ByteSize ≤ Path.maxName) ∧
        t.Leads last links (name :: here) steps goal := by
  obtain ⟨mode, hm⟩ := hd
  have hname := hw.name hm
  constructor
  · intro h
    cases h with
    | blank => exact absurd rfl hname.ne_empty
    | dot => exact absurd rfl hname.ne_dot
    | up => exact absurd rfl hname.ne_up
    | absent _ gone => cases gone.symm.trans hm
    | enter look _ _ next => exact ⟨⟨look.searchable, look.fits⟩, next⟩
    | stop _ found => cases found.symm.trans hm
    | follow _ found => cases found.symm.trans hm
  · rintro ⟨⟨hs, hf⟩, next⟩
    exact .enter ⟨hs, hname.ne_empty, hname.ne_dot, hname.ne_up, fun h => absurd h hl, hf⟩ hm (by simp)
      next

/-- The names of a directory and of those above it lead down to it, and steps go on from there. -/
theorem leads_descend_iff (hw : t.WellFormed) (hl : last ≠ .written) (hd : t.IsDirectory here) :
    t.Leads last links [] (here.reverse ++ steps) goal ↔
      t.passable here = true ∧ t.Leads last links here steps goal := by
  induction here generalizing steps with
  | nil => simp [passable]
  | cons name dir ih =>
    obtain ⟨mode, hm⟩ := hd
    rw [List.reverse_cons, List.append_assoc, List.singleton_append, ih (hw.parent hm),
      leads_enter_iff hw hl ⟨mode, hm⟩, passable_cons_iff]
    constructor
    · rintro ⟨hdown, ⟨hs, hf⟩, next⟩
      exact ⟨⟨hs, hf, hdown⟩, next⟩
    · rintro ⟨⟨hs, hf, hdown⟩, next⟩
      exact ⟨hdown, ⟨hs, hf⟩, next⟩

/-- The names of a directory and of those above it are such that paths can spell. -/
theorem WellFormed.isEntryName_of_mem (hw : t.WellFormed) (hd : t.IsDirectory here) {name : String}
    (hn : name ∈ here) : Path.IsEntryName name := by
  induction here with
  | nil => cases hn
  | cons first dir ih =>
    obtain ⟨mode, hm⟩ := hd
    cases hn with
    | head => exact hw.name hm
    | tail _ hn => exact ih (hw.parent hm) hn

end FileTree

namespace Workspace

variable {ws : Workspace} {q : Path} {found : Location × Entry}

theorem isEmpty_workingPath (ws : Workspace) : ws.workingPath.isEmpty = false := by
  simp [String.isEmpty_eq_false_iff, workingPath]

theorem isAbsolute_workingPath_join (ws : Workspace) (q : Path) :
    (ws.workingPath.join q).isAbsolute = true := by
  have hne : ws.workingPath.isEmpty = false := isEmpty_workingPath ws
  cases hq : q.isAbsolute with
  | true => rw [Path.join_of_isAbsolute hq, hq]
  | false =>
    unfold Path.join
    rw [hq, hne]
    cases ws.workingPath.endsInSlash <;> simp [workingPath, Path.isAbsolute]

/-- Only the length of its path keeps a file from being staged where a path is good. -/
theorem fault?_stagedPath_eq_none_iff : (ws.stagedPath q).fault? = none ↔
    (ws.workingPath.join q).fault? = none ∧ (ws.stagedPath q).utf8ByteSize ≤ Path.maxLength := by
  have habsolute := isAbsolute_workingPath_join ws q
  unfold stagedPath
  generalize ws.workingPath.join q = whole at habsolute ⊢
  have hne : whole ≠ "" := by
    rintro rfl
    cases habsolute
  obtain ⟨tail, hjoin, hnul⟩ : ∃ tail, whole.join ".tmp000000" = whole ++ tail ∧
      Path.holdsNul tail = false := by
    have hempty : whole.isEmpty = false := String.isEmpty_eq_false_iff.mpr hne
    cases hslash : whole.endsInSlash with
    | true => exact ⟨".tmp000000", by simp [Path.join, hempty, hslash, Path.isAbsolute], by decide⟩
    | false =>
      exact ⟨"/" ++ ".tmp000000", by simp [Path.join, hempty, hslash, Path.isAbsolute, String.append_assoc],
        by decide⟩
  rw [hjoin]
  constructor
  · intro h
    exact ⟨Path.fault?_of_append hne h, (Path.fault?_eq_none_iff.mp h).2.2⟩
  · rintro ⟨h, hsize⟩
    exact Path.fault?_append h hnul hsize

/-- A path written out from the root begins with the names that lead to the working directory. -/
theorem steps_workingPath_join (hw : ws.tree.WellFormed) (hd : ws.tree.IsDirectory ws.workingDir)
    (hq : q.isAbsolute = false) :
    (ws.workingPath.join q).steps = "" :: (ws.workingDir.reverse ++ q.steps) := by
  have hnames : ∀ name ∈ ws.workingDir.reverse, Path.IsEntryName name :=
    fun name hn => hw.isEntryName_of_mem hd (List.mem_reverse.mp hn)
  cases hdir : ws.workingDir with
  | nil =>
    have hjoin : ws.workingPath.join q = "" ++ "/" ++ q := by
      have hpath : ws.workingPath = "/" := by rw [workingPath, hdir]; rfl
      rw [hpath]
      simp [Path.join, hq, show Path.endsInSlash "/" = true by decide]
    rw [hjoin, Path.steps_slash]
    rfl
  | cons name dir =>
    rw [hdir] at hnames
    have hsteps : ws.workingPath.steps = "" :: (name :: dir).reverse := by
      have hpath : ws.workingPath = "" ++ "/" ++ String.intercalate "/" (name :: dir).reverse := by
        rw [← hdir]
        rfl
      rw [hpath, Path.steps_slash,
        Path.steps_intercalate (by simp) fun name hn => (hnames name hn).no_slash]
      rfl
    -- The last name is not empty, so the working directory does not end in a slash.
    have hslash : ws.workingPath.endsInSlash = false := by
      rw [Bool.eq_false_iff]
      intro hs
      obtain ⟨p, hp⟩ := Path.exists_of_endsInSlash hs
      have hlast := congrArg List.getLast? hsteps
      rw [hp, Path.steps_concat_slash, List.reverse_cons, ← List.cons_append, List.getLast?_concat,
        List.getLast?_concat] at hlast
      exact (hnames name (by simp)).ne_empty (Option.some.inj hlast).symm
    have hjoin : ws.workingPath.join q = ws.workingPath ++ "/" ++ q := by
      simp [Path.join, hq, isEmpty_workingPath ws, hslash]
    rw [hjoin, Path.steps_slash, hsteps]
    rfl

theorem stat_eq_ok_iff {p : Path} {loc : Location} {e : Entry} :
    ws.stat p = .ok (loc, e) ↔ (p.fault? = none ∧
      ws.tree.Leads .followed FileTree.maxLinks (ws.start p) p.steps (.entry loc)) ∧
        ws.tree.get? loc = some e := by
  rw [stat, entry_eq_ok_iff, resolve_eq_ok_iff]

/-- A relative path that leads somewhere leads there from a working directory that is there. -/
theorem isDirectory_of_stat (hq : q.isAbsolute = false) (h : ws.stat q = .ok found) :
    ws.tree.IsDirectory ws.workingDir := by
  obtain ⟨loc, e⟩ := found
  obtain ⟨⟨_, hleads⟩, _⟩ := stat_eq_ok_iff.mp h
  rw [start, hq] at hleads
  refine Classical.byContradiction fun hd => Path.splitSlashes_ne_nil q.toList ?_
  simpa [Path.steps] using hleads.nil_of_stuck hd

/-- From the root the steps of a path lead to the working directory first. -/
theorem leads_workingPath_iff {p : Path} {steps : List String} {loc : Location}
    (hw : ws.tree.WellFormed) (hd : ws.tree.IsDirectory ws.workingDir) (hp : p.isAbsolute = true)
    (hs : p.steps = "" :: (ws.workingDir.reverse ++ steps)) :
    ws.tree.Leads .followed FileTree.maxLinks (ws.start p) p.steps (.entry loc) ↔
      ws.tree.passable ws.workingDir = true ∧
        ws.tree.Leads .followed FileTree.maxLinks ws.workingDir steps (.entry loc) := by
  rw [start, hp, hs, if_pos rfl, FileTree.leads_blank_iff, FileTree.leads_descend_iff hw (by simp) hd,
    and_iff_right ⟨_, rfl⟩]

/-- A path written out from the root leads to where the path leads, if anywhere. -/
theorem stat_workingPath_join_unique {found' : Location × Entry} (hw : ws.tree.WellFormed)
    (h : ws.stat q = .ok found) (h' : ws.stat (ws.workingPath.join q) = .ok found') :
    found' = found := by
  cases hq : q.isAbsolute with
  | true =>
    rw [Path.join_of_isAbsolute hq, h] at h'
    exact (Except.ok.inj h').symm
  | false =>
    have hd := isDirectory_of_stat hq h
    obtain ⟨loc, e⟩ := found
    obtain ⟨loc', e'⟩ := found'
    obtain ⟨⟨_, hleads⟩, he⟩ := stat_eq_ok_iff.mp h
    obtain ⟨⟨_, hleads'⟩, he'⟩ := stat_eq_ok_iff.mp h'
    rw [leads_workingPath_iff hw hd (isAbsolute_workingPath_join ws q)
      (steps_workingPath_join hw hd hq)] at hleads'
    rw [start, hq] at hleads
    cases hleads.unique hleads'.2
    cases he.symm.trans he'
    rfl

/-- Where a path leads can be reached from the root exactly if the path written out from there leads to it
as well, and a file that is staged there still has a path. -/
theorem outOfReach?_eq_none_iff_stat (hw : ws.tree.WellFormed) (h : ws.stat q = .ok found) :
    ws.outOfReach? q = none ↔ ws.stat (ws.workingPath.join q) = .ok found ∧
      (ws.stagedPath q).utf8ByteSize ≤ Path.maxLength := by
  obtain ⟨loc, e⟩ := found
  obtain ⟨⟨hfault, hleads⟩, he⟩ := stat_eq_ok_iff.mp h
  rw [outOfReach?_eq_none_iff, fault?_stagedPath_eq_none_iff]
  cases hq : q.isAbsolute with
  | true =>
    have hpass : ws.tree.passable (ws.start q) = true := by
      rw [start, hq]
      rfl
    rw [Path.join_of_isAbsolute hq]
    simp [hpass, hfault, h]
  | false =>
    have hd := isDirectory_of_stat hq h
    have hstart : ws.start q = ws.workingDir := by
      rw [start, hq]
      rfl
    rw [hstart] at hleads ⊢
    rw [stat_eq_ok_iff, leads_workingPath_iff hw hd (isAbsolute_workingPath_join ws q)
      (steps_workingPath_join hw hd hq)]
    constructor
    · rintro ⟨⟨hwhole, hsize⟩, hpass⟩
      exact ⟨⟨⟨hwhole, hpass, hleads⟩, he⟩, hsize⟩
    · rintro ⟨⟨⟨hwhole, hpass, _⟩, _⟩, hsize⟩
      exact ⟨⟨hwhole, hsize⟩, hpass⟩

/-- If a path with a longer last name can be followed from the root, then so can the path. -/
theorem stat_workingPath_join_of_longer {found' : Location × Entry} {tail : String}
    (hw : ws.tree.WellFormed) (htail : Path.isAbsolute tail = false) (h : ws.stat q = .ok found)
    (h' : ws.stat (ws.workingPath.join q ++ tail) = .ok found') :
    ws.stat (ws.workingPath.join q) = .ok found := by
  cases hq : q.isAbsolute with
  | true => rw [Path.join_of_isAbsolute hq, h]
  | false =>
    have hd := isDirectory_of_stat hq h
    obtain ⟨loc, e⟩ := found
    obtain ⟨loc', e'⟩ := found'
    obtain ⟨⟨_, hleads⟩, he⟩ := stat_eq_ok_iff.mp h
    obtain ⟨⟨hfault', hleads'⟩, _⟩ := stat_eq_ok_iff.mp h'
    have habsolute := isAbsolute_workingPath_join ws
    have hlonger : (q ++ tail).isAbsolute = false := by rw [Path.isAbsolute_append q htail, hq]
    have hne : ws.workingPath.join q ≠ "" := by
      intro he
      have habsolute' := habsolute q
      rw [he] at habsolute'
      cases habsolute'
    have hfault := Path.fault?_of_append hne hfault'
    rw [← Path.join_append _ _ htail, leads_workingPath_iff hw hd (habsolute _)
      (steps_workingPath_join hw hd hlonger)] at hleads'
    rw [start, hq] at hleads
    rw [stat_eq_ok_iff, leads_workingPath_iff hw hd (habsolute q) (steps_workingPath_join hw hd hq)]
    exact ⟨⟨hfault, hleads'.1, hleads⟩, he⟩

end Workspace

end InterfaceTables
