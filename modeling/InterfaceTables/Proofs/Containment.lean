import InterfaceTables.Proofs.WrittenState
import Mathlib.Data.List.TakeWhile

/-!
Where the files of a run come to stand. What is put in front of the base name may hold slashes, and then
the part up to the last of them leads away from the output directory. The files are in the directory at
the end of it, and nothing else is new but directories on the way to the output directory.
-/

namespace InterfaceTables

namespace Path

/-! ## Paths cut at their last slash -/

/-- A text up to its last slash. -/
def leading (p : Path) : Path := String.ofList (p.toList.reverse.dropWhile (· ≠ '/')).reverse

/-- A text after its last slash. -/
def trailing (p : Path) : String := String.ofList (p.toList.reverse.takeWhile (· ≠ '/')).reverse

theorem leading_append_trailing (p : Path) : p.leading ++ p.trailing = p := by
  apply String.toList_injective
  rw [leading, trailing, String.toList_append, String.toList_ofList, String.toList_ofList,
    ← List.reverse_append, List.takeWhile_append_dropWhile, List.reverse_reverse]

theorem no_slash_trailing (p : Path) : '/' ∉ p.trailing.toList := by
  intro hmem
  rw [trailing, String.toList_ofList, List.mem_reverse] at hmem
  have hkept := List.all_eq_true.mp List.all_takeWhile _ hmem
  simp at hkept

theorem leading_eq_empty_iff {p : Path} : p.leading = "" ↔ '/' ∉ p.toList := by
  constructor
  · intro h
    have hp := leading_append_trailing p
    rw [h, String.empty_append] at hp
    exact hp ▸ no_slash_trailing p
  · intro h
    have hall : ∀ c ∈ p.toList.reverse, decide (c ≠ '/') = true := by
      intro c hc
      rw [decide_eq_true_eq]
      rintro rfl
      exact h (List.mem_reverse.mp hc)
    rw [leading, List.dropWhile_eq_nil_iff.mpr hall]
    rfl

theorem endsInSlash_leading {p : Path} (h : p.leading ≠ "") : p.leading.endsInSlash = true := by
  have hne : p.toList.reverse.dropWhile (· ≠ '/') ≠ [] := by
    simpa [leading, ← String.toList_eq_nil_iff] using h
  obtain ⟨c, rest, hrest⟩ := List.exists_cons_of_ne_nil hne
  have hhead := List.head?_dropWhile_not (· ≠ '/') p.toList.reverse
  rw [hrest] at hhead
  have hc : c = '/' := by simpa using hhead
  rw [endsInSlash, leading, hrest, hc, String.toList_ofList]
  simp

/-- A path that a name can be put behind as one more step. -/
def IsFront (p : Path) : Prop := p = "" ∨ ∃ q : Path, p = q ++ "/"

theorem IsFront.endsIn {p : Path} {leaf : String} (hp : p.IsFront) (hn : IsEntryName leaf) :
    (p ++ leaf).EndsIn leaf := by
  refine ⟨hn, ?_⟩
  obtain rfl | ⟨q, rfl⟩ := hp
  · rw [String.empty_append, steps_of_no_slash hn.no_slash]
    rfl
  · rw [steps_slash, steps_of_no_slash hn.no_slash, List.getLast?_concat]

theorem isFront_join_leading (dir p : Path) : (dir.join p.leading).IsFront := by
  by_cases hp : p.leading = ""
  · have habsolute : isAbsolute "" = false := rfl
    rw [hp, join, habsolute, Bool.false_or]
    split
    · exact Or.inl rfl
    · split
      · obtain ⟨q, hq⟩ := exists_of_endsInSlash ‹_›
        exact Or.inr ⟨q, by rw [String.append_empty, hq]⟩
      · exact Or.inr ⟨dir, by rw [String.append_empty]⟩
  · obtain ⟨q, hq⟩ := exists_of_endsInSlash (endsInSlash_leading hp)
    rw [hq, join]
    split
    · exact Or.inr ⟨q, rfl⟩
    · split
      · exact Or.inr ⟨dir ++ q, by rw [String.append_assoc]⟩
      · exact Or.inr ⟨dir ++ "/" ++ q, by simp only [String.append_assoc]⟩

end Path

namespace Workspace

variable {ws : Workspace} {p dir : Path} {leaf : String} {d : Location}

/-- The steps before the name of an entry lead to the directory that it is in. -/
theorem Spot.leads_front {front : List String} (h : ws.Spot p (leaf :: d))
    (hn : Path.IsEntryName leaf) (hp : p.steps = front ++ [leaf]) :
    ws.tree.Leads .followed FileTree.maxLinks (ws.start p) front (.entry d) ∧
      ws.tree.Searchable d := by
  obtain ⟨goal, hr, hplace⟩ := h
  obtain ⟨-, hleads⟩ := resolve_eq_ok_iff.mp hr
  rw [hp] at hleads
  obtain ⟨mid, fewer, hmid, -, hleaf⟩ := hleads.split (by simp) fun _ _ _ => by
    simpa [Path.areSlashes] using hn.ne_empty
  cases hleaf with
  | blank => exact absurd rfl hn.ne_empty
  | dot => exact absurd rfl hn.ne_dot
  | up => exact absurd rfl hn.ne_up
  | absent look =>
    cases (List.cons.inj hplace).2
    exact ⟨hmid, look.searchable⟩
  | enter look _ _ next =>
    cases next
    cases (List.cons.inj hplace).2
    exact ⟨hmid, look.searchable⟩
  | stop look =>
    cases (List.cons.inj hplace).2
    exact ⟨hmid, look.searchable⟩
  | follow _ _ more => simp at more

/-- An entry is in the directory that the path in front of its name leads to. -/
theorem Spot.stat_directory (h : ws.Spot (p ++ leaf) (leaf :: d)) (hn : Path.IsEntryName leaf)
    (hp : p.IsFront) : ∃ m, ws.stat p.orHere = .ok (d, .directory m) := by
  obtain ⟨goal, hr, -⟩ := id h
  obtain ⟨hf, -⟩ := resolve_eq_ok_iff.mp hr
  have hstart : ws.start (p ++ leaf) = ws.start p := by
    rw [start, start, Path.isAbsolute_append p hn.isAbsolute]
  cases hp with
  | inl hp =>
    subst hp
    have hsteps : Path.steps ("" ++ leaf) = [] ++ [leaf] := by
      rw [String.empty_append]
      exact Path.steps_of_no_slash hn.no_slash
    obtain ⟨hleads, m, hm, hsearch⟩ := h.leads_front hn hsteps
    rw [hstart] at hleads
    have hd : ws.workingDir = d := Target.entry.inj (FileTree.Leads.unique .done hleads)
    refine ⟨m, entry_eq_ok_iff.mpr ⟨resolve_eq_ok_iff.mpr ⟨by decide, ?_⟩, hm⟩⟩
    subst hd
    exact .dot ⟨m, hm, hsearch⟩ .done
  | inr hp =>
    obtain ⟨q, rfl⟩ := hp
    have hne : q ++ "/" ≠ "" := by simp
    have hsteps : Path.steps (q ++ "/" ++ leaf) = q.steps ++ [leaf] := by
      rw [Path.steps_slash, Path.steps_of_no_slash hn.no_slash]
    obtain ⟨hleads, m, hm, -⟩ := h.leads_front hn hsteps
    rw [hstart] at hleads
    rw [Path.orHere_of_ne_empty hne]
    refine ⟨m, entry_eq_ok_iff.mpr ⟨resolve_eq_ok_iff.mpr ⟨Path.fault?_of_append hne hf, ?_⟩, hm⟩⟩
    rw [Path.steps_concat_slash]
    exact hleads.append_slash ⟨m, hm⟩

/-- A slash at the end of a path leads no further. -/
theorem eq_of_stat_join_empty {loc loc' : Location} {m m' : Nat}
    (h : ws.stat dir.orHere = .ok (loc, .directory m))
    (h' : ws.stat (dir.join "").orHere = .ok (loc', .directory m')) : loc' = loc := by
  by_cases hd : dir = ""
  · subst hd
    cases h.symm.trans h'
    rfl
  · have he : dir.isEmpty = false := String.isEmpty_eq_false_iff.mpr hd
    have habsolute : Path.isAbsolute "" = false := rfl
    cases hs : dir.endsInSlash with
    | true =>
      have hj : dir.join "" = dir := by simp [Path.join, habsolute, he, hs]
      rw [hj] at h'
      cases h.symm.trans h'
      rfl
    | false =>
      have hj : dir.join "" = dir ++ "/" := by simp [Path.join, habsolute, he, hs]
      rw [hj, Path.orHere_of_ne_empty (by simp)] at h'
      rw [Path.orHere_of_ne_empty hd] at h
      obtain ⟨hr, hm⟩ := entry_eq_ok_iff.mp h
      obtain ⟨hr', -⟩ := entry_eq_ok_iff.mp h'
      have hleads := (resolve_eq_ok_iff.mp hr).2.append_slash ⟨m, hm⟩
      have hleads' := (resolve_eq_ok_iff.mp hr').2
      have hstart : ws.start (dir ++ "/") = ws.start dir := by
        rw [start, start]
        cases hlist : dir.toList with
        | nil => exact absurd (String.toList_eq_nil_iff.mp hlist) hd
        | cons c cs => simp [Path.isAbsolute, hlist]
      rw [Path.steps_concat_slash, hstart] at hleads'
      exact (Target.entry.inj (hleads.unique hleads')).symm

end Workspace

namespace Artifacts

variable {as : Artifacts} {dir : Path} {ws : Workspace} {stem : String} {d staged : Location}

/-- Both files are entries of a directory. Outside of it nothing changes, apart from new directories on
the way to the output directory. -/
structure StayIn (as : Artifacts) (dir : Path) (ws after : Workspace) (home : Location) : Prop where
  inside : ∀ a ∈ as.toList, ∃ name m,
    (ws.ensureDirectory dir).workspace.Spot (a.path dir) (name :: home) ∧
      after.tree.get? (name :: home) = some (.file a.bytes m)
  outside : ∀ loc, (home <:+ loc → loc = home) → after.tree.get? loc = ws.tree.get? loc ∨
    (ws.tree.get? loc = none ∧ after.tree.get? loc = some (.directory (ws.masked 0o777)) ∧
      (ws.ensureDirectory dir).workspace.Passes (ws.start dir) dir.moves loc)

theorem Places.stayIn (h : as.Places dir (ws.ensureDirectory dir).workspace stem d staged) :
    as.StayIn dir ws (as.withBoth dir (ws.ensureDirectory dir).workspace stem d) d where
  inside a ha := ⟨_, _, h.spots a ha, h.get?_place a ha⟩
  outside loc hloc := by
    refine others_of_places h fun a _ he => ?_
    have hhome := hloc (he ▸ List.suffix_cons _ d)
    exact List.cons_ne_self _ _ (he.symm.trans hhome)

/-- The files are in one directory only. -/
theorem StayIn.unique {after : Workspace} {home : Location} (h : as.StayIn dir ws after d)
    (h' : as.StayIn dir ws after home) : d = home := by
  have hmem : as.header ∈ as.toList := by simp [toList]
  obtain ⟨_, _, hspot, _⟩ := h.inside _ hmem
  obtain ⟨_, _, hspot', _⟩ := h'.inside _ hmem
  exact (List.cons.inj (hspot.unique hspot')).2

/-- The part of a base name up to its last slash leads from the output directory to that of the files. -/
theorem Places.exists_stat {records : List InterfaceRecord} {lead : String} {made : Workspace}
    (h : (render records (baseName lead)).Places dir made stem d staged) :
    ∃ m, made.stat (dir.join (Path.leading lead)).orHere = .ok (d, .directory m) := by
  have hslash : '/' ∉ (baseName (Path.trailing lead)).toList := by
    simp [baseName, defaultBaseName, Path.no_slash_trailing]
  have hn := ArtifactKind.isEntryName_fileName hslash .header
  have hname : ArtifactKind.header.fileName (baseName lead) =
      Path.leading lead ++ ArtifactKind.header.fileName (baseName (Path.trailing lead)) := by
    simp only [ArtifactKind.fileName, baseName, ← String.append_assoc, Path.leading_append_trailing]
  have hpath : (render records (baseName lead)).header.path dir =
      dir.join (Path.leading lead) ++ ArtifactKind.header.fileName (baseName (Path.trailing lead)) := by
    rw [← Path.join_append dir _ hn.isAbsolute, ← hname]
    rfl
  obtain ⟨hspot, -⟩ := forall_mem_toList.mp h.spots
  rw [hpath] at hspot
  have hfront := Path.isFront_join_leading dir lead
  obtain ⟨d', hplace⟩ := hspot.leaf (hfront.endsIn hn)
  rw [hplace] at hspot
  cases (List.cons.inj hplace).2
  exact hspot.stat_directory hn hfront

end Artifacts

/-- A run that writes its files puts them into the directory that the text in front of the base name
leads to, up to its last slash, from the output directory. They are in the output directory exactly if
this leads back to it, and always if the text has no slash. -/
theorem RunOptions.artifacts_stay_iff {o : RunOptions} {ws : Workspace} {r : Report} {lead : String}
    (hb : o.baseName = InterfaceTables.baseName lead) (hm : o.mode = .write) (h : (run o ws).result = .ok r) :
    ∃ count as home m away m', o.prepare ws = .ok (count, as) ∧
      (o.made ws).stat o.outputDir.orHere = .ok (home, .directory m) ∧
      (o.made ws).stat (o.outputDir.join (Path.leading lead)).orHere = .ok (away, .directory m') ∧
      as.StayIn o.outputDir ws (run o ws).workspace away ∧
      (as.StayIn o.outputDir ws (run o ws).workspace home ↔ away = home) ∧
      ('/' ∉ lead.toList → away = home) := by
  obtain ⟨count, as, hp⟩ := exists_prepare_of_run h
  obtain ⟨hdone, -⟩ := (run_eq_ok_iff hp).mp h
  simp only [emit, hm] at hdone
  obtain ⟨records, rfl⟩ := exists_render_of_prepare hp
  rw [hb] at hp hdone
  obtain ⟨stem, d, staged, hplaces, hafter⟩ := Artifacts.exists_places hdone
  obtain ⟨m, hhome, -⟩ := hplaces.stat_directory_iff
  obtain ⟨m', haway⟩ := hplaces.exists_stat
  have hstay := hplaces.stayIn
  rw [← hafter, ← workspace_write hm hp] at hstay
  refine ⟨count, _, staged, m, d, m', hp, hhome, haway, hstay, ⟨hstay.unique, ?_⟩, fun hslash => ?_⟩
  · rintro rfl
    exact hstay
  · rw [Path.leading_eq_empty_iff.mpr hslash] at haway
    exact Workspace.eq_of_stat_join_empty hhome haway

/-- Writes into the directory `d`, with a text in front of the base name that goes up from it. -/
def intoParent : RunOptions := ⟨"d", "d", baseName "../", .write, ⟨"json", true⟩⟩

theorem write_intoParent (records : List InterfaceRecord) :
    (render records (baseName "../")).write "d" (lonelyDocument "a.json") =
      ⟨.ok (), ((lonelyDocument "a.json").insert ["generated_interfaces.h"]
        (.file (render records (baseName "../")).header.bytes fileMode)).insert ["generated_interfaces.c"]
          (.file (render records (baseName "../")).source.bytes fileMode),
        [.wrote "d/../generated_interfaces.h", .wrote "d/../generated_interfaces.c"]⟩ := by
  have hready : (lonelyDocument "a.json").ensureDirectory "d" = ⟨.ok (), lonelyDocument "a.json"⟩ := rfl
  have hstaging : (lonelyDocument "a.json").staging "d" = .ok ["d"] :=
    Workspace.staging_of_root rfl rfl rfl rfl
  have hstaging' : ∀ e, ((lonelyDocument "a.json").insert ["generated_interfaces.h"] e).staging "d" =
    .ok ["d"] := fun _ => Workspace.staging_of_root rfl rfl rfl rfl
  obtain ⟨hheader, hsource⟩ := Artifacts.path_render records (baseName "../") "d"
  exact Artifacts.write_of_places hready hstaging (hstaging' _) ⟨hheader, rfl⟩ ⟨hsource, rfl⟩ rfl rfl

/-- The files are put beside the output directory and not into it. -/
theorem intoParent_leaves_directory :
    (∃ r, (run intoParent (lonelyDocument "a.json")).result = .ok r) ∧
      (render [oneRecord "d/a.json"] (baseName "../")).StayIn "d" (lonelyDocument "a.json")
        (run intoParent (lonelyDocument "a.json")).workspace [] ∧
      ¬ (render [oneRecord "d/a.json"] (baseName "../")).StayIn "d" (lonelyDocument "a.json")
        (run intoParent (lonelyDocument "a.json")).workspace ["d"] := by
  have hp := RunOptions.prepare_lonelyDocument (o := intoParent) rfl rfl
  have hrun : (run intoParent (lonelyDocument "a.json")).result =
      .ok (intoParent.report 1 (render [oneRecord "d/a.json"] (baseName "../"))) := by
    refine (run_eq_ok_iff hp).mpr ⟨?_, rfl⟩
    exact congrArg Outcome.result (write_intoParent _)
  obtain ⟨_, _, home, _, away, _, hp', hhome, haway, hstay, hiff, -⟩ :=
    RunOptions.artifacts_stay_iff rfl rfl hrun
  cases hp.symm.trans hp'
  have hhome' : (intoParent.made (lonelyDocument "a.json")).stat "d" =
    .ok (["d"], .directory directoryMode) := rfl
  have haway' : (intoParent.made (lonelyDocument "a.json")).stat "d/../" =
    .ok ([], .directory directoryMode) := rfl
  cases hhome.symm.trans hhome'
  cases haway.symm.trans haway'
  exact ⟨⟨_, hrun⟩, hstay, fun h => by cases hiff.mp h⟩

end InterfaceTables
