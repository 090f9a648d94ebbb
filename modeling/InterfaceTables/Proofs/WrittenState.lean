import InterfaceTables.Proofs.TrueReports

/-!
What a write leaves that succeeds. Both files are in their places, with the modes of what their paths
led to, and nothing else changes apart from new directories. The paths lead to the files as long as they
do not go through a link that the source has replaced.
-/

namespace InterfaceTables

namespace FileTree

/-- On the way along some steps, the link at a place is followed. -/
inductive GoesThrough (t : FileTree) (last : LastStep) (spot : Location) :
    Location → List String → Prop where
  | blank {here rest} (dir : t.IsDirectory here) (next : GoesThrough t last spot here rest) :
      GoesThrough t last spot here ("" :: rest)
  | dot {here rest} (dir : t.Searchable here) (next : GoesThrough t last spot here rest) :
      GoesThrough t last spot here ("." :: rest)
  | up {here rest} (dir : t.Searchable here) (next : GoesThrough t last spot here.tail rest) :
      GoesThrough t last spot here (".." :: rest)
  | enter {here step rest mode} (look : t.LooksUp last here step rest)
      (found : t.get? (step :: here) = some (.directory mode))
      (next : GoesThrough t last spot (step :: here) rest) : GoesThrough t last spot here (step :: rest)
  | through {here step rest target} (look : t.LooksUp last here step rest)
      (found : t.get? (step :: here) = some (.link target)) (more : rest ≠ [] ∨ last ≠ .kept)
      (hit : step :: here = spot) : GoesThrough t last spot here (step :: rest)
  | follow {here step rest target} (look : t.LooksUp last here step rest)
      (found : t.get? (step :: here) = some (.link target)) (more : rest ≠ [] ∨ last ≠ .kept)
      (next : GoesThrough t last spot (if target.isAbsolute then [] else here) (target.steps ++ rest)) :
      GoesThrough t last spot here (step :: rest)

variable {t t' : FileTree} {last : LastStep} {links : Nat} {here loc spot : Location}
  {steps front rest : List String}

/-! ## Steps on the way -/

/-- A path that goes on after some steps has come to a directory by them, and leads on from there. Only
slashes may come after a name that is missing. -/
theorem Leads.split {goal : Target} (h : t.Leads last links here (front ++ rest) goal)
    (hrest : rest ≠ []) (hgoal : ∀ dir name, goal = .absent dir name → Path.areSlashes rest = false) :
    ∃ mid fewer, t.Leads .followed links here front (.entry mid) ∧ t.IsDirectory mid ∧
      t.Leads last fewer mid rest goal := by
  have at_start : ∀ {links here goal steps}, [] ++ rest = steps → t.Leads last links here steps goal →
      ∃ mid fewer, t.Leads .followed links here [] (.entry mid) ∧ t.IsDirectory mid ∧
        t.Leads last fewer mid rest goal := by
    rintro links here goal _ rfl h
    exact ⟨here, links, .done, Classical.byContradiction fun hd => hrest (h.nil_of_stuck hd), h⟩
  generalize hs : front ++ rest = steps at h
  induction h generalizing front with
  | done => exact absurd (List.append_eq_nil_iff.mp hs).2 hrest
  | blank dir next ih =>
    cases front with
    | nil => exact at_start hs (.blank dir next)
    | cons a front =>
      obtain ⟨rfl, htail⟩ := List.cons.inj hs
      obtain ⟨mid, fewer, hmid, hd, hon⟩ := ih hgoal htail
      exact ⟨mid, fewer, .blank dir hmid, hd, hon⟩
  | dot dir next ih =>
    cases front with
    | nil => exact at_start hs (.dot dir next)
    | cons a front =>
      obtain ⟨rfl, htail⟩ := List.cons.inj hs
      obtain ⟨mid, fewer, hmid, hd, hon⟩ := ih hgoal htail
      exact ⟨mid, fewer, .dot dir hmid, hd, hon⟩
  | up dir next ih =>
    cases front with
    | nil => exact at_start hs (.up dir next)
    | cons a front =>
      obtain ⟨rfl, htail⟩ := List.cons.inj hs
      obtain ⟨mid, fewer, hmid, hd, hon⟩ := ih hgoal htail
      exact ⟨mid, fewer, .up dir hmid, hd, hon⟩
  | absent look gone slashes =>
    cases front with
    | nil => exact at_start hs (.absent look gone slashes)
    | cons a front =>
      have htail : front ++ rest = _ := (List.cons.inj hs).2
      rw [← htail, Path.areSlashes, List.all_append, Bool.and_eq_true] at slashes
      cases slashes.2.symm.trans (hgoal _ _ rfl)
  | enter look found solid next ih =>
    cases front with
    | nil => exact at_start hs (.enter look found solid next)
    | cons a front =>
      obtain ⟨rfl, htail⟩ := List.cons.inj hs
      obtain ⟨mid, fewer, hmid, hd, hon⟩ := ih hgoal htail
      exact ⟨mid, fewer, .enter (look.of_ne_written (by simp)) found solid hmid, hd, hon⟩
  | stop look found kept =>
    cases front with
    | nil => exact at_start hs (.stop look found kept)
    | cons a front => exact absurd (List.append_eq_nil_iff.mp (List.cons.inj hs).2).2 hrest
  | follow look found more next ih =>
    cases front with
    | nil => exact at_start hs (.follow look found more next)
    | cons a front =>
      obtain ⟨rfl, htail⟩ := List.cons.inj hs
      obtain ⟨mid, fewer, hmid, hd, hon⟩ :=
        ih hgoal ((List.append_assoc ..).trans (congrArg _ htail))
      exact ⟨mid, fewer, .follow (look.of_ne_written (by simp)) found (Or.inr (by simp)) hmid, hd, hon⟩

theorem GoesThrough.exists_link (h : t.GoesThrough last spot here steps) :
    ∃ target, t.get? spot = some (.link target) := by
  induction h with
  | through _ found _ hit => exact ⟨_, hit ▸ found⟩
  | _ => assumption

/-! ## Files in the place of links -/

/-- What differs are files, and none is in the place of a directory. -/
def Overwrites (t t' : FileTree) : Prop :=
  ∀ l, t'.get? l = t.get? l ∨
    ¬ t.IsDirectory l ∧ ∃ contents mode, t'.get? l = some (.file contents mode)

namespace Overwrites

theorem directory {m : Nat} (ho : t.Overwrites t') (h : t.get? loc = some (.directory m)) :
    t'.get? loc = some (.directory m) := by
  cases ho loc with
  | inl hsame => rw [hsame, h]
  | inr hnew => exact absurd ⟨m, h⟩ hnew.1

theorem searchable (ho : t.Overwrites t') (h : t.Searchable loc) : t'.Searchable loc := by
  obtain ⟨m, hm, hs⟩ := h
  exact ⟨m, ho.directory hm, hs⟩

theorem looksUp {step : String} (ho : t.Overwrites t') (look : t.LooksUp last here step rest) :
    t'.LooksUp last here step rest :=
  { look with searchable := ho.searchable look.searchable }

/-- What is no file has been there before. -/
theorem get?_before {e : Entry} (ho : t.Overwrites t') (h : t'.get? loc = some e)
    (he : ∀ contents mode, e ≠ .file contents mode) : t.get? loc = some e := by
  cases ho loc with
  | inl hsame => rw [← hsame, h]
  | inr hnew =>
    obtain ⟨_, contents, mode, hfile⟩ := hnew
    exact absurd (Option.some.inj (h.symm.trans hfile)) (he contents mode)

theorem searchable_before (ho : t.Overwrites t') (h : t'.Searchable loc) : t.Searchable loc := by
  obtain ⟨m, hm, hs⟩ := h
  exact ⟨m, ho.get?_before hm (by simp), hs⟩

theorem looksUp_before {step : String} (ho : t.Overwrites t')
    (look : t'.LooksUp last here step rest) : t.LooksUp last here step rest :=
  { look with searchable := ho.searchable_before look.searchable }

/-- No path goes through a link that it did not go through before. -/
theorem goesThrough_before (ho : t.Overwrites t') (h : t'.GoesThrough last spot here steps) :
    t.GoesThrough last spot here steps := by
  induction h with
  | blank dir _ ih =>
    obtain ⟨m, hm⟩ := dir
    exact .blank ⟨m, ho.get?_before hm (by simp)⟩ ih
  | dot dir _ ih => exact .dot (ho.searchable_before dir) ih
  | up dir _ ih => exact .up (ho.searchable_before dir) ih
  | enter look found _ ih =>
    exact .enter (ho.looksUp_before look) (ho.get?_before found (by simp)) ih
  | through look found more hit =>
    exact .through (ho.looksUp_before look) (ho.get?_before found (by simp)) more hit
  | follow look found more _ ih =>
    exact .follow (ho.looksUp_before look) (ho.get?_before found (by simp)) more ih

/-- A path that goes through no link that is replaced leads where it led. -/
theorem leads (ho : t.Overwrites t') (h : t.Leads last links here steps (.entry loc))
    (hpast : ∀ spot, t'.get? spot ≠ t.get? spot → ¬ t.GoesThrough last spot here steps) :
    t'.Leads last links here steps (.entry loc) := by
  generalize hg : Target.entry loc = goal at h
  induction h with
  | done => exact .done
  | blank dir _ ih =>
    obtain ⟨m, hm⟩ := dir
    exact .blank ⟨m, ho.directory hm⟩ (ih (fun spot hne h => hpast spot hne (.blank ⟨m, hm⟩ h)) hg)
  | dot dir _ ih =>
    exact .dot (ho.searchable dir) (ih (fun spot hne h => hpast spot hne (.dot dir h)) hg)
  | up dir _ ih =>
    exact .up (ho.searchable dir) (ih (fun spot hne h => hpast spot hne (.up dir h)) hg)
  | absent => cases hg
  | @enter _ here step _ _ e look found solid next ih =>
    cases e with
    | link target => exact absurd rfl (solid target)
    | directory m =>
      exact .enter (ho.looksUp look) (ho.directory found) solid
        (ih (fun spot hne h => hpast spot hne (.enter look found h)) hg)
    | file contents mode =>
      -- Nothing comes after a file, so it does not matter whether it is the same.
      obtain rfl := next.nil_of_stuck fun ⟨m, hm⟩ => by cases found.symm.trans hm
      have hnext := ih (fun spot _ h => by cases h) hg
      cases ho (step :: here) with
      | inl hsame => exact .enter (ho.looksUp look) (hsame.trans found) solid hnext
      | inr hnew =>
        obtain ⟨_, contents', mode', hfile⟩ := hnew
        exact .enter (ho.looksUp look) hfile (by simp) hnext
  | @stop _ here step _ look found kept =>
    cases ho (step :: here) with
    | inl hsame => exact .stop (ho.looksUp look) (hsame.trans found) kept
    | inr hnew =>
      obtain ⟨_, contents, mode, hfile⟩ := hnew
      exact .enter (ho.looksUp look) hfile (by simp) .done
  | @follow _ here step _ _ _ look found more _ ih =>
    have hsame : t'.get? (step :: here) = t.get? (step :: here) :=
      Classical.byContradiction fun hne => hpast _ hne (.through look found more rfl)
    exact .follow (ho.looksUp look) (hsame.trans found) more
      (ih (fun spot hne h => hpast spot hne (.follow look found more h)) hg)

/-- A path that goes through a link is cut off by a file in its place. -/
theorem cut_off {contents : ByteArray} {mode : Nat} (ho : t.Overwrites t')
    (hfile : t'.get? spot = some (.file contents mode)) (h : t.GoesThrough last spot here steps)
    (h' : t'.Leads last links here steps (.entry loc)) : last ≠ .kept ∧ ¬ t'.IsDirectory loc := by
  -- A link that is now a file must have been the last step.
  have file_ends : ∀ {links here step rest contents mode}, t.LooksUp last here step rest →
      t'.get? (step :: here) = some (.file contents mode) → (rest ≠ [] ∨ last ≠ .kept) →
      t'.Leads last links here (step :: rest) (.entry loc) → last ≠ .kept ∧ ¬ t'.IsDirectory loc := by
    intro links here step rest contents mode look found more h'
    have hstuck : ¬ t'.IsDirectory (step :: here) := fun ⟨m, hm⟩ => by cases found.symm.trans hm
    have hrest := h'.of_enter (ho.looksUp look) found (by simp)
    cases Target.entry.inj (hrest.stuck hstuck)
    exact ⟨more.resolve_left fun hne => hne (hrest.nil_of_stuck hstuck), hstuck⟩
  induction h generalizing links with
  | blank _ _ ih => exact ih (leads_blank_iff.mp h').2
  | dot _ _ ih => exact ih (leads_dot_iff.mp h').2
  | up _ _ ih => exact ih (leads_up_iff.mp h').2
  | enter look found _ ih => exact ih (h'.of_enter (ho.looksUp look) (ho.directory found) (by simp))
  | through look found more hit =>
    subst hit
    exact file_ends look hfile more h'
  | @follow here step rest target look found more _ ih =>
    cases ho (step :: here) with
    | inr hnew =>
      obtain ⟨_, contents', mode', hfile'⟩ := hnew
      exact file_ends look hfile' more h'
    | inl hsame =>
      cases h'.of_link (ho.looksUp look) (hsame.trans found) with
      | inr hnext =>
        obtain ⟨_, hnext⟩ := hnext
        exact ih hnext
      | inl hend =>
        obtain ⟨rfl, hloc⟩ := hend
        cases hloc
        exact ⟨more.resolve_left (by simp), fun ⟨m, hm⟩ => by cases (hsame.trans found).symm.trans hm⟩

theorem trans {t'' : FileTree} (ho : t.Overwrites t') (ho' : t'.Overwrites t'') : t.Overwrites t'' := by
  intro l
  cases ho' l with
  | inl hsame =>
    rw [hsame]
    exact ho l
  | inr hnew => exact Or.inr ⟨fun ⟨m, hm⟩ => hnew.1 ⟨m, ho.directory hm⟩, hnew.2⟩

end Overwrites

theorem overwrites_insert {contents : ByteArray} {mode : Nat} (hl : loc ≠ [])
    (hd : ¬ t.IsDirectory loc) : t.Overwrites (t.insert loc (.file contents mode)) := by
  intro l
  by_cases he : l = loc
  · subst he
    exact Or.inr ⟨hd, contents, mode, get?_insert_self t _ _ hl⟩
  · exact Or.inl (get?_insert_of_ne t _ he)

end FileTree

/-- Where the files for a directory are made; the empty path is that of the working directory. -/
def Path.orHere (dir : Path) : Path := if dir.isEmpty then "." else dir

theorem Path.orHere_of_ne_empty {dir : Path} (hd : dir ≠ "") : dir.orHere = dir := by
  have he : dir.isEmpty = false := String.isEmpty_eq_false_iff.mpr hd
  simp [orHere, he]

namespace Workspace

variable {ws ws' : Workspace} {p dir : Path} {leaf : String} {loc spot staged : Location}
  {contents : ByteArray} {mode : Nat}

/-- On its way, a path goes through the link at a place. -/
def GoesThrough (ws : Workspace) (last : LastStep) (p : Path) (spot : Location) : Prop :=
  ws.tree.GoesThrough last spot (ws.start p) p.steps

theorem staging_of_placeStaged (h : ws.placeStaged dir staged p contents mode = .ok ws') :
    ws.staging dir = .ok staged := by
  unfold placeStaged at h
  split at h
  case h_1 => cases h
  case h_2 loc hs =>
    split at h
    case isTrue he => rw [hs, he]
    case isFalse => cases h

theorem Grows.stat {e : Entry} (hg : ws.Grows ws') (h : ws.stat p = .ok (loc, e)) :
    ws'.stat p = .ok (loc, e) := by
  obtain ⟨hr, he⟩ := entry_eq_ok_iff.mp h
  exact entry_eq_ok_iff.mpr ⟨resolve_of_keeps hg.tree.keeps hg.workingDir hr, hg.tree.get? he⟩

theorem Grows.mode_eq_ok (hg : ws.Grows ws') {m : Nat} (h : ws.mode p = .ok m) :
    ws'.mode p = .ok m := by
  unfold Workspace.mode at h ⊢
  cases hs : ws.stat p with
  | error e => simp [hs] at h
  | ok found =>
    obtain ⟨loc, e⟩ := found
    rw [hg.stat hs]
    rw [hs] at h
    exact h

/-- The directories on the way to one. -/
theorem exists_directory_of_stat (h : ws.stat p = .ok (loc, .directory mode)) {front : List String}
    (hf : front <+: p.moves) :
    ∃ mid m, ws.tree.Leads .followed FileTree.maxLinks (ws.start p) front (.entry mid) ∧
      ws.tree.get? mid = some (.directory m) := by
  obtain ⟨hr, hm⟩ := entry_eq_ok_iff.mp h
  have hleads := (resolve_eq_ok_iff.mp hr).2.tidy (Path.tidies_moves p)
  obtain ⟨rest, hrest⟩ := hf
  rw [← hrest] at hleads
  cases rest with
  | nil =>
    rw [List.append_nil] at hleads
    exact ⟨loc, mode, hleads, hm⟩
  | cons step rest =>
    obtain ⟨mid, _, hmid, ⟨m, hd⟩, _⟩ := hleads.split (by simp) (by simp)
    exact ⟨mid, m, hmid, hd⟩

section

variable {made : Workspace} (ho : made.tree.Overwrites ws.tree) (hdir : ws.workingDir = made.workingDir)
  (hs : spot ≠ []) (hd : ¬ ws.tree.IsDirectory spot)
include ho hdir hs hd

theorem resolve_insert_of_past {last : LastStep} {goal : Location}
    (hpast : ¬ made.GoesThrough last p spot) (h : ws.resolve last p = .ok (.entry goal)) :
    (ws.insert spot (.file contents mode)).resolve last p = .ok (.entry goal) := by
  obtain ⟨hf, hleads⟩ := resolve_eq_ok_iff.mp h
  refine resolve_eq_ok_iff.mpr ⟨hf, (FileTree.overwrites_insert hs hd).leads hleads ?_⟩
  intro l hl hthrough
  have hspot : l = spot := Classical.byContradiction fun hne => hl (FileTree.get?_insert_of_ne _ _ hne)
  subst hspot
  have hstart : (ws.insert l (.file contents mode)).start p = made.start p := start_eq hdir p
  rw [hstart] at hthrough
  exact hpast (ho.goesThrough_before hthrough)

theorem cut_off_insert {last : LastStep} {goal : Location}
    (hthrough : made.GoesThrough last p spot)
    (h : (ws.insert spot (.file contents mode)).resolve last p = .ok (.entry goal)) :
    last ≠ .kept ∧ ¬ (ws.insert spot (.file contents mode)).tree.IsDirectory goal := by
  obtain ⟨_, hleads⟩ := resolve_eq_ok_iff.mp h
  have hstart : (ws.insert spot (.file contents mode)).start p = made.start p := start_eq hdir p
  rw [hstart] at hleads
  exact (ho.trans (FileTree.overwrites_insert hs hd)).cut_off
    (FileTree.get?_insert_self ws.tree spot _ hs) hthrough hleads

/-- With a file in its place or another, a path leads there exactly if it does not go through a link
that was replaced last. -/
theorem stat_insert_iff {c : ByteArray} {m : Nat} (hp : p.EndsIn leaf) (h : ws.Spot p loc)
    (hfile : (ws.insert spot (.file contents mode)).tree.get? loc = some (.file c m)) :
    (ws.insert spot (.file contents mode)).stat p = .ok (loc, .file c m) ↔
      ¬ made.GoesThrough .kept p spot := by
  constructor
  · intro hstat hthrough
    obtain ⟨hr, _⟩ := entry_eq_ok_iff.mp hstat
    obtain ⟨hf, hleads⟩ := resolve_eq_ok_iff.mp hr
    obtain ⟨goal, hkept⟩ := hleads.exists_kept
    exact (cut_off_insert ho hdir hs hd hthrough (resolve_eq_ok_iff.mpr ⟨hf, hkept⟩)).1 rfl
  · intro hpast
    refine Spot.stat ?_ hfile
    obtain ⟨goal, hr, rfl⟩ := h
    cases goal with
    | entry loc => exact ⟨_, resolve_insert_of_past ho hdir hs hd hpast hr, rfl⟩
    | absent d name =>
      -- The file that is there now is the new one, so that no link was replaced.
      have hnone := (resolve_eq_ok_iff.mp hr).2.missing.1
      have hspot : name :: d = spot := Classical.byContradiction fun hne => by
        cases (hnone.symm.trans (FileTree.get?_insert_of_ne ws.tree _ hne).symm).trans hfile
      subst hspot
      refine Spot.of_keeps ⟨_, hr, rfl⟩ hp (FileTree.keeps_insert_file hs hd ?_) rfl hfile
      intro target hlink
      cases hnone.symm.trans hlink

theorem stat_directory_insert_iff {c : ByteArray} {m : Nat}
    (h : ws.stat p = .ok (loc, .directory mode)) :
    (ws.insert spot (.file c m)).stat p = .ok (loc, .directory mode) ↔
      ¬ made.GoesThrough .followed p spot := by
  obtain ⟨hr, hm⟩ := entry_eq_ok_iff.mp h
  constructor
  · intro hstat hthrough
    obtain ⟨hr', hm'⟩ := entry_eq_ok_iff.mp hstat
    exact (cut_off_insert ho hdir hs hd hthrough hr').2 ⟨mode, hm'⟩
  · intro hpast
    exact entry_eq_ok_iff.mpr ⟨resolve_insert_of_past ho hdir hs hd hpast hr,
      (FileTree.overwrites_insert hs hd).directory hm⟩

end

end Workspace

namespace Artifact

variable {a : Artifact} {dir : Path} {made : Workspace}

/-- The place of a file in a directory. -/
def place (a : Artifact) (stem : String) (d : Location) : Location := a.kind.fileName stem :: d

theorem mode_eq_of_ok {m : Nat} (h : made.mode (a.path dir) = .ok m) : a.mode made dir = m := by
  unfold Artifact.mode
  rw [h]

theorem mode_eq_fileMode (h : ∀ m, made.mode (a.path dir) ≠ .ok m) : a.mode made dir = fileMode := by
  unfold Artifact.mode
  cases hm : made.mode (a.path dir) with
  | ok m => exact absurd hm (h m)
  | error e => rfl

end Artifact

namespace Artifacts

variable {as : Artifacts} {dir : Path} {ws made after : Workspace} {stem : String} {d staged : Location}

/-! ## The two places -/

/-- Where the header and then the source were put. The directory in which they had been made was found
again for the second. -/
structure Places (as : Artifacts) (dir : Path) (made : Workspace) (stem : String)
    (d staged : Location) : Prop where
  named : as.Named dir stem
  header_place : as.header.place stem d = ArtifactKind.header.fileName stem :: d
  source_place : as.source.place stem d = ArtifactKind.source.fileName stem :: d
  staging : made.staging dir = .ok staged
  spots : ∀ a ∈ as.toList, made.Spot (a.path dir) (a.place stem d)
  solid : ∀ a ∈ as.toList, ¬ made.tree.IsDirectory (a.place stem d)
  staging_between : (as.withHeader dir made stem d).staging dir = .ok staged
  spots_between : ∀ a ∈ as.toList, (as.withHeader dir made stem d).Spot (a.path dir) (a.place stem d)

theorem staging_of_write_ok {ws' : Workspace} (hplaced : as.HeaderPlaced dir ws staged ws')
    (h : (as.write dir ws).result = .ok ()) : ws'.staging dir = .ok staged := by
  cases hs : as.placeSource dir ws staged ws' with
  | error e =>
    rw [write_of_placeSource_error hplaced hs] at h
    cases h
  | ok ws'' => exact Workspace.staging_of_placeStaged hs

theorem exists_places {records : List InterfaceRecord} {baseName : String}
    (h : ((render records baseName).write dir ws).result = .ok ()) :
    ∃ stem d staged,
      (render records baseName).Places dir (ws.ensureDirectory dir).workspace stem d staged ∧
      ((render records baseName).write dir ws).workspace =
        (render records baseName).withBoth dir (ws.ensureDirectory dir).workspace stem d := by
  obtain ⟨stem, hstem⟩ := Workspace.spot_join_fileName dir baseName
  have hn : (render records baseName).Named dir stem := ⟨(hstem .header).1, (hstem .source).1⟩
  obtain ⟨staged, ws', ws'', hplaced, hsource, hdone⟩ := exists_placed_of_write_ok h
  have hstaging := staging_of_write_ok hplaced h
  obtain ⟨d, hspot, hsolid, _, _, rfl⟩ := (Workspace.place_eq_ok_iff hn.header).mp hplaced.placed
  obtain ⟨d', hspot', hsolid', _, _, rfl⟩ := (Workspace.place_eq_ok_iff hn.source).mp hsource
  have hbeside := (hstem .source).2 _ d' .header hspot'
  cases hspot.eq_of_insert (by simp) hbeside
  refine ⟨stem, d, staged, ⟨hn, rfl, rfl, hplaced.staging, forall_mem_toList.mpr ⟨hspot, ?_⟩,
    forall_mem_toList.mpr ⟨hsolid, ?_⟩, hstaging, forall_mem_toList.mpr ⟨hbeside, hspot'⟩⟩, hdone⟩
  · exact hspot'.before_insert (by simp) (source_cons_ne_header_cons stem d d)
  · rintro ⟨m, hm⟩
    refine hsolid' ⟨m, ?_⟩
    rw [Workspace.insert, FileTree.get?_insert_of_ne _ _ (source_cons_ne_header_cons stem d d)]
    exact hm

namespace Places

theorem get?_place (h : as.Places dir made stem d staged) :
    ∀ a ∈ as.toList, (as.withBoth dir made stem d).tree.get? (a.place stem d) =
      some (.file a.bytes (a.mode made dir)) := by
  refine forall_mem_toList.mpr ⟨?_, ?_⟩
  · rw [h.header_place]
    exact as.get?_header_of_both dir made stem d d
  · rw [h.source_place]
    exact FileTree.get?_insert_self _ _ _ (by simp)

theorem overwrites_between (h : as.Places dir made stem d staged) :
    made.tree.Overwrites (as.withHeader dir made stem d).tree := by
  have hsolid := (forall_mem_toList.mp h.solid).1
  rw [h.header_place] at hsolid
  exact FileTree.overwrites_insert (by simp) hsolid

theorem solid_between (h : as.Places dir made stem d staged) :
    ¬ (as.withHeader dir made stem d).tree.IsDirectory (as.source.place stem d) := by
  rintro ⟨m, hm⟩
  exact (forall_mem_toList.mp h.solid).2 ⟨m, h.overwrites_between.get?_before hm (by simp)⟩

theorem overwrites (h : as.Places dir made stem d staged) :
    made.tree.Overwrites (as.withBoth dir made stem d).tree := by
  have hsolid := h.solid_between
  rw [h.source_place] at hsolid
  exact h.overwrites_between.trans (FileTree.overwrites_insert (by simp) hsolid)

/-- The workspace as it was, apart from the two places. -/
theorem get?_of_ne (h : as.Places dir made stem d staged) {l : Location}
    (hl : ∀ a ∈ as.toList, l ≠ a.place stem d) :
    (as.withBoth dir made stem d).tree.get? l = made.tree.get? l := by
  obtain ⟨hheader, hsource⟩ := forall_mem_toList.mp hl
  rw [h.header_place] at hheader
  rw [h.source_place] at hsource
  exact (FileTree.get?_insert_of_ne _ _ hsource).trans (FileTree.get?_insert_of_ne _ _ hheader)

/-- A path that leads to a file leads to its place, and it does so unless it was cut off. -/
theorem stat_iff (h : as.Places dir made stem d staged) :
    ∀ a ∈ as.toList, (as.withBoth dir made stem d).stat (a.path dir) =
        .ok (a.place stem d, .file a.bytes (a.mode made dir)) ↔
      ¬ made.GoesThrough .kept (a.path dir) (as.source.place stem d) := by
  intro a ha
  obtain ⟨leaf, hleaf⟩ : ∃ leaf, (a.path dir).EndsIn leaf :=
    (forall_mem_toList (P := fun a => ∃ leaf, (a.path dir).EndsIn leaf)).mpr
      ⟨⟨_, h.named.header⟩, ⟨_, h.named.source⟩⟩ a ha
  have hsolid := h.solid_between
  have hfile := h.get?_place a ha
  rw [h.source_place] at hsolid ⊢
  exact Workspace.stat_insert_iff h.overwrites_between rfl (by simp) hsolid hleaf
    (h.spots_between a ha) hfile

theorem ends (h : as.Places dir made stem d staged) :
    as.Ends dir stem made (.ok ()) (as.withBoth dir made stem d) := by
  obtain ⟨hspot, hspot'⟩ := forall_mem_toList.mp h.spots
  obtain ⟨hsolid, hsolid'⟩ := forall_mem_toList.mp h.solid
  rw [h.header_place] at hspot hsolid
  rw [h.source_place] at hspot' hsolid'
  exact .after hspot hsolid hspot' hsolid'

/-- There is nothing else that it could lead to. -/
theorem eq_of_stat (h : as.Places dir made stem d staged) {a : Artifact} (ha : a ∈ as.toList)
    {loc : Location} {e : Entry} (hs : (as.withBoth dir made stem d).stat (a.path dir) = .ok (loc, e)) :
    loc = a.place stem d ∧ e = .file a.bytes (a.mode made dir) := by
  obtain ⟨hr, _⟩ := Workspace.entry_eq_ok_iff.mp hs
  obtain ⟨hf, hleads⟩ := Workspace.resolve_eq_ok_iff.mp hr
  obtain ⟨loc', hkept⟩ := hleads.exists_kept
  have hspot : (as.withBoth dir made stem d).Spot (a.path dir) loc' :=
    ⟨_, Workspace.resolve_eq_ok_iff.mpr ⟨hf, hkept⟩, rfl⟩
  cases (h.ends.spot_before h.named a ha loc' hspot).unique (h.spots a ha)
  cases hs.symm.trans (hspot.stat (h.get?_place a ha))
  exact ⟨rfl, rfl⟩

theorem stat_directory_iff (h : as.Places dir made stem d staged) :
    ∃ m, made.stat dir.orHere = .ok (staged, .directory m) ∧
      ((as.withBoth dir made stem d).stat dir.orHere = .ok (staged, .directory m) ↔
        ¬ made.GoesThrough .followed dir.orHere (as.source.place stem d)) := by
  obtain ⟨-, m, hs, -⟩ := Workspace.staging_eq_ok_iff_stat.mp h.staging
  obtain ⟨-, m', hs', -⟩ := Workspace.staging_eq_ok_iff_stat.mp h.staging_between
  have hm := h.overwrites_between.directory (Workspace.entry_eq_ok_iff.mp hs).2
  cases hm.symm.trans (Workspace.entry_eq_ok_iff.mp hs').2
  have hsolid := h.solid_between
  rw [h.source_place] at hsolid ⊢
  exact ⟨m, hs, Workspace.stat_directory_insert_iff h.overwrites_between rfl (by simp) hsolid hs'⟩

end Places

/-! ## What is left -/

/-- What a write leaves that has put both files into a directory. -/
structure WrittenState (as : Artifacts) (dir : Path) (ws made after : Workspace) (stem : String)
    (d : Location) : Prop where
  /-- The directories on the way to the output directory are there. -/
  chain : ∀ front, front <+: dir.orHere.moves → ∃ loc m,
    made.tree.Leads .followed FileTree.maxLinks (made.start dir.orHere) front (.entry loc) ∧
      after.tree.get? loc = some (.directory m)
  /-- Its path still leads there, unless it goes through a link that the source has replaced. -/
  directory : ∃ loc m, made.stat dir.orHere = .ok (loc, .directory m) ∧
    (after.stat dir.orHere = .ok (loc, .directory m) ↔
      ¬ made.GoesThrough .followed dir.orHere (as.source.place stem d))
  spots : ∀ a ∈ as.toList, made.Spot (a.path dir) (a.place stem d)
  /-- Each file is complete. Its mode is that of what its path led to before; if that was nothing, of
  what it leads to once the directories are made; else that of a new file. -/
  files : ∀ a ∈ as.toList, ∃ m, after.tree.get? (a.place stem d) = some (.file a.bytes m) ∧
    (∀ m', ws.mode (a.path dir) = .ok m' → m = m') ∧
    (∀ m', made.mode (a.path dir) = .ok m' → m = m') ∧
    ((∀ m', made.mode (a.path dir) ≠ .ok m') → m = fileMode)
  /-- The path of a file leads to it, unless it goes through a link that the source has replaced; then
  it leads nowhere. -/
  reached : ∀ a ∈ as.toList, ∀ loc e, after.stat (a.path dir) = .ok (loc, e) ↔
    loc = a.place stem d ∧ after.tree.get? loc = some e ∧
      ¬ made.GoesThrough .kept (a.path dir) (as.source.place stem d)
  /-- Where a link was replaced, the file that it led to is what it was, unless it is the other of the
  two that are written. -/
  linked : ∀ a ∈ as.toList, ∀ target, ws.tree.get? (a.place stem d) = some (.link target) →
    ∀ loc contents m, ws.stat (a.path dir) = .ok (loc, .file contents m) →
      after.tree.get? loc = some (.file contents m) ∨ ∃ a' ∈ as.toList, a' ≠ a ∧ loc = a'.place stem d
  /-- All other entries are what they were, apart from new directories on the way to the output
  directory. -/
  others : ∀ l, (∀ a ∈ as.toList, l ≠ a.place stem d) →
    after.tree.get? l = ws.tree.get? l ∨
      (ws.tree.get? l = none ∧ after.tree.get? l = some (.directory (ws.masked 0o777)) ∧
        made.Passes (ws.start dir) dir.moves l)

theorem others_of_places (h : as.Places dir (ws.ensureDirectory dir).workspace stem d staged)
    {l : Location} (hl : ∀ a ∈ as.toList, l ≠ a.place stem d) :
    (as.withBoth dir (ws.ensureDirectory dir).workspace stem d).tree.get? l = ws.tree.get? l ∨
      (ws.tree.get? l = none ∧
        (as.withBoth dir (ws.ensureDirectory dir).workspace stem d).tree.get? l =
          some (.directory (ws.masked 0o777)) ∧
        (ws.ensureDirectory dir).workspace.Passes (ws.start dir) dir.moves l) := by
  rw [h.get?_of_ne hl]
  exact ws.growsAlong_ensureDirectory dir l

/-- A file that a link led to is unchanged unless it is itself one of those that are written. -/
theorem linked_of_places (h : as.Places dir (ws.ensureDirectory dir).workspace stem d staged)
    {a : Artifact} {target : Path} {loc : Location} {contents : ByteArray} {m : Nat}
    (hlink : ws.tree.get? (a.place stem d) = some (.link target))
    (hs : ws.stat (a.path dir) = .ok (loc, .file contents m)) :
    (as.withBoth dir (ws.ensureDirectory dir).workspace stem d).tree.get? loc =
        some (.file contents m) ∨ ∃ a' ∈ as.toList, a' ≠ a ∧ loc = a'.place stem d := by
  obtain ⟨_, hfile⟩ := Workspace.entry_eq_ok_iff.mp hs
  by_cases hother : ∃ a' ∈ as.toList, loc = a'.place stem d
  · obtain ⟨a', ha', rfl⟩ := hother
    refine Or.inr ⟨a', ha', ?_, rfl⟩
    rintro rfl
    cases hlink.symm.trans hfile
  · refine Or.inl ?_
    rw [h.get?_of_ne fun a' ha' he => hother ⟨a', ha', he⟩]
    exact (ws.grows_ensureDirectory dir).tree.get? hfile

/-- What is left by a write that succeeds. -/
theorem write_leaves_written_state {records : List InterfaceRecord} {baseName : String}
    (h : ((render records baseName).write dir ws).result = .ok ()) :
    ∃ stem d, (render records baseName).WrittenState dir ws (ws.ensureDirectory dir).workspace
      ((render records baseName).write dir ws).workspace stem d := by
  obtain ⟨stem, d, staged, hp, hdone⟩ := exists_places h
  have hgrows := ws.grows_ensureDirectory dir
  obtain ⟨m, hmade, hdirectory⟩ := hp.stat_directory_iff
  rw [hdone]
  exact ⟨stem, d, {
    chain := fun front hfront => by
      obtain ⟨loc, m', hleads, hm'⟩ := Workspace.exists_directory_of_stat hmade hfront
      exact ⟨loc, m', hleads, hp.overwrites.directory hm'⟩
    directory := ⟨staged, m, hmade, hdirectory⟩
    spots := hp.spots
    files := fun a ha => ⟨_, hp.get?_place a ha,
      fun _ hm => Artifact.mode_eq_of_ok (hgrows.mode_eq_ok hm),
      fun _ hm => Artifact.mode_eq_of_ok hm, Artifact.mode_eq_fileMode⟩
    reached := fun a ha loc e => by
      constructor
      · intro hs
        obtain ⟨rfl, rfl⟩ := hp.eq_of_stat ha hs
        exact ⟨rfl, hp.get?_place a ha, (hp.stat_iff a ha).mp hs⟩
      · rintro ⟨rfl, hfile, hpast⟩
        cases (hp.get?_place a ha).symm.trans hfile
        exact (hp.stat_iff a ha).mpr hpast
    linked := fun a ha target hlink loc contents m hs => linked_of_places hp hlink hs
    others := fun l hl => others_of_places hp hl }⟩

end Artifacts

/-- In the directory `o`, beside a document, the header `t.h` is a link to a file `real`. -/
def sharedHeader (mode : Nat) : Workspace where
  tree := (((FileTree.empty.insert ["o"] (.directory directoryMode)).insert ["a.json", "o"]
    (.file (OneMapping.text "n" "/v").toUTF8 fileMode)).insert ["real", "o"]
    (.file ⟨#[255]⟩ mode)).insert ["t.h", "o"] (.link "real")
  workingDir := []

theorem prepare_sharedHeader (mode : Nat) :
    intoOldHeader.prepare (sharedHeader mode) = .ok (1, newTables) := by
  have hdir : (sharedHeader mode).stat "o" = .ok (["o"], .directory directoryMode) := rfl
  have hnames : (sharedHeader mode).tree.names ["o"] = ["a.json", "real", "t.h"] := rfl
  have hfound : (sharedHeader mode).discover "o" "json" = .ok ["o/a.json"] :=
    Workspace.discover_of_names hdir (by decide) hnames (by decide) "json"
  exact RunOptions.prepare_oneMapping (o := intoOldHeader) hfound rfl (by decide) rfl

/-- The path of the directory may end in a slash. -/
theorem write_ok_sharedHeader (records : List InterfaceRecord) {dir : Path}
    (hdir : dir = "o" ∨ dir = "o/") :
    ((render records "t").write dir (sharedHeader 0o640)).result = .ok () := by
  obtain ⟨hheader, hsource⟩ := Artifacts.path_render records "t" dir
  have hready : (sharedHeader 0o640).ensureDirectory dir = ⟨.ok (), sharedHeader 0o640⟩ := by
    obtain rfl | rfl := hdir <;> rfl
  have hstaging : (sharedHeader 0o640).staging dir = .ok ["o"] := by
    obtain rfl | rfl := hdir <;> exact Workspace.staging_of_root rfl rfl rfl rfl
  have hstaging' : ∀ e, ((sharedHeader 0o640).insert ["t.h", "o"] e).staging dir = .ok ["o"] := by
    obtain rfl | rfl := hdir <;> exact fun _ => Workspace.staging_of_root rfl rfl rfl rfl
  obtain ⟨hp, hp'⟩ : dir.join "t.h" = "o/t.h" ∧ dir.join "t.c" = "o/t.c" := by
    obtain rfl | rfl := hdir <;> exact ⟨rfl, rfl⟩
  rw [Artifacts.write_of_places hready hstaging (hstaging' _) ⟨hheader.trans hp, rfl⟩
    ⟨hsource.trans hp', rfl⟩ rfl rfl]

/-- The new header has the mode of the file that the link led to, and that file is still there. -/
theorem write_sharedHeader :
    intoOldHeader.prepare (sharedHeader 0o640) = .ok (1, newTables) ∧
      (newTables.write "o" (sharedHeader 0o640)).result = .ok () ∧
      (newTables.write "o" (sharedHeader 0o640)).workspace.stat "o/t.h" =
        .ok (["t.h", "o"], .file newTables.header.bytes 0o640) ∧
      (newTables.write "o" (sharedHeader 0o640)).workspace.tree.get? ["real", "o"] =
        some (.file ⟨#[255]⟩ 0o640) := by
  have hwrite : (newTables.write "o" (sharedHeader 0o640)).result = .ok () :=
    write_ok_sharedHeader _ (.inl rfl)
  obtain ⟨stem, d, h⟩ : ∃ stem d, newTables.WrittenState "o" _ _ _ stem d :=
    Artifacts.write_leaves_written_state hwrite
  have hmem : newTables.header ∈ newTables.toList := by simp [Artifacts.toList]
  obtain ⟨hspot, hspot'⟩ := Artifacts.forall_mem_toList.mp h.spots
  have hheader : newTables.header.place stem d = ["t.h", "o"] := hspot.unique ⟨_, rfl, rfl⟩
  have hsource : newTables.source.place stem d = ["t.c", "o"] := hspot'.unique ⟨_, rfl, rfl⟩
  obtain ⟨m, hfile, hmode, _⟩ := h.files _ hmem
  cases hmode 0o640 rfl
  rw [hheader] at hfile
  refine ⟨prepare_sharedHeader 0o640, hwrite,
    (h.reached _ hmem _ _).mpr ⟨hheader.symm, hfile, fun hthrough => ?_⟩, ?_⟩
  · obtain ⟨target, hlink⟩ := hthrough.exists_link
    rw [hsource] at hlink
    cases hlink
  · have hlink : (sharedHeader 0o640).tree.get? ["t.h", "o"] = some (.link "real") := rfl
    have hreal : (sharedHeader 0o640).stat "o/t.h" = .ok (["real", "o"], .file ⟨#[255]⟩ 0o640) := rfl
    refine (h.linked _ hmem "real" (hheader ▸ hlink) _ _ _ hreal).resolve_right ?_
    rintro ⟨a, ha, hne, hplace⟩
    rw [Artifacts.toList, List.mem_pair] at ha
    obtain rfl | rfl := ha
    · exact hne rfl
    · exact absurd (hplace.trans hsource) (by decide)

/-- An old header in `o`, beside a new directory `x`. -/
def besideNewDirectory : Workspace :=
  (oldHeader 0o600).insert ["x", "o"] (.directory directoryMode)

/-- The paths of both files go through the new directory back to the old one. -/
theorem write_besideNewDirectory :
    (render [] "../t").write "o/x" (oldHeader 0o600) =
      ⟨.ok (), (besideNewDirectory.insert ["t.h", "o"]
        (.file (render [] "../t").header.bytes 0o600)).insert ["t.c", "o"]
          (.file (render [] "../t").source.bytes fileMode),
        [.wrote "o/x/../t.h", .wrote "o/x/../t.c"]⟩ := by
  have hready : (oldHeader 0o600).ensureDirectory "o/x" = ⟨.ok (), besideNewDirectory⟩ := rfl
  have hstaging : besideNewDirectory.staging "o/x" = .ok ["x", "o"] :=
    Workspace.staging_of_root rfl rfl rfl rfl
  have hstaging' : ∀ e, (besideNewDirectory.insert ["t.h", "o"] e).staging "o/x" = .ok ["x", "o"] :=
    fun _ => Workspace.staging_of_root rfl rfl rfl rfl
  obtain ⟨hheader, hsource⟩ := Artifacts.path_render [] "../t" "o/x"
  exact Artifacts.write_of_places hready hstaging (hstaging' _) ⟨hheader, rfl⟩ ⟨hsource, rfl⟩ rfl rfl

/-- The path of a header may lead to nothing before the directories are made, and to an old header
afterwards, whose mode the new one has. -/
theorem mode_of_header_behind_new_directory :
    ¬ ∀ (records : List InterfaceRecord) (baseName : String) (dir : Path) (ws : Workspace),
      ws.tree.WellFormed → ws.tree.LinkFree → ((render records baseName).write dir ws).result = .ok () →
      ∀ a ∈ (render records baseName).toList, (∀ m, ws.mode (a.path dir) ≠ .ok m) →
        ((render records baseName).write dir ws).workspace.mode (a.path dir) = .ok fileMode := by
  intro h
  have hpath : (render [] "../t").header.path "o/x" = "o/x/../t.h" := rfl
  have hgone : (oldHeader 0o600).mode "o/x/../t.h" = .error .notFound := rfl
  have hnew := h [] "../t" "o/x" (oldHeader 0o600) (reached_oldHeader 0o600).wellFormed
    (linkFree_oldHeader 0o600) (by rw [write_besideNewDirectory]) (render [] "../t").header
    (by simp [Artifacts.toList]) (fun m hm => by cases hgone.symm.trans hm)
  rw [write_besideNewDirectory, hpath] at hnew
  have hkept : ∀ bytes bytes' : ByteArray, ((besideNewDirectory.insert ["t.h", "o"]
      (.file bytes 0o600)).insert ["t.c", "o"] (.file bytes' fileMode)).mode "o/x/../t.h" =
    .ok 0o600 := fun _ _ => rfl
  exact absurd (Except.ok.inj ((hkept _ _).symm.trans hnew)) (by decide)

end InterfaceTables
