import InterfaceTables.Proofs.Staging

/-!
Putting files in their places, and how a write of both files can end.
-/

namespace InterfaceTables

namespace Workspace

/-- The place of the name at the end of a path; a link there is not followed. -/
def Spot (ws : Workspace) (p : Path) (loc : Location) : Prop :=
  ∃ goal, ws.resolve .kept p = .ok goal ∧ goal.place = loc

/-- What stands at a path; a link there is not followed. -/
def holding (ws : Workspace) (p : Path) : Option Entry :=
  match ws.entry .kept p with
  | .ok (_, e) => some e
  | .error _ => none

variable {ws ws' : Workspace} {p : Path} {leaf : String} {loc made : Location}
  {contents : ByteArray} {mode : Nat}

theorem holding_eq_some_iff {e : Entry} :
    ws.holding p = some e ↔
      ∃ loc, ws.resolve .kept p = .ok (.entry loc) ∧ ws.tree.get? loc = some e := by
  unfold holding
  cases h : ws.entry .kept p with
  | error err =>
    simp only [reduceCtorEq, false_iff]
    rintro ⟨loc, hr, hg⟩
    rw [entry_eq_ok_iff.mpr ⟨hr, hg⟩] at h
    cases h
  | ok found =>
    obtain ⟨loc, e'⟩ := found
    obtain ⟨hr, hg⟩ := entry_eq_ok_iff.mp h
    constructor
    · intro he
      cases he
      exact ⟨loc, hr, hg⟩
    · rintro ⟨loc', hr', hg'⟩
      rw [hr] at hr'
      cases hr'
      rw [← hg', hg]

theorem Spot.unique {loc' : Location} (h : ws.Spot p loc) (h' : ws.Spot p loc') : loc = loc' := by
  obtain ⟨goal, hr, rfl⟩ := h
  obtain ⟨goal', hr', rfl⟩ := h'
  rw [hr] at hr'
  cases hr'
  rfl

theorem Spot.holding (h : ws.Spot p loc) : ws.holding p = ws.tree.get? loc := by
  obtain ⟨goal, hr, rfl⟩ := h
  have hl := (resolve_eq_ok_iff.mp hr).2
  cases goal with
  | absent dir name =>
    rw [Target.place, hl.missing.1]
    simp [Workspace.holding, entry, hr]
  | entry loc =>
    simp only [Workspace.holding, entry, hr, Target.place]
    cases ws.tree.get? loc <;> rfl

/-- Both files of a write have their places in one directory. -/
theorem spot_join_fileName (dir : Path) (baseName : String) :
    ∃ stem, ∀ k : ArtifactKind, (dir.join (k.fileName baseName)).EndsIn (k.fileName stem) ∧
      ∀ (ws : Workspace) (d : Location) (k' : ArtifactKind),
        ws.Spot (dir.join (k.fileName baseName)) (k.fileName stem :: d) →
          ws.Spot (dir.join (k'.fileName baseName)) (k'.fileName stem :: d) := by
  obtain ⟨front, stem, hstem, hsteps⟩ := ArtifactKind.steps_join_fileName dir baseName
  refine ⟨stem, fun k => ⟨⟨ArtifactKind.isEntryName_fileName hstem k, by simp [hsteps k]⟩, ?_⟩⟩
  rintro ws d k' ⟨goal, hr, hplace⟩
  obtain ⟨hf, hl⟩ := resolve_eq_ok_iff.mp hr
  have named : ∀ k : ArtifactKind, k.fileName stem ≠ "" ∧ k.fileName stem ≠ "." ∧
      k.fileName stem ≠ ".." := by
    intro k
    have hn := ArtifactKind.isEntryName_fileName hstem k
    exact ⟨hn.ne_empty, hn.ne_dot, hn.ne_up⟩
  have hsize : (k'.fileName stem).utf8ByteSize ≤ (k.fileName stem).utf8ByteSize := by
    simp only [ArtifactKind.utf8ByteSize_fileName, Nat.le_refl]
  rw [hsteps k] at hl
  obtain ⟨d', goal', hl', hp, hp'⟩ := hl.sibling (named k) (named k') hsize
  rw [hplace] at hp
  obtain ⟨_, rfl⟩ := List.cons.inj hp
  refine ⟨goal', resolve_eq_ok_iff.mpr ⟨?_, ?_⟩, hp'⟩
  · rw [ArtifactKind.fault?_join_fileName dir baseName k' k, hf]
  · rw [hsteps k', start, ArtifactKind.isAbsolute_join_fileName]
    rw [start, ArtifactKind.isAbsolute_join_fileName] at hl'
    exact hl'

/-- A path that ends in a name leads to an entry of that name. -/
theorem exists_of_resolve_kept (hp : p.EndsIn leaf) (h : ws.resolve .kept p = .ok (.entry loc)) :
    ∃ dir e, loc = leaf :: dir ∧ ws.tree.get? (leaf :: dir) = some e := by
  have hn := hp.name
  obtain ⟨dir, _, hgoal⟩ :=
    (resolve_eq_ok_iff.mp h).2.at_leaf ⟨hn.ne_empty, hn.ne_dot, hn.ne_up⟩ hp.last
  obtain ⟨hloc, e, he⟩ := hgoal.resolve_left (by simp)
  exact ⟨dir, e, Target.entry.inj hloc, he⟩

theorem place_of_absent {dir : Location} {name : String} (hp : p.EndsIn leaf)
    (h : ws.resolve .kept p = .ok (.absent dir name)) :
    ws.place made p contents mode = ws.add dir name (.file contents mode) := by
  have hr : ws.resolveTrimmed .kept p = .ok (.absent dir name) := by
    rw [resolveTrimmed, hp.trimmedSteps]
    exact h
  simp [place, hr, hp.endsInSlash]

theorem place_of_entry {dir : Location} (hp : p.EndsIn leaf)
    (h : ws.resolve .kept p = .ok (.entry (leaf :: dir))) :
    ws.place made p contents mode = .ok ws' ↔
      (leaf :: dir).isSuffixOf made = false ∧ ws.mayChange dir = true ∧
        ¬ ws.tree.IsDirectory (leaf :: dir) ∧ ws' = ws.insert (leaf :: dir) (.file contents mode) := by
  have hr : ws.resolveTrimmed .kept p = .ok (.entry (leaf :: dir)) := by
    rw [resolveTrimmed, hp.trimmedSteps]
    exact h
  simp only [place, hr, hp.namesEntry, hp.endsInSlash, Bool.not_true, Bool.false_eq_true, if_false,
    List.tail_cons]
  cases (leaf :: dir).isSuffixOf made with
  | true => simp
  | false =>
    by_cases hc : ws.mayChange dir = true
    · unfold FileTree.IsDirectory
      cases ws.tree.get? (leaf :: dir) with
      | none => simp [hc, eq_comm]
      | some e => cases e <;> simp [hc, eq_comm]
    · simp [hc]

/-- When a file can be put at a path, and what that changes. -/
theorem place_eq_ok_iff (hp : p.EndsIn leaf) :
    ws.place made p contents mode = .ok ws' ↔
      ∃ dir, ws.Spot p (leaf :: dir) ∧ ¬ ws.tree.IsDirectory (leaf :: dir) ∧
        (ws.tree.get? (leaf :: dir) = none ∨ (leaf :: dir).isSuffixOf made = false) ∧
        ws.mayChange dir = true ∧ ws' = ws.insert (leaf :: dir) (.file contents mode) := by
  cases hr : ws.resolve .kept p with
  | error e =>
    have htrim : ws.resolveTrimmed .kept p = .error e := by
      rw [resolveTrimmed, hp.trimmedSteps]
      exact hr
    constructor
    · intro h
      cases e <;> simp [place, htrim] at h
    · rintro ⟨dir, ⟨goal, hg, _⟩, _⟩
      rw [hr] at hg
      cases hg
  | ok goal =>
    have hn := hp.name
    obtain ⟨dir, _, hgoal⟩ :=
      (resolve_eq_ok_iff.mp hr).2.at_leaf ⟨hn.ne_empty, hn.ne_dot, hn.ne_up⟩ hp.last
    cases hgoal with
    | inl hg =>
      obtain ⟨rfl, hnone⟩ := hg
      have hspot : ws.Spot p (leaf :: dir) := ⟨_, hr, rfl⟩
      rw [place_of_absent hp hr, add]
      constructor
      · intro h
        obtain ⟨hc, rfl⟩ := add_eq_ok h
        exact ⟨dir, hspot, by simp [FileTree.IsDirectory, hnone], Or.inl hnone, hc, rfl⟩
      · rintro ⟨dir', hspot', _, _, hc, rfl⟩
        cases hspot.unique hspot'
        rw [if_pos hc]
    | inr hg =>
      obtain ⟨rfl, e, he⟩ := hg
      have hspot : ws.Spot p (leaf :: dir) := ⟨_, hr, rfl⟩
      rw [place_of_entry hp hr]
      constructor
      · rintro ⟨hm, hc, hd, rfl⟩
        exact ⟨dir, hspot, hd, Or.inr hm, hc, rfl⟩
      · rintro ⟨dir', hspot', hd, hm, hc, rfl⟩
        cases hspot.unique hspot'
        exact ⟨hm.resolve_left (by simp [he]), hc, hd, rfl⟩

end Workspace

namespace FileTree

variable {t : FileTree} {loc : Location} {contents : ByteArray} {mode : Nat}

theorem put_eq_self {e : Entry} {entries : List (Location × Entry)}
    (h : entries.lookup loc = some e) : put loc e entries = entries := by
  induction entries with
  | nil => simp at h
  | cons x rest ih =>
    obtain ⟨l, y⟩ := x
    by_cases hl : l = loc
    · subst hl
      have he : y = e := by simpa using h
      simp [put, he]
    · rw [lookup_cons_of_ne (Ne.symm hl)] at h
      simp [put, hl, ih h]

/-- To put what is there already changes nothing. -/
theorem insert_eq_self {e : Entry} (hl : loc ≠ []) (h : t.get? loc = some e) :
    t.insert loc e = t := by
  cases loc with
  | nil => exact absurd rfl hl
  | cons name dir =>
    obtain ⟨entries, nodup⟩ := t
    simp only [insert, FileTree.mk.injEq]
    exact put_eq_self h

end FileTree

namespace Workspace

variable {ws : Workspace} {p : Path} {leaf : String} {dir : Location} {contents : ByteArray}
  {mode : Nat}

/-- A path leads to the file that was put there, unless a link was replaced, which could have been on
the way. -/
theorem Spot.resolve_insert (hp : p.EndsIn leaf) (h : ws.Spot p (leaf :: dir))
    (hd : ¬ ws.tree.IsDirectory (leaf :: dir))
    (hk : ∀ target, ws.tree.get? (leaf :: dir) ≠ some (.link target)) :
    (ws.insert (leaf :: dir) (.file contents mode)).resolve .kept p = .ok (.entry (leaf :: dir)) := by
  obtain ⟨goal, hr, hplace⟩ := h
  obtain ⟨hf, hl⟩ := resolve_eq_ok_iff.mp hr
  have keeps : ws.tree.Keeps (ws.insert (leaf :: dir) (.file contents mode)).tree :=
    FileTree.keeps_insert_file (by simp) hd hk
  refine resolve_eq_ok_iff.mpr ⟨hf, ?_⟩
  cases goal with
  | entry loc =>
    cases hplace
    exact keeps.leads hl
  | absent dir' name =>
    cases hplace
    have hlast : p.steps.getLast? ≠ some "" := by
      rw [hp.last]
      simpa using hp.name.ne_empty
    exact keeps.leads_made hl hlast (FileTree.get?_insert_self _ _ _ (by simp)) (by simp)

variable {ws' : Workspace} {made : Location}

/-- As long as no link is replaced, all entries stay what they are. -/
theorem keeps_of_place (hp : p.EndsIn leaf) (h : ws.place made p contents mode = .ok ws')
    (hlink : ∀ target, ws.holding p ≠ some (.link target)) :
    ws.tree.Keeps ws'.tree ∧ ws'.workingDir = ws.workingDir := by
  obtain ⟨dir, hspot, hnd, _, _, rfl⟩ := (place_eq_ok_iff hp).mp h
  rw [hspot.holding] at hlink
  exact ⟨FileTree.keeps_insert_file (by simp) hnd hlink, rfl⟩

/-- A file that is there already with the same bytes and mode is replaced without a change. -/
theorem eq_of_place_upToDate (hp : p.EndsIn leaf)
    (h : ws.place made p contents mode = .ok ws') (hh : ws.holding p = some (.file contents mode)) :
    ws' = ws := by
  obtain ⟨dir, hspot, _, _, _, rfl⟩ := (place_eq_ok_iff hp).mp h
  rw [hspot.holding] at hh
  rw [insert, FileTree.insert_eq_self (by simp) hh]

/-- Anything else is replaced with a change to the tree that is no new directory. -/
theorem exists_of_place_stale (hp : p.EndsIn leaf)
    (h : ws.place made p contents mode = .ok ws') (hh : ws.holding p ≠ some (.file contents mode)) :
    ∃ dir, ¬ ws.tree.IsDirectory (leaf :: dir) ∧
      ws.tree.get? (leaf :: dir) ≠ some (.file contents mode) ∧
      ws'.tree.get? (leaf :: dir) = some (.file contents mode) := by
  obtain ⟨dir, hspot, hnd, _, _, rfl⟩ := (place_eq_ok_iff hp).mp h
  rw [hspot.holding] at hh
  exact ⟨dir, hnd, hh, FileTree.get?_insert_self _ _ _ (by simp)⟩

/-- If the path leads to anything once a file is in its place, it is that file. -/
theorem Spot.eq_file_of_insert {e : Entry} (hspot : ws.Spot p (leaf :: dir))
    (he : (ws.insert (leaf :: dir) (.file contents mode)).holding p = some e) :
    e = .file contents mode := by
  have hfile := FileTree.get?_insert_self ws.tree (leaf :: dir) (.file contents mode) (by simp)
  obtain ⟨loc, hr, hl⟩ := holding_eq_some_iff.mp he
  by_cases hloc : loc = leaf :: dir
  · subst hloc
    exact Option.some.inj (hl.symm.trans hfile)
  · obtain ⟨hfault, hlead⟩ := resolve_eq_ok_iff.mp hr
    have hbefore := hlead.before_file hfile
      (fun l hne => FileTree.get?_insert_of_ne ws.tree _ hne) fun he => hloc (Target.entry.inj he)
    have hr' : ws.resolve .kept p = .ok (.entry loc) := resolve_eq_ok_iff.mpr ⟨hfault, hbefore⟩
    exact absurd (Spot.unique ⟨_, hr', rfl⟩ hspot) hloc

theorem eq_file_of_place {e : Entry} (hp : p.EndsIn leaf)
    (h : ws.place made p contents mode = .ok ws') (he : ws'.holding p = some e) :
    e = .file contents mode := by
  obtain ⟨dir, hspot, _, _, _, rfl⟩ := (place_eq_ok_iff hp).mp h
  exact hspot.eq_file_of_insert he

/-- With a new file somewhere, a path that ends in another name leads to what it led to before. -/
theorem holding_before_insert {p' : Path} {leaf' : String} {e : Entry} (hp' : p'.EndsIn leaf')
    (hne : leaf' ≠ leaf) (he : (ws.insert (leaf :: dir) (.file contents mode)).holding p' = some e) :
    ws.holding p' = some e := by
  have hfile := FileTree.get?_insert_self ws.tree (leaf :: dir) (.file contents mode) (by simp)
  obtain ⟨loc, hr, hl⟩ := holding_eq_some_iff.mp he
  obtain ⟨dir', _, rfl, _⟩ := exists_of_resolve_kept hp' hr
  obtain ⟨hfault, hlead⟩ := resolve_eq_ok_iff.mp hr
  have hloc : leaf' :: dir' ≠ leaf :: dir := fun he => hne (List.cons.inj he).1
  have hbefore := hlead.before_file hfile
    (fun l hne => FileTree.get?_insert_of_ne ws.tree _ hne) fun he => hloc (Target.entry.inj he)
  rw [insert, FileTree.get?_insert_of_ne _ _ hloc] at hl
  exact holding_eq_some_iff.mpr ⟨_, resolve_eq_ok_iff.mpr ⟨hfault, hbefore⟩, hl⟩

theorem holding_before_place {p' : Path} {leaf' : String} {e : Entry} (hp : p.EndsIn leaf)
    (hp' : p'.EndsIn leaf') (hne : leaf' ≠ leaf) (h : ws.place made p contents mode = .ok ws')
    (he : ws'.holding p' = some e) : ws.holding p' = some e := by
  obtain ⟨dir, _, _, _, _, rfl⟩ := (place_eq_ok_iff hp).mp h
  exact holding_before_insert hp' hne he

theorem holding_before_dropStaged {staged : Path} {e : Entry} (hp : p.EndsIn leaf)
    (hne : leaf ≠ ws.tree.spareName made)
    (he : (ws.dropStaged staged made contents mode).holding p = some e) : ws.holding p = some e := by
  cases ws.dropStaged_cases staged made contents mode with
  | inl h => rwa [h] at he
  | inr h =>
    rw [h] at he
    exact holding_before_insert hp hne he

/-- What stands at the path itself is another thing then, also if some staged file stays. If the new
file took the place of a link, the path may even lead nowhere. -/
theorem holding_ne_of_place_stale {staged : Path} {bytes : ByteArray} {m : Nat} (hp : p.EndsIn leaf)
    (hne : leaf ≠ ws'.tree.spareName made) (h : ws.place made p contents mode = .ok ws')
    (hh : ws.holding p ≠ some (.file contents mode)) :
    (ws'.dropStaged staged made bytes m).holding p ≠ ws.holding p := by
  intro he
  cases hg : ws.holding p with
  | some e =>
    have hplaced := holding_before_dropStaged hp hne (he.trans hg)
    exact hh (by rw [hg, eq_file_of_place hp h hplaced])
  | none =>
    obtain ⟨dir, hspot, hnd, _, _, rfl⟩ := (place_eq_ok_iff hp).mp h
    have hnone : ws.tree.get? (leaf :: dir) = none := by rw [← hspot.holding, hg]
    have hplaced : (ws.insert (leaf :: dir) (.file contents mode)).resolve .kept p =
      .ok (.entry (leaf :: dir)) := hspot.resolve_insert hp hnd (by simp [hnone])
    have hr := resolve_of_keeps (keeps_dropStaged _ staged made bytes m)
      (workingDir_dropStaged _ staged made bytes m) hplaced
    rw [hg, Spot.holding ⟨_, hr, rfl⟩, Target.place, get?_dropStaged hne, insert,
      FileTree.get?_insert_self _ _ _ (by simp)] at he
    cases he

end Workspace

theorem Artifact.mode_eq_getD (a : Artifact) (ws : Workspace) (dir : Path) :
    a.mode ws dir = (ws.mode (a.path dir)).toOption.getD fileMode := by
  unfold mode
  cases ws.mode (a.path dir) <;> rfl

namespace Artifacts

theorem forall_mem_toList {as : Artifacts} {P : Artifact → Prop} :
    (∀ a ∈ as.toList, P a) ↔ P as.header ∧ P as.source := by
  simp [toList]

/-- The paths of both files end in their names. -/
structure Named (as : Artifacts) (dir : Path) (stem : String) : Prop where
  header : (as.header.path dir).EndsIn (ArtifactKind.header.fileName stem)
  source : (as.source.path dir).EndsIn (ArtifactKind.source.fileName stem)

theorem exists_named (records : List InterfaceRecord) (baseName : String) (dir : Path) :
    ∃ stem, (render records baseName).Named dir stem := by
  obtain ⟨stem, h⟩ := ArtifactKind.endsIn_join_fileName dir baseName
  exact ⟨stem, h .header, h .source⟩

/-- The directory of a write is there and the header has taken its place. -/
structure HeaderPlaced (as : Artifacts) (dir : Path) (ws : Workspace) (staged : Location)
    (ws' : Workspace) : Prop where
  ready : (ws.ensureDirectory dir).result = .ok ()
  staging : (ws.ensureDirectory dir).workspace.staging dir = .ok staged
  placed : (ws.ensureDirectory dir).workspace.place staged (as.header.path dir) as.header.bytes
    (as.header.mode (ws.ensureDirectory dir).workspace dir) = .ok ws'

/-- What becomes of the source of a write once the header is in place. -/
def placeSource (as : Artifacts) (dir : Path) (ws : Workspace) (staged : Location)
    (ws' : Workspace) : Except IoError Workspace :=
  ws'.placeStaged dir staged (as.source.path dir) as.source.bytes
    (as.source.mode (ws.ensureDirectory dir).workspace dir)

/-- What is left when the source is refused then. -/
def dropSource (as : Artifacts) (dir : Path) (ws : Workspace) (staged : Location) (ws' : Workspace) :
    Workspace :=
  ws'.dropStaged dir staged as.source.bytes
    (as.source.mode (ws.ensureDirectory dir).workspace dir)

variable {as : Artifacts} {dir : Path} {ws ws' : Workspace} {staged : Location}

theorem HeaderPlaced.of_ready {made : Workspace} (hready : ws.ensureDirectory dir = ⟨.ok (), made⟩)
    (hstaging : made.staging dir = .ok staged)
    (hplaced : made.place staged (as.header.path dir) as.header.bytes (as.header.mode made dir) =
      .ok ws') : as.HeaderPlaced dir ws staged ws' :=
  ⟨by rw [hready], by rw [hready, hstaging], by rw [hready, hplaced]⟩

theorem placeSource_of_ready {made : Workspace} (hready : ws.ensureDirectory dir = ⟨.ok (), made⟩) :
    as.placeSource dir ws staged ws' =
      ws'.placeStaged dir staged (as.source.path dir) as.source.bytes (as.source.mode made dir) := by
  rw [placeSource, hready]

/-- Until the header is in place, staged files are found where they were made. -/
theorem HeaderPlaced.placeStaged (h : as.HeaderPlaced dir ws staged ws') :
    (ws.ensureDirectory dir).workspace.placeStaged dir staged (as.header.path dir) as.header.bytes
      (as.header.mode (ws.ensureDirectory dir).workspace dir) = .ok ws' := by
  rw [Workspace.placeStaged_of_staging h.staging, h.placed]

theorem write_of_staging_error {made : Workspace} {e : IoError}
    (hready : ws.ensureDirectory dir = ⟨.ok (), made⟩) (hs : made.staging dir = .error e) :
    as.write dir ws = ⟨.error (.write (as.header.path dir) e), made, []⟩ := by
  simp [Artifacts.write, hready, hs]

/-- A header that is refused leaves nothing behind where staged files are found again. -/
theorem write_of_header_error {made : Workspace} {e : IoError}
    (hready : ws.ensureDirectory dir = ⟨.ok (), made⟩) (hstaging : made.staging dir = .ok staged)
    (hp : made.place staged (as.header.path dir) as.header.bytes (as.header.mode made dir) = .error e) :
    as.write dir ws = ⟨.error (.write (as.header.path dir) e), made, []⟩ := by
  simp [Artifacts.write, hready, hstaging, toList, placeAll, putAll,
    Workspace.placeStaged_of_staging hstaging, Workspace.dropStaged_of_staging hstaging, hp]

theorem write_of_placeSource_error {e : IoError} (h : as.HeaderPlaced dir ws staged ws')
    (hs : as.placeSource dir ws staged ws' = .error e) :
    as.write dir ws =
      ⟨.error (.write (as.source.path dir) e), as.dropSource dir ws staged ws',
        [.wrote (as.header.path dir)]⟩ := by
  unfold placeSource at hs
  simp [Artifacts.write, h.ready, h.staging, toList, placeAll, putAll, h.placeStaged, hs,
    Outcome.logFirst, dropSource]

theorem write_of_placeSource_ok {ws'' : Workspace} (h : as.HeaderPlaced dir ws staged ws')
    (hs : as.placeSource dir ws staged ws' = .ok ws'') :
    as.write dir ws =
      ⟨.ok (), ws'', [.wrote (as.header.path dir), .wrote (as.source.path dir)]⟩ := by
  unfold placeSource at hs
  simp [Artifacts.write, h.ready, h.staging, toList, placeAll, putAll, h.placeStaged, hs,
    Outcome.logFirst]

theorem path_render (records : List InterfaceRecord) (baseName : String) (dir : Path) :
    (render records baseName).header.path dir = dir.join (ArtifactKind.header.fileName baseName) ∧
      (render records baseName).source.path dir = dir.join (ArtifactKind.source.fileName baseName) :=
  ⟨rfl, rfl⟩

section Places

variable {made ws'' : Workspace} {p p' : Path} {m m' : Nat}

/-- A write whose directory is known once it is made, with the path and the mode of each file there. -/
theorem write_of_places
    (hready : ws.ensureDirectory dir = ⟨.ok (), made⟩) (hstaging : made.staging dir = .ok staged)
    (hstaging' : ws'.staging dir = .ok staged)
    (hheader : as.header.path dir = p ∧ (made.mode p).toOption.getD fileMode = m)
    (hsource : as.source.path dir = p' ∧ (made.mode p').toOption.getD fileMode = m')
    (hplaced : made.place staged p as.header.bytes m = .ok ws')
    (hplaced' : ws'.place staged p' as.source.bytes m' = .ok ws'') :
    as.write dir ws = ⟨.ok (), ws'', [.wrote p, .wrote p']⟩ := by
  obtain ⟨rfl, rfl⟩ := hheader
  obtain ⟨rfl, rfl⟩ := hsource
  rw [← Artifact.mode_eq_getD] at hplaced hplaced'
  refine write_of_placeSource_ok (.of_ready hready hstaging hplaced) ?_
  rw [placeSource_of_ready hready, Workspace.placeStaged_of_staging hstaging', hplaced']

/-- The same write where the source is refused. -/
theorem write_of_refused_source {e : IoError}
    (hready : ws.ensureDirectory dir = ⟨.ok (), made⟩) (hstaging : made.staging dir = .ok staged)
    (hstaging' : ws'.staging dir = .ok staged)
    (hheader : as.header.path dir = p ∧ (made.mode p).toOption.getD fileMode = m)
    (hsource : as.source.path dir = p' ∧ (made.mode p').toOption.getD fileMode = m')
    (hplaced : made.place staged p as.header.bytes m = .ok ws')
    (hrefused : ws'.place staged p' as.source.bytes m' = .error e) :
    as.write dir ws = ⟨.error (.write p' e), ws', [.wrote p]⟩ := by
  obtain ⟨rfl, rfl⟩ := hheader
  obtain ⟨rfl, rfl⟩ := hsource
  rw [← Artifact.mode_eq_getD] at hplaced hrefused
  have hsource : as.placeSource dir ws staged ws' = .error e := by
    rw [placeSource_of_ready hready, Workspace.placeStaged_of_staging hstaging', hrefused]
  have hdrop : as.dropSource dir ws staged ws' = ws' := Workspace.dropStaged_of_staging hstaging'
  rw [write_of_placeSource_error (.of_ready hready hstaging hplaced) hsource, hdrop]

end Places

/-- A write fails before it replaces a file, or it replaces the header and goes on to the source. -/
theorem write_cases (as : Artifacts) (dir : Path) (ws : Workspace) :
    (∃ staged ws', as.HeaderPlaced dir ws staged ws') ∨
      (∃ e, (as.write dir ws).result = .error e) ∧
        (as.write dir ws).workspace = (ws.ensureDirectory dir).workspace := by
  cases hready : ws.ensureDirectory dir with
  | mk result made =>
  cases result with
  | error e =>
    refine Or.inr ?_
    simp [Artifacts.write, hready]
  | ok done =>
    cases hs : made.staging dir with
    | error e =>
      refine Or.inr ?_
      simp [write_of_staging_error hready hs]
    | ok staged =>
      cases hp : made.place staged (as.header.path dir) as.header.bytes (as.header.mode made dir) with
      | error e =>
        refine Or.inr ?_
        simp [write_of_header_error hready hs hp]
      | ok ws' => exact Or.inl ⟨staged, ws', .of_ready hready hs hp⟩

/-- A write that succeeds has replaced the header and then the source. -/
theorem exists_placed_of_write_ok (h : (as.write dir ws).result = .ok ()) :
    ∃ staged ws' ws'', as.HeaderPlaced dir ws staged ws' ∧
      ws'.place staged (as.source.path dir) as.source.bytes
        (as.source.mode (ws.ensureDirectory dir).workspace dir) = .ok ws'' ∧
      (as.write dir ws).workspace = ws'' := by
  cases as.write_cases dir ws with
  | inr herror =>
    obtain ⟨⟨e, he⟩, _⟩ := herror
    rw [h] at he
    cases he
  | inl hplaced =>
    obtain ⟨staged, ws', hplaced⟩ := hplaced
    cases hs : as.placeSource dir ws staged ws' with
    | error e =>
      rw [write_of_placeSource_error hplaced hs] at h
      cases h
    | ok ws'' =>
      exact ⟨staged, ws', ws'', hplaced, Workspace.place_of_placeStaged hs,
        by rw [write_of_placeSource_ok hplaced hs]⟩

end Artifacts

end InterfaceTables
