import InterfaceTables.Proofs.CheckAndWrite

/-!
What a run can change, whatever comes of it. Without documents to write it changes nothing; a write
makes directories on the way to its own and then puts the header and the source in their places.
-/

namespace InterfaceTables

namespace Workspace

variable {ws ws' ws'' : Workspace} {start loc : Location} {steps moves attempt above : List String}

/-! ## Directories on the way -/

/-- The first of the moves lead to a place. -/
def Passes (ws : Workspace) (start : Location) (moves : List String) (loc : Location) : Prop :=
  ∃ front, front <+: moves ∧
    ws.tree.Leads .followed FileTree.maxLinks start front (.entry loc)

/-- What differs are new directories that the moves pass. -/
def GrowsAlong (start : Location) (moves : List String) (ws ws' : Workspace) : Prop :=
  ∀ loc, ws'.tree.get? loc = ws.tree.get? loc ∨
    (ws.tree.get? loc = none ∧ ws'.tree.get? loc = some (.directory (ws.masked 0o777)) ∧
      ws'.Passes start moves loc)

theorem GrowsAlong.refl (ws : Workspace) : GrowsAlong start moves ws ws := fun _ => Or.inl rfl

theorem masked_eq (h : ws'.umask = ws.umask) (mode : Nat) : ws'.masked mode = ws.masked mode := by
  rw [masked, masked, h]

theorem GrowsAlong.trans (h : GrowsAlong start moves ws ws') (h' : GrowsAlong start moves ws' ws'')
    (hu : ws'.umask = ws.umask) (hk : ws'.tree.Keeps ws''.tree) : GrowsAlong start moves ws ws'' := by
  intro loc
  cases h loc with
  | inl hsame =>
    cases h' loc with
    | inl hsame' => exact Or.inl (hsame'.trans hsame)
    | inr hnew => exact Or.inr ⟨hsame ▸ hnew.1, masked_eq hu _ ▸ hnew.2⟩
  | inr hnew =>
    obtain ⟨hnone, hdir, front, hfront, hleads⟩ := hnew
    exact Or.inr ⟨hnone, hk.directory hdir, front, hfront, hk.leads hleads⟩

/-- Steps that are some of the moves, with idle ones among them that do not come last as slashes. -/
structure Fronts (moves attempt : List String) : Prop where
  tidies : ∃ front, front <+: moves ∧ Path.Tidies attempt front
  last : attempt.getLast? ≠ some ""

theorem growsAlong_ensureDirectoryAt (ws : Workspace) (h : Fronts moves attempt) :
    GrowsAlong start moves ws (ws.ensureDirectoryAt start attempt).workspace := by
  unfold ensureDirectoryAt
  split
  case h_2 e hmake => split <;> exact .refl ws
  case h_1 ws' hmake =>
    have hkeeps := (grows_makeDirectoryAt hmake).tree.keeps
    unfold makeDirectoryAt at hmake
    split at hmake
    case h_3 dir name hr =>
      obtain ⟨_, rfl⟩ := add_eq_ok hmake
      have hleads := FileTree.leads_of_resolveFrom hr
      have hnew := FileTree.get?_insert_self ws.tree (name :: dir) (.directory (ws.masked 0o777)) (by simp)
      obtain ⟨front, hfront, htidies⟩ := h.tidies
      intro loc
      by_cases hloc : loc = name :: dir
      · subst hloc
        have hmade := hkeeps.leads_made hleads h.last hnew (by simp)
        have hnolink : ∀ target, (ws.insert (name :: dir) (.directory (ws.masked 0o777))).tree.get?
            (name :: dir) ≠ some (.link target) := by
          intro target hlink
          cases hnew.symm.trans hlink
        exact Or.inr ⟨hleads.missing.1, hnew, front, hfront, (hmade.followed hnolink).tidy htidies⟩
      · exact Or.inl (FileTree.get?_insert_of_ne ws.tree _ hloc)
    all_goals cases hmake

theorem growsAlong_ensureChain (ws : Workspace) (hattempt : Fronts moves attempt)
    (habove : above.reverse <+: moves) (hblank : "" ∉ moves) :
    GrowsAlong start moves ws (ws.ensureChain start attempt above).workspace := by
  induction above generalizing attempt with
  | nil => exact growsAlong_ensureDirectoryAt ws hattempt
  | cons name above ih =>
    -- The directories above are tried at a shorter front of the moves.
    have hfront : Fronts moves (name :: above).reverse := by
      refine ⟨⟨_, habove, .refl _⟩, fun hlast => hblank ?_⟩
      exact habove.subset (List.mem_of_getLast? hlast)
    have hshorter : above.reverse <+: moves := by
      rw [List.reverse_cons] at habove
      exact (List.prefix_append _ _).trans habove
    have hparent := ih hfront hshorter
    simp only [ensureChain]
    split
    · split
      · exact hparent.trans (growsAlong_ensureDirectoryAt _ hattempt) (grows_ensureChain ws start _ _).umask
          (grows_ensureDirectoryAt _ start attempt).tree.keeps
      · exact hparent
    · exact growsAlong_ensureDirectoryAt ws hattempt

/-- All directories that are made are on the way to the last. -/
theorem growsAlong_ensureDirectory (ws : Workspace) (p : Path) :
    GrowsAlong (ws.start p) p.moves ws (ws.ensureDirectory p).workspace := by
  have hblank : "" ∉ p.moves := fun hmem => by
    have hidle := (List.mem_filter.mp hmem).2
    cases hidle
  unfold ensureDirectory
  split
  · exact .refl ws
  · split
    · exact .refl ws
    · refine growsAlong_ensureChain ws ⟨⟨p.moves, List.prefix_refl _, ?_⟩, ?_⟩ ?_ hblank
      · split
        · have hdot : Path.Tidies ["."] [] := .drop rfl .nil
          simpa using (Path.Tidies.refl p.moves).append hdot
        · exact .refl p.moves
      · split
        · simp
        · exact fun hlast => hblank (List.mem_of_getLast? hlast)
      · rw [List.tail_reverse, List.reverse_reverse]
        exact List.dropLast_prefix _

/-! ## Staged files are removed -/

variable {p dir : Path} {spot made : Location} {contents : ByteArray} {mode : Nat}

/-- With a new file elsewhere, a place that a path names is the one that it named before. -/
theorem Spot.before_insert (h : (ws.insert spot (.file contents mode)).Spot p loc) (hs : spot ≠ [])
    (hne : loc ≠ spot) : ws.Spot p loc := by
  obtain ⟨goal, hr, rfl⟩ := h
  obtain ⟨hf, hleads⟩ := resolve_eq_ok_iff.mp hr
  have hbefore := hleads.before_file (FileTree.get?_insert_self ws.tree spot _ hs)
    (fun l hl => FileTree.get?_insert_of_ne ws.tree _ hl) fun he => hne (by rw [he]; rfl)
  exact ⟨goal, resolve_eq_ok_iff.mpr ⟨hf, hbefore⟩, rfl⟩

theorem Spot.leaf {leaf : String} (h : ws.Spot p loc) (hp : p.EndsIn leaf) : ∃ d, loc = leaf :: d := by
  obtain ⟨goal, hr, rfl⟩ := h
  have hn := hp.name
  obtain ⟨d, _, hgoal⟩ :=
    (resolve_eq_ok_iff.mp hr).2.at_leaf ⟨hn.ne_empty, hn.ne_dot, hn.ne_up⟩ hp.last
  cases hgoal with
  | inl hg => exact ⟨d, by rw [hg.1]; rfl⟩
  | inr hg => exact ⟨d, by rw [hg.1]; rfl⟩

/-- If the path of the directory still leads there, the staged file was found and removed. -/
theorem dropStaged_eq_self (h : (ws.dropStaged dir made contents mode).staging dir = .ok made) :
    ws.dropStaged dir made contents mode = ws := by
  cases ws.dropStaged_cases dir made contents mode with
  | inl hsame => exact hsame
  | inr hleft =>
    rw [hleft] at h
    have hne : made ≠ ws.tree.spareName made :: made := (List.cons_ne_self _ _).symm
    obtain ⟨hreach, m, hstat, hchange⟩ := staging_eq_ok_iff_stat.mp h
    obtain ⟨hr, hm⟩ := entry_eq_ok_iff.mp hstat
    obtain ⟨hf, hleads⟩ := resolve_eq_ok_iff.mp hr
    have hbefore := hleads.before_file
      (FileTree.get?_insert_self ws.tree (ws.tree.spareName made :: made) _ (by simp))
      (fun l hl => FileTree.get?_insert_of_ne ws.tree _ hl) fun he => hne (Target.entry.inj he)
    rw [insert, FileTree.get?_insert_of_ne _ _ hne] at hm
    rw [mayChange_insert _ hne] at hchange
    have hsolid : ¬ ws.tree.IsDirectory (ws.tree.spareName made :: made) := by
      rintro ⟨m', hm'⟩
      cases (ws.tree.get?_spareName made).symm.trans hm'
    rw [outOfReach?_insert_file (by simp) hsolid] at hreach
    exact dropStaged_of_staging (staging_eq_ok_iff_stat.mpr
      ⟨hreach, m, entry_eq_ok_iff.mpr ⟨resolve_eq_ok_iff.mpr ⟨hf, hbefore⟩, hm⟩, hchange⟩)

end Workspace

namespace Artifacts

variable {as : Artifacts} {dir : Path} {ws made after : Workspace} {stem : String}
  {result : Except RunError Unit}

/-! ## How far a write comes -/

/-- What the header becomes where it is placed. -/
def headerEntry (as : Artifacts) (dir : Path) (made : Workspace) : Entry :=
  .file as.header.bytes (as.header.mode made dir)

def sourceEntry (as : Artifacts) (dir : Path) (made : Workspace) : Entry :=
  .file as.source.bytes (as.source.mode made dir)

/-- How a write can end once it has made directories: with no file in place, with the header in place,
or with both. It succeeds in the last case only. -/
inductive Ends (as : Artifacts) (dir : Path) (stem : String) (made : Workspace) :
    Except RunError Unit → Workspace → Prop where
  | before (e : RunError) : Ends as dir stem made (.error e) made
  | between {d : Location} (e : RunError)
      (spot : made.Spot (as.header.path dir) (ArtifactKind.header.fileName stem :: d))
      (solid : ¬ made.tree.IsDirectory (ArtifactKind.header.fileName stem :: d)) :
      Ends as dir stem made (.error e)
        (made.insert (ArtifactKind.header.fileName stem :: d) (as.headerEntry dir made))
  | after {d d' : Location}
      (spot : made.Spot (as.header.path dir) (ArtifactKind.header.fileName stem :: d))
      (solid : ¬ made.tree.IsDirectory (ArtifactKind.header.fileName stem :: d))
      (spot' : made.Spot (as.source.path dir) (ArtifactKind.source.fileName stem :: d'))
      (solid' : ¬ made.tree.IsDirectory (ArtifactKind.source.fileName stem :: d')) :
      Ends as dir stem made (.ok ())
        ((made.insert (ArtifactKind.header.fileName stem :: d) (as.headerEntry dir made)).insert
          (ArtifactKind.source.fileName stem :: d') (as.sourceEntry dir made))

/-- Where the header takes the place of a link, the path of the directory still leads there. -/
def NotCutOff (as : Artifacts) (dir : Path) (made after : Workspace) : Prop :=
  (∃ target, made.holding (as.header.path dir) = some (.link target)) →
    after.staging dir = made.staging dir

theorem dropSource_eq_self {staged : Location} {ws' : Workspace} (hn : as.Named dir stem)
    (hplaced : as.HeaderPlaced dir ws staged ws')
    (hcut : as.NotCutOff dir (ws.ensureDirectory dir).workspace (as.dropSource dir ws staged ws')) :
    as.dropSource dir ws staged ws' = ws' := by
  by_cases hlink : ∃ target, (ws.ensureDirectory dir).workspace.holding (as.header.path dir) =
      some (.link target)
  · exact Workspace.dropStaged_eq_self ((hcut hlink).trans hplaced.staging)
  · obtain ⟨hkeeps, hdir⟩ := Workspace.keeps_of_place hn.header hplaced.placed (not_exists.mp hlink)
    exact Workspace.dropStaged_of_staging (Workspace.staging_of_keeps hkeeps hdir hplaced.staging)

theorem ends_of_place {staged : Location} {ws' ws'' : Workspace} (hn : as.Named dir stem)
    (hplaced : as.HeaderPlaced dir ws staged ws')
    (h : ws'.place staged (as.source.path dir) as.source.bytes
      (as.source.mode (ws.ensureDirectory dir).workspace dir) = .ok ws'') :
    as.Ends dir stem (ws.ensureDirectory dir).workspace (.ok ()) ws'' := by
  obtain ⟨d, hspot, hsolid, _, _, rfl⟩ := (Workspace.place_eq_ok_iff hn.header).mp hplaced.placed
  obtain ⟨d', hspot', hsolid', _, _, rfl⟩ := (Workspace.place_eq_ok_iff hn.source).mp h
  have hapart := source_cons_ne_header_cons stem d' d
  refine .after hspot hsolid (hspot'.before_insert (by simp) hapart) ?_
  rintro ⟨m, hm⟩
  exact hsolid' ⟨m, by rw [Workspace.insert, FileTree.get?_insert_of_ne _ _ hapart, hm]⟩

theorem ends_of_write_ok (hn : as.Named dir stem) (h : (as.write dir ws).result = .ok ()) :
    as.Ends dir stem (ws.ensureDirectory dir).workspace (.ok ()) (as.write dir ws).workspace := by
  obtain ⟨staged, ws', ws'', hplaced, hsource, hdone⟩ := exists_placed_of_write_ok h
  rw [hdone]
  exact ends_of_place hn hplaced hsource

theorem write_ends (hn : as.Named dir stem)
    (hcut : as.NotCutOff dir (ws.ensureDirectory dir).workspace (as.write dir ws).workspace) :
    as.Ends dir stem (ws.ensureDirectory dir).workspace (as.write dir ws).result
      (as.write dir ws).workspace := by
  cases as.write_cases dir ws with
  | inr hbefore =>
    obtain ⟨⟨e, he⟩, hsame⟩ := hbefore
    rw [he, hsame]
    exact .before e
  | inl hplaced =>
    obtain ⟨staged, ws', hplaced⟩ := hplaced
    cases hsource : as.placeSource dir ws staged ws' with
    | error e =>
      obtain ⟨d, hspot, hsolid, _, _, hws'⟩ := (Workspace.place_eq_ok_iff hn.header).mp hplaced.placed
      rw [write_of_placeSource_error hplaced hsource] at hcut ⊢
      rw [dropSource_eq_self hn hplaced hcut, hws']
      exact .between _ hspot hsolid
    | ok ws'' =>
      rw [write_of_placeSource_ok hplaced hsource]
      exact ends_of_place hn hplaced (Workspace.place_of_placeStaged hsource)

theorem Ends.workingDir (h : as.Ends dir stem made result after) :
    after.workingDir = made.workingDir := by
  cases h <;> rfl

/-- Apart from files that are complete, all entries are what they were. -/
theorem Ends.get? (h : as.Ends dir stem made result after) (loc : Location) :
    after.tree.get? loc = made.tree.get? loc ∨
      ∃ a ∈ as.toList, made.Spot (a.path dir) loc ∧
        after.tree.get? loc = some (.file a.bytes (a.mode made dir)) := by
  have hheader : as.header ∈ as.toList := by simp [toList]
  have hsource : as.source ∈ as.toList := by simp [toList]
  cases h with
  | before e => exact Or.inl rfl
  | @between d e spot solid =>
    by_cases hh : loc = ArtifactKind.header.fileName stem :: d
    · subst hh
      exact Or.inr ⟨_, hheader, spot, FileTree.get?_insert_self _ _ _ (by simp)⟩
    · exact Or.inl (FileTree.get?_insert_of_ne _ _ hh)
  | @after d d' spot solid spot' solid' =>
    by_cases hs : loc = ArtifactKind.source.fileName stem :: d'
    · subst hs
      exact Or.inr ⟨_, hsource, spot', FileTree.get?_insert_self _ _ _ (by simp)⟩
    · have hrest := FileTree.get?_insert_of_ne (made.insert (ArtifactKind.header.fileName stem :: d)
        (as.headerEntry dir made)).tree (as.sourceEntry dir made) hs
      by_cases hh : loc = ArtifactKind.header.fileName stem :: d
      · subst hh
        exact Or.inr ⟨_, hheader, spot, hrest.trans (FileTree.get?_insert_self _ _ _ (by simp))⟩
      · exact Or.inl (hrest.trans (FileTree.get?_insert_of_ne _ _ hh))

theorem get?_header_of_both (as : Artifacts) (dir : Path) (made : Workspace) (stem : String)
    (d d' : Location) :
    (((made.insert (ArtifactKind.header.fileName stem :: d) (as.headerEntry dir made)).insert
        (ArtifactKind.source.fileName stem :: d') (as.sourceEntry dir made)).tree.get?
      (ArtifactKind.header.fileName stem :: d)) = some (as.headerEntry dir made) := by
  rw [Workspace.insert, FileTree.get?_insert_of_ne _ _ (source_cons_ne_header_cons stem d' d).symm]
  exact FileTree.get?_insert_self _ _ _ (by simp)

/-- Nothing is replaced before the header. -/
theorem Ends.header_first (h : as.Ends dir stem made result after) {loc loc' : Location}
    (hheader : made.Spot (as.header.path dir) loc)
    (hchanged : after.tree.get? loc' ≠ made.tree.get? loc') :
    after.tree.get? loc = some (as.headerEntry dir made) := by
  cases h with
  | before e => exact absurd rfl hchanged
  | between e spot solid =>
    rw [hheader.unique spot]
    exact FileTree.get?_insert_self _ _ _ (by simp)
  | after spot solid spot' solid' =>
    rw [hheader.unique spot]
    exact as.get?_header_of_both dir made stem _ _

/-- A write that succeeds has put both files in place. -/
theorem Ends.both (h : as.Ends dir stem made (.ok ()) after) :
    ∀ a ∈ as.toList, ∃ loc, made.Spot (a.path dir) loc ∧
      after.tree.get? loc = some (.file a.bytes (a.mode made dir)) := by
  cases h with
  | after spot solid spot' solid' =>
    exact forall_mem_toList.mpr ⟨⟨_, spot, as.get?_header_of_both dir made stem _ _⟩,
      ⟨_, spot', FileTree.get?_insert_self _ _ _ (by simp)⟩⟩

/-! ## What the paths of the files hold -/

theorem Named.eq_of_spot (hn : as.Named dir stem) {a a' : Artifact} (ha : a ∈ as.toList)
    (ha' : a' ∈ as.toList) {loc : Location} (h : made.Spot (a.path dir) loc)
    (h' : made.Spot (a'.path dir) loc) : a = a' := by
  rw [toList, List.mem_pair] at ha ha'
  obtain rfl | rfl := ha
  · obtain rfl | rfl := ha'
    · rfl
    · obtain ⟨d, rfl⟩ := h.leaf hn.header
      obtain ⟨d', he⟩ := h'.leaf hn.source
      exact absurd he.symm (source_cons_ne_header_cons stem d' d)
  · obtain rfl | rfl := ha'
    · obtain ⟨d, rfl⟩ := h.leaf hn.source
      obtain ⟨d', he⟩ := h'.leaf hn.header
      exact absurd he (source_cons_ne_header_cons stem d d')
    · rfl

/-- The paths of the files name no other places than before. -/
theorem Ends.spot_before (hn : as.Named dir stem) (h : as.Ends dir stem made result after) :
    ∀ a ∈ as.toList, ∀ loc, after.Spot (a.path dir) loc → made.Spot (a.path dir) loc := by
  cases h with
  | before e => exact fun _ _ _ hspot => hspot
  | @between d e spot solid =>
    refine forall_mem_toList.mpr ⟨fun loc hloc => ?_, fun loc hloc => ?_⟩
    · by_cases hh : loc = ArtifactKind.header.fileName stem :: d
      · exact hh ▸ spot
      · exact hloc.before_insert (by simp) hh
    · obtain ⟨d', rfl⟩ := hloc.leaf hn.source
      exact hloc.before_insert (by simp) (source_cons_ne_header_cons stem d' d)
  | @after d d' spot solid spot' solid' =>
    refine forall_mem_toList.mpr ⟨fun loc hloc => ?_, fun loc hloc => ?_⟩
    · obtain ⟨l, rfl⟩ := hloc.leaf hn.header
      have hloc' := hloc.before_insert (by simp) (source_cons_ne_header_cons stem d' l).symm
      by_cases hh : ArtifactKind.header.fileName stem :: l = ArtifactKind.header.fileName stem :: d
      · exact hh ▸ spot
      · exact hloc'.before_insert (by simp) hh
    · by_cases hs : loc = ArtifactKind.source.fileName stem :: d'
      · exact hs ▸ spot'
      · obtain ⟨l, rfl⟩ := hloc.leaf hn.source
        have hloc' := hloc.before_insert (by simp) hs
        exact hloc'.before_insert (by simp) (source_cons_ne_header_cons stem l d)

theorem Ends.keeps (h : as.Ends dir stem made result after)
    (hlink : ∀ a ∈ as.toList, ∀ target, made.holding (a.path dir) ≠ some (.link target)) :
    made.tree.Keeps after.tree := by
  obtain ⟨hheader, hsource⟩ := forall_mem_toList.mp hlink
  cases h with
  | before e => exact .refl _
  | between e spot solid =>
    rw [spot.holding] at hheader
    exact FileTree.keeps_insert_file (by simp) solid hheader
  | @after d d' spot solid spot' solid' =>
    rw [spot.holding] at hheader
    rw [spot'.holding] at hsource
    have hsame := FileTree.get?_insert_of_ne made.tree (as.headerEntry dir made)
      (source_cons_ne_header_cons stem d' d)
    refine (FileTree.keeps_insert_file (by simp) solid hheader).trans
      (FileTree.keeps_insert_file (by simp) ?_ ?_)
    · rintro ⟨m, hm⟩
      exact solid' ⟨m, hsame.symm.trans hm⟩
    · intro target ht
      exact hsource target (hsame.symm.trans ht)

/-- Where no link is replaced, the path of a file holds what it held or the complete file. -/
theorem Ends.holding (hn : as.Named dir stem) (h : as.Ends dir stem made result after)
    (hlink : ∀ a ∈ as.toList, ∀ target, made.holding (a.path dir) ≠ some (.link target))
    {a : Artifact} (ha : a ∈ as.toList) :
    after.holding (a.path dir) = made.holding (a.path dir) ∨
      after.holding (a.path dir) = some (.file a.bytes (a.mode made dir)) := by
  by_cases hspot : ∃ loc, after.Spot (a.path dir) loc
  · obtain ⟨loc, hspot⟩ := hspot
    have hbefore := h.spot_before hn a ha loc hspot
    rw [hspot.holding, hbefore.holding]
    cases h.get? loc with
    | inl hsame => exact Or.inl hsame
    | inr hnew =>
      obtain ⟨a', ha', hspot', hfile⟩ := hnew
      cases hn.eq_of_spot ha ha' hbefore hspot'
      exact Or.inr hfile
  · -- A path that leads nowhere afterwards led nowhere before.
    refine Or.inl ?_
    cases hbefore : made.holding (a.path dir) with
    | none =>
      cases hafter : after.holding (a.path dir) with
      | none => rfl
      | some e =>
        obtain ⟨loc, hr, _⟩ := Workspace.holding_eq_some_iff.mp hafter
        exact absurd ⟨loc, _, hr, rfl⟩ hspot
    | some e =>
      obtain ⟨loc, hr, _⟩ := Workspace.holding_eq_some_iff.mp hbefore
      exact absurd ⟨loc, _, Workspace.resolve_of_keeps (h.keeps hlink) h.workingDir hr, rfl⟩ hspot

end Artifacts

namespace RunOptions

/-- The workspace with the output directory, or with as much of the way there as can be made. -/
def made (o : RunOptions) (ws : Workspace) : Workspace := (ws.ensureDirectory o.outputDir).workspace

/-- What a run that writes files can change. -/
structure Framed (o : RunOptions) (as : Artifacts) (ws : Workspace) (done : Outcome Report) :
    Prop where
  /-- An entry is what it was, a new directory on the way to the output directory, or one of the files
  in its place, and then complete. -/
  entries : ∀ loc, done.workspace.tree.get? loc = ws.tree.get? loc ∨
    (ws.tree.get? loc = none ∧ done.workspace.tree.get? loc = some (.directory (ws.masked 0o777)) ∧
      (o.made ws).Passes (ws.start o.outputDir) o.outputDir.moves loc) ∨
    ∃ a ∈ as.toList, (o.made ws).Spot (a.path o.outputDir) loc ∧
      done.workspace.tree.get? loc = some (.file a.bytes (a.mode (o.made ws) o.outputDir))
  /-- If anything is new besides directories, the header is. -/
  header_first : ∀ loc loc', (o.made ws).Spot (as.header.path o.outputDir) loc →
    done.workspace.tree.get? loc' ≠ (o.made ws).tree.get? loc' →
    done.workspace.tree.get? loc =
      some (.file as.header.bytes (as.header.mode (o.made ws) o.outputDir))
  /-- The paths of the files hold what they held or the files, if they held no links. -/
  holding : (∀ a ∈ as.toList, ∀ target,
      (o.made ws).holding (a.path o.outputDir) ≠ some (.link target)) →
    ∀ a ∈ as.toList,
      done.workspace.holding (a.path o.outputDir) = (o.made ws).holding (a.path o.outputDir) ∨
      done.workspace.holding (a.path o.outputDir) =
        some (.file a.bytes (a.mode (o.made ws) o.outputDir))
  /-- After a success both files are new. -/
  both : ∀ r, done.result = .ok r → ∀ a ∈ as.toList, ∃ loc,
    (o.made ws).Spot (a.path o.outputDir) loc ∧
      done.workspace.tree.get? loc = some (.file a.bytes (a.mode (o.made ws) o.outputDir))
  workingDir : done.workspace.workingDir = ws.workingDir

variable {o : RunOptions} {ws : Workspace}

theorem workspace_run_of_prepare_error {e : RunError} (h : o.prepare ws = .error e) :
    (run o ws).workspace = ws := by
  simp [run, h]

theorem framed_of_ends {as : Artifacts} {count : Nat} {stem : String} (hm : o.mode = .write)
    (hp : o.prepare ws = .ok (count, as)) (hn : as.Named o.outputDir stem)
    (h : as.Ends o.outputDir stem (o.made ws) (as.write o.outputDir ws).result
      (run o ws).workspace) : o.Framed as ws (run o ws) where
  entries loc := by
    cases h.get? loc with
    | inr hnew => exact Or.inr (Or.inr hnew)
    | inl hsame =>
      rw [hsame]
      cases ws.growsAlong_ensureDirectory o.outputDir loc with
      | inl hold => exact Or.inl hold
      | inr hnew => exact Or.inr (Or.inl hnew)
  header_first _ _ hspot hchanged := h.header_first hspot hchanged
  holding hlink _ ha := h.holding hn hlink ha
  both r hr := by
    obtain ⟨hdone, _⟩ := (run_eq_ok_iff hp).mp hr
    simp only [emit, hm] at hdone
    rw [hdone] at h
    exact h.both
  workingDir := h.workingDir.trans (ws.grows_ensureDirectory o.outputDir).workingDir

/-- A run that checks, or that finds no documents to write, changes nothing. Any other run keeps to its
frame, unless it fails after it has cut off its own output directory by putting the header in the place
of a link. -/
theorem run_keeps_to_frame (o : RunOptions) (ws : Workspace) :
    ((o.mode = .check ∨ (∃ e, ws.loadDirectory o.schemaDir o.load = .error e) ∨
        ∃ documents clash, ws.loadDirectory o.schemaDir o.load = .ok documents ∧
          Collision.find? (documents.map Document.record) = some clash) →
      (run o ws).workspace = ws) ∧
    ∀ documents as, o.mode = .write → ws.loadDirectory o.schemaDir o.load = .ok documents →
      Collision.find? (documents.map Document.record) = none →
      as = render (documents.map Document.record) o.baseName →
      ((∃ e, (run o ws).result = .error e) →
        as.NotCutOff o.outputDir (o.made ws) (run o ws).workspace) →
      o.Framed as ws (run o ws) := by
  constructor
  · rintro (hcheck | ⟨e, hload⟩ | ⟨documents, clash, hload, hclash⟩)
    · cases hp : o.prepare ws with
      | error e => exact workspace_run_of_prepare_error hp
      | ok prepared =>
        rw [workspace_run hp, emit, hcheck]
        exact prepared.2.check_workspace o.outputDir ws
    · exact workspace_run_of_prepare_error (e := .schema e) (by simp [prepare, hload])
    · exact workspace_run_of_prepare_error (e := .collision clash)
        (by simp [prepare, hload, compile, hclash])
  · rintro documents as hm hload hclash rfl hcut
    have hp := prepare_of_load hload hclash
    obtain ⟨stem, hn⟩ := exists_named_of_prepare hp
    refine framed_of_ends hm hp hn ?_
    rw [workspace_write hm hp]
    cases hresult : ((render (documents.map Document.record) o.baseName).write o.outputDir ws).result with
    | ok done => exact Artifacts.ends_of_write_ok hn hresult
    | error e =>
      have hrun : (run o ws).result = .error e := by
        simp only [run, hp, emit, hm, hresult]
      have hcut' := hcut ⟨e, hrun⟩
      rw [workspace_write hm hp] at hcut'
      exact hresult ▸ Artifacts.write_ends hn hcut'

end RunOptions

/-- A directory `d` with the document of one mapping, and a directory `o` with a link in the place of
`t.h` and a directory in that of `t.c`. -/
def linkedHeader : Workspace where
  tree := ((((FileTree.empty.insert ["d"] (.directory directoryMode)).insert ["a.json", "d"]
    (.file (OneMapping.text "n" "/v").toUTF8 fileMode)).insert ["o"] (.directory directoryMode)).insert
    ["t.c", "o"] (.directory directoryMode)).insert ["t.h", "o"] (.link "x")
  workingDir := []

def intoLinkedHeader : RunOptions := ⟨"d", "o", "t", .write, ⟨"json", true⟩⟩

theorem discover_linkedHeader : linkedHeader.discover "d" "json" = .ok ["d/a.json"] := by
  have hdir : linkedHeader.stat "d" = .ok (["d"], .directory directoryMode) := rfl
  have hnames : linkedHeader.tree.names ["d"] = ["a.json"] := rfl
  exact Workspace.discover_of_names hdir (by decide) hnames (by decide) "json"

/-- The source is refused when the header is in place, and is removed from where it was staged. -/
theorem write_linkedHeader (records : List InterfaceRecord) :
    (render records "t").write "o" linkedHeader =
      ⟨.error (.write "o/t.c" .isDirectory),
        linkedHeader.insert ["t.h", "o"] (.file (render records "t").header.bytes fileMode),
        [.wrote "o/t.h"]⟩ := by
  have hready : linkedHeader.ensureDirectory "o" = ⟨.ok (), linkedHeader⟩ := rfl
  have hstaging : linkedHeader.staging "o" = .ok ["o"] := Workspace.staging_of_root rfl rfl rfl rfl
  have hstaging' : ∀ e, (linkedHeader.insert ["t.h", "o"] e).staging "o" = .ok ["o"] :=
    fun _ => Workspace.staging_of_root rfl rfl rfl rfl
  obtain ⟨hheader, hsource⟩ := Artifacts.path_render records "t" "o"
  exact Artifacts.write_of_refused_source hready hstaging (hstaging' _) ⟨hheader, rfl⟩ ⟨hsource, rfl⟩
    rfl rfl

/-- The document is loaded, the header takes the place of a link, the source is refused, and no staged
file is left. -/
theorem linkedHeader_framed :
    (intoLinkedHeader.made linkedHeader).holding "o/t.h" = some (.link "x") ∧
    (run intoLinkedHeader linkedHeader).result = .error (.write "o/t.c" .isDirectory) ∧
    (run intoLinkedHeader linkedHeader).workspace.holding "o/t.h" =
      some (.file (render [oneRecord "d/a.json"] "t").header.bytes fileMode) ∧
    intoLinkedHeader.Framed (render [oneRecord "d/a.json"] "t") linkedHeader
      (run intoLinkedHeader linkedHeader) := by
  have hload : linkedHeader.loadDirectory "d" intoLinkedHeader.load =
      .ok [{ oneMapping "n" "/v" with source := "d/a.json" }] :=
    Workspace.loadDirectory_oneMapping discover_linkedHeader rfl (by decide) rfl
  have hp : intoLinkedHeader.prepare linkedHeader = .ok (1, render [oneRecord "d/a.json"] "t") :=
    RunOptions.prepare_of_load (o := intoLinkedHeader) hload (find?_oneRecord _)
  have hworkspace : (run intoLinkedHeader linkedHeader).workspace = linkedHeader.insert ["t.h", "o"]
      (.file (render [oneRecord "d/a.json"] "t").header.bytes fileMode) := by
    rw [workspace_write (o := intoLinkedHeader) rfl hp]
    exact congrArg Outcome.workspace (write_linkedHeader _)
  have hresult : (run intoLinkedHeader linkedHeader).result = .error (.write "o/t.c" .isDirectory) :=
    RunOptions.result_write (o := intoLinkedHeader) hp (congrArg Outcome.result (write_linkedHeader _))
  have hstaging : (intoLinkedHeader.made linkedHeader).staging "o" = .ok ["o"] :=
    Workspace.staging_of_root rfl rfl rfl rfl
  have hstaging' : ∀ e, (linkedHeader.insert ["t.h", "o"] e).staging "o" = .ok ["o"] :=
    fun _ => Workspace.staging_of_root rfl rfl rfl rfl
  refine ⟨rfl, hresult, by rw [hworkspace]; rfl, ?_⟩
  refine (RunOptions.run_keeps_to_frame intoLinkedHeader linkedHeader).2 _ _ rfl hload (find?_oneRecord _)
    rfl fun _ _ => ?_
  rw [hworkspace]
  exact (hstaging' _).trans hstaging.symm

/-- A directory `d` with one document and nothing else. -/
def lonelyDocument (name : String) : Workspace where
  tree := (FileTree.empty.insert ["d"] (.directory directoryMode)).insert [name, "d"]
    (.file (OneMapping.text "n" "/v").toUTF8 fileMode)
  workingDir := []

theorem wellFormed_lonelyDocument {name : String} (hn : Path.IsEntryName name) :
    (lonelyDocument name).tree.WellFormed := by
  have hdir : (FileTree.empty.insert ["d"] (.directory directoryMode)).WellFormed :=
    FileTree.wellFormed_empty.insert_new ⟨_, rfl⟩ (by decide) rfl
  refine hdir.insert_new ⟨_, rfl⟩ hn ?_
  rw [FileTree.get?_insert_of_ne _ _ (by simp)]
  rfl

theorem linkFree_lonelyDocument (name : String) : (lonelyDocument name).tree.LinkFree := by
  have hdir : (FileTree.empty.insert ["d"] (.directory directoryMode)).LinkFree :=
    FileTree.LinkFree.of_gains (by rintro (_ | ⟨name, dir⟩) target ⟨⟩) (FileTree.gains_insert rfl _)
  exact hdir.insert_file (by simp)

theorem loadDirectory_lonelyDocument :
    (lonelyDocument "a.json").loadDirectory "d" ⟨"json", true⟩ =
      .ok [{ oneMapping "n" "/v" with source := "d/a.json" }] := by
  have hdir : (lonelyDocument "a.json").stat "d" = .ok (["d"], .directory directoryMode) := rfl
  have hnames : (lonelyDocument "a.json").tree.names ["d"] = ["a.json"] := rfl
  have hfound : (lonelyDocument "a.json").discover "d" "json" = .ok ["d/a.json"] :=
    Workspace.discover_of_names hdir (by decide) hnames (by decide) "json"
  exact Workspace.loadDirectory_oneMapping hfound rfl (by decide) rfl

theorem RunOptions.prepare_lonelyDocument {o : RunOptions} (hd : o.schemaDir = "d")
    (hl : o.load = ⟨"json", true⟩) :
    o.prepare (lonelyDocument "a.json") = .ok (1, render [oneRecord "d/a.json"] o.baseName) := by
  have hload : (lonelyDocument "a.json").loadDirectory o.schemaDir o.load =
      .ok [{ oneMapping "n" "/v" with source := "d/a.json" }] := by
    rw [hd, hl, loadDirectory_lonelyDocument]
  exact prepare_of_load hload (find?_oneRecord _)

/-- The path of the header goes through the output directory back to it. -/
def intoItself : RunOptions := ⟨"d", "o/t.h", "../t", .write, ⟨"json", true⟩⟩

/-- The same with the output directory. -/
def withItself : Workspace :=
  ((lonelyDocument "a.json").insert ["o"] (.directory directoryMode)).insert ["t.h", "o"]
    (.directory directoryMode)

/-- The header is refused, and the directories are left. -/
theorem workspace_intoItself (records : List InterfaceRecord) :
    ((render records "../t").write "o/t.h" (lonelyDocument "a.json")).workspace = withItself := by
  have hready : (lonelyDocument "a.json").ensureDirectory "o/t.h" = ⟨.ok (), withItself⟩ := rfl
  have hstaging : withItself.staging "o/t.h" = .ok ["t.h", "o"] := Workspace.staging_of_root rfl rfl rfl rfl
  have hrefused : ∀ bytes mode, withItself.place ["t.h", "o"] "o/t.h/../t.h" bytes mode =
    .error .notEmpty := fun _ _ => rfl
  have hpath : (render records "../t").header.path "o/t.h" = "o/t.h/../t.h" :=
    (Artifacts.path_render records "../t" "o/t.h").1.trans rfl
  rw [← hpath] at hrefused
  rw [Artifacts.write_of_header_error hready hstaging (hrefused _ _)]

/-- Where the path of the header leads to the output directory itself, that directory is new there and
no file. -/
theorem header_path_holds_new_directory :
    ¬ ∀ (o : RunOptions) (ws : Workspace) (documents : List Document), ws.tree.WellFormed →
      ws.tree.LinkFree → o.mode = .write → ws.loadDirectory o.schemaDir o.load = .ok documents →
      Collision.find? (documents.map Document.record) = none →
      ∀ k, (run o ws).workspace.holding (o.artifactPath k) = ws.holding (o.artifactPath k) ∨
        ∃ contents mode,
          (run o ws).workspace.holding (o.artifactPath k) = some (.file contents mode) := by
  intro h
  have hp := RunOptions.prepare_lonelyDocument (o := intoItself) rfl rfl
  have hworkspace : (run intoItself (lonelyDocument "a.json")).workspace = withItself :=
    (workspace_write (o := intoItself) rfl hp).trans (workspace_intoItself _)
  have hafter : (run intoItself (lonelyDocument "a.json")).workspace.holding "o/t.h/../t.h" =
      some (.directory directoryMode) := by
    rw [hworkspace]
    rfl
  have hbefore : (lonelyDocument "a.json").holding "o/t.h/../t.h" = none := rfl
  obtain hsame | ⟨contents, mode, hfile⟩ := h intoItself (lonelyDocument "a.json") _
    (wellFormed_lonelyDocument (by decide)) (linkFree_lonelyDocument _) rfl loadDirectory_lonelyDocument
    (find?_oneRecord _) .header
  · cases hafter.symm.trans (hsame.trans hbefore)
  · cases hafter.symm.trans hfile

end InterfaceTables
