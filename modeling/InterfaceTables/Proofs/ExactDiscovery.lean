import InterfaceTables.Proofs.SameContents
import InterfaceTables.Proofs.TextBytes

/-!
What a search of a directory finds. The names it finds are those of entries that are files, links
followed, and have the extension. They come in the order of their bytes, whatever the order in which the
entries were made.
-/

namespace InterfaceTables

/-! ## Extensions -/

/-- The extension is what stands after the last dot, and something stands before that dot. -/
def Path.HasExtension (name extension : String) : Prop :=
  '.' ∉ extension.toList ∧ ∃ stem, stem ≠ "" ∧ name = stem ++ "." ++ extension

theorem Path.hasExtension_of_extension? {name extension : String}
    (h : extension? name = some extension) : HasExtension name extension := by
  have hext := toList_of_extension? h
  have hsplit := List.takeWhile_append_dropWhile (p := (· ≠ '.')) (l := name.toList.reverse)
  have hhead := List.head?_dropWhile_not (· ≠ '.') name.toList.reverse
  have hmem : '.' ∉ extension.toList := by
    intro hdot
    rw [hext, List.mem_reverse] at hdot
    have hkept := List.all_eq_true.mp List.all_takeWhile _ hdot
    simp at hkept
  unfold extension? at h
  dsimp only at h
  split at h
  case h_2 => cases h
  case h_1 dot c front hrest =>
    rw [hrest] at hsplit hhead
    have hdot : dot = '.' := by simpa using hhead
    refine ⟨hmem, String.ofList (c :: front).reverse, by simp, ?_⟩
    apply String.toList_injective
    rw [← List.reverse_inj, ← hsplit]
    simp [hext, hdot]

theorem Path.extension?_of_hasExtension {name extension : String} (hn : name ≠ "..")
    (h : HasExtension name extension) : extension? name = some extension := by
  obtain ⟨hdots, stem, hstem, rfl⟩ := h
  have hreverse : (stem ++ "." ++ extension).toList.reverse =
      extension.toList.reverse ++ '.' :: stem.toList.reverse := by simp
  have hne : ∀ c ∈ extension.toList.reverse, decide (c ≠ '.') = true := by
    intro c hc
    rw [decide_eq_true_eq]
    rintro rfl
    exact hdots (List.mem_reverse.mp hc)
  have hlist : stem.toList.reverse ≠ [] := by simpa using hstem
  obtain ⟨c, front, hfront⟩ := List.exists_cons_of_ne_nil hlist
  unfold extension?
  rw [hreverse, hfront, List.dropWhile_append_of_pos hne, List.takeWhile_append_of_pos hne]
  simp [hn]

/-! ## Links on the way -/

namespace FileTree

variable {t : FileTree} {links : Nat} {here mid : Location} {front : List String}

/-- The path passes so many links on its way to a place. With so many, and whatever is left, it leads on
from there; with fewer it leads nowhere. -/
structure PassesLinks (t : FileTree) (here : Location) (front : List String) (mid : Location)
    (used : Nat) : Prop where
  leads_on : ∀ left steps, t.resolveFrom .followed (used + left) here (front ++ steps) =
    t.resolveFrom .followed left mid steps
  too_few : ∀ fewer steps, fewer < used →
    t.resolveFrom .followed fewer here (front ++ steps) = .error .tooManyLinks

theorem PassesLinks.leads_iff {used n : Nat} (h : t.PassesLinks here front mid used) :
    t.Leads .followed n here front (.entry mid) ↔ used ≤ n := by
  rw [← resolveFrom_eq_ok_iff]
  constructor
  · intro hn
    by_contra hlt
    have herror := h.too_few n [] (Nat.lt_of_not_le hlt)
    rw [List.append_nil, hn] at herror
    cases herror
  · intro hle
    obtain ⟨left, rfl⟩ := Nat.exists_eq_add_of_le hle
    have hon := h.leads_on left []
    rw [List.append_nil] at hon
    rw [hon, resolveFrom_eq_walk, walk]

/-- A step that is no link leaves the number as it is. -/
theorem PassesLinks.step {here' : Location} {step : String} {used : Nat}
    (h : t.PassesLinks here' front mid used)
    (hstep : ∀ n rest, t.resolveFrom .followed n here (step :: rest) =
      t.resolveFrom .followed n here' rest) :
    t.PassesLinks here (step :: front) mid used where
  leads_on left steps := (hstep _ _).trans (h.leads_on left steps)
  too_few fewer steps hlt := (hstep _ _).trans (h.too_few fewer steps hlt)

theorem Leads.exists_passesLinks (h : t.Leads .followed links here front (.entry mid)) :
    ∃ used, t.PassesLinks here front mid used := by
  generalize hg : Target.entry mid = goal at h
  induction h with
  | done =>
    cases hg
    refine ⟨0, fun left steps => ?_, nofun⟩
    rw [Nat.zero_add]
    rfl
  | blank dir _ ih =>
    obtain ⟨used, hused⟩ := ih hg
    refine ⟨used, hused.step fun n rest => ?_⟩
    rw [resolveFrom_eq_walk, walk_blank dir]
  | dot dir _ ih =>
    obtain ⟨used, hused⟩ := ih hg
    refine ⟨used, hused.step fun n rest => ?_⟩
    rw [resolveFrom_eq_walk, walk_dot dir]
  | up dir _ ih =>
    obtain ⟨used, hused⟩ := ih hg
    refine ⟨used, hused.step fun n rest => ?_⟩
    rw [resolveFrom_eq_walk, walk_up dir]
  | absent => cases hg
  | enter look found solid _ ih =>
    obtain ⟨used, hused⟩ := ih hg
    refine ⟨used, hused.step fun n rest => ?_⟩
    rw [resolveFrom_eq_walk, walk_enter (look.of_ne_written (by simp)) found solid]
  | stop _ _ kept => cases kept
  | @follow _ here step rest _ target look found _ _ ih =>
    obtain ⟨used, hused⟩ := ih hg
    have hwalk : ∀ n steps, t.resolveFrom .followed n here (step :: rest ++ steps) =
        t.following .followed n (if target.isAbsolute then [] else here)
          (target.steps ++ rest ++ steps) := by
      intro n steps
      rw [resolveFrom_eq_walk, List.cons_append, walk_of_looksUp (look.of_ne_written (by simp)), found]
      simp
    refine ⟨used + 1, fun left steps => ?_, fun fewer steps hlt => ?_⟩
    · rw [hwalk, Nat.add_right_comm]
      exact hused.leads_on left steps
    · rw [hwalk]
      cases fewer with
      | zero => rfl
      | succ fewer => exact hused.too_few fewer steps (Nat.lt_of_succ_lt_succ hlt)

/-- A slash at the end leads no further and passes no link. -/
theorem PassesLinks.of_slash {used : Nat} (h : t.PassesLinks here (front ++ [""]) mid used)
    (hd : t.IsDirectory mid) : t.PassesLinks here front mid used := by
  have htidy : Path.Tidies (front ++ [""]) front := by
    have hslash : Path.Tidies [""] [] := .drop rfl .nil
    simpa using (Path.Tidies.refl front).append hslash
  have hfront := (h.leads_iff.mpr (Nat.le_refl used)).tidy htidy
  obtain ⟨used', hused'⟩ := hfront.exists_passesLinks
  have hback : t.Leads .followed used' here (front ++ [""]) (.entry mid) := by
    have hon := hused'.leads_on 0 [""]
    rw [Nat.add_zero, resolveFrom_of_leads (.blank hd .done)] at hon
    exact leads_of_resolveFrom hon
  have hequal : used' = used := Nat.le_antisymm (hused'.leads_iff.mp hfront) (h.leads_iff.mp hback)
  exact hequal ▸ hused'

/-- Where a walk goes depends on nothing but the entries. -/
theorem walk_congr {t' : FileTree} (h : ∀ l, t'.get? l = t.get? l) {last : LastStep}
    {follow : Location → List String → Except IoError Target} (here : Location) (steps : List String) :
    t'.walk last follow here steps = t.walk last follow here steps := by
  induction steps generalizing here with
  | nil => rw [walk, walk]
  | cons step rest ih =>
    rw [walk, walk]
    simp only [h, ih]

theorem resolveFrom_congr {t' : FileTree} (h : ∀ l, t'.get? l = t.get? l) (last : LastStep)
    (links : Nat) : t'.resolveFrom last links = t.resolveFrom last links := by
  induction links with
  | zero =>
    funext here steps
    exact walk_congr h here steps
  | succ links ih =>
    funext here steps
    rw [resolveFrom, resolveFrom, ih]
    exact walk_congr h here steps

theorem sortedNames_congr {t' : FileTree} (h : ∀ l, t'.get? l = t.get? l) (dir : Location) :
    t'.sortedNames dir = t.sortedNames dir := by
  have hfilter : (t'.sortedNames dir).filter (fun _ => true) =
      (t.sortedNames dir).filter fun _ => true :=
    filter_sortedNames_eq fun name => by rw [h]
  simpa using hfilter

/-- An entry of a directory is a file, or a link that leads to one through at most so many links. -/
def IsFileBehind (t : FileTree) (left : Nat) (dir : Location) : Entry → Prop
  | .directory _ => False
  | .file _ _ => True
  | .link target => ∃ fewer loc contents mode, left = fewer + 1 ∧
      t.Leads .followed fewer (if target.isAbsolute then [] else dir) target.steps (.entry loc) ∧
      t.get? loc = some (.file contents mode)

theorem leads_name_file_iff {left : Nat} {dir : Location} {name : String}
    (hn : Path.IsEntryName name) :
    (∃ loc contents mode, t.Leads .followed left dir [name] (.entry loc) ∧
        t.get? loc = some (.file contents mode)) ↔
      t.Searchable dir ∧ name.utf8ByteSize ≤ Path.maxName ∧
        ∃ e, t.get? (name :: dir) = some e ∧ t.IsFileBehind left dir e := by
  constructor
  · intro h
    obtain ⟨loc, contents, mode, hlead, hfile⟩ := h
    cases hlead with
    | blank => exact absurd rfl hn.ne_empty
    | dot => exact absurd rfl hn.ne_dot
    | up => exact absurd rfl hn.ne_up
    | enter look found _ next =>
      cases next
      exact ⟨look.searchable, look.fits, _, hfile, trivial⟩
    | stop _ _ kept => cases kept
    | @follow fewer _ _ _ _ target look found _ next =>
      rw [List.append_nil] at next
      exact ⟨look.searchable, look.fits, _, found, fewer, loc, contents, mode, rfl, next, hfile⟩
  · intro h
    obtain ⟨hsearch, hfits, e, found, hbehind⟩ := h
    have look : t.LooksUp .followed dir name [] :=
      ⟨hsearch, hn.ne_empty, hn.ne_dot, hn.ne_up, by simp, hfits⟩
    cases e with
    | directory mode => cases hbehind
    | file contents mode => exact ⟨_, contents, mode, .enter look found (by simp) .done, found⟩
    | link target =>
      obtain ⟨fewer, loc, contents, mode, rfl, hlead, hfile⟩ := hbehind
      refine ⟨loc, contents, mode, .follow look found (Or.inr (by simp)) ?_, hfile⟩
      rw [List.append_nil]
      exact hlead

end FileTree

namespace Workspace

variable {ws ws' : Workspace} {dir : Path} {loc : Location} {mode : Nat} {extension : String}

/-- The path of a directory passes some number of links, and the paths of its entries go on with what
is left. -/
theorem exists_links_left (hs : ws.stat dir = .ok (loc, .directory mode)) :
    ∃ used left, used + left = FileTree.maxLinks ∧
      (∀ n, ws.tree.Leads .followed n (ws.start dir) dir.steps (.entry loc) ↔ used ≤ n) ∧
      ∀ name, Path.IsEntryName name → (dir.join name).fault? = none →
        ws.resolve .followed (dir.join name) = ws.tree.resolveFrom .followed left loc [name] := by
  obtain ⟨hresolve, hloc⟩ := entry_eq_ok_iff.mp hs
  have hlead := (resolve_eq_ok_iff.mp hresolve).2
  obtain ⟨used, hused⟩ := hlead.exists_passesLinks
  obtain ⟨left, hleft⟩ := Nat.exists_eq_add_of_le (hused.leads_iff.mp hlead)
  refine ⟨used, left, hleft.symm, fun n => hused.leads_iff, fun name hn hfault => ?_⟩
  have hd := ne_empty_of_stat hs
  obtain ⟨front, hjoin, hsteps⟩ := Path.steps_join hd hn
  have hfront : ws.tree.PassesLinks (ws.start dir) front loc used := by
    cases hsteps with
    | inl hsame => exact hsame ▸ hused
    | inr hslash =>
      rw [hslash] at hused
      exact hused.of_slash ⟨mode, hloc⟩
  have hstart : ws.start (dir.join name) = ws.start dir := by
    rw [start, start, Path.isAbsolute_join hd hn]
  unfold resolve resolveSteps
  rw [hfault, hjoin, hstart, hleft]
  exact hfront.leads_on left [name]

theorem isFile_join_iff_behind {left : Nat} {name : String} (hn : Path.IsEntryName name)
    (hresolve : (dir.join name).fault? = none →
      ws.resolve .followed (dir.join name) = ws.tree.resolveFrom .followed left loc [name]) :
    ws.isFile (dir.join name) = true ↔
      (dir.join name).fault? = none ∧ ws.tree.Searchable loc ∧ name.utf8ByteSize ≤ Path.maxName ∧
        ∃ e, ws.tree.get? (name :: loc) = some e ∧ ws.tree.IsFileBehind left loc e := by
  rw [← FileTree.leads_name_file_iff hn, isFile_iff]
  simp only [stat, entry_eq_ok_iff]
  constructor
  · intro h
    obtain ⟨l, contents, m, hlead, hfile⟩ := h
    have hfault := (resolve_eq_ok_iff.mp hlead).1
    rw [hresolve hfault, FileTree.resolveFrom_eq_ok_iff] at hlead
    exact ⟨hfault, l, contents, m, hlead, hfile⟩
  · intro h
    obtain ⟨hfault, l, contents, m, hlead, hfile⟩ := h
    refine ⟨l, contents, m, ?_, hfile⟩
    rw [hresolve hfault, FileTree.resolveFrom_eq_ok_iff]
    exact hlead

theorem join_injective {a b : String} (hd : dir ≠ "") (ha : Path.IsEntryName a)
    (hb : Path.IsEntryName b) (h : dir.join a = dir.join b) : a = b := by
  have hlast := (Path.endsIn_join hd ha).last
  rw [h, (Path.endsIn_join hd hb).last] at hlast
  exact (Option.some.inj hlast).symm

theorem stat_congr (hdir : ws'.workingDir = ws.workingDir) (h : ∀ l, ws'.tree.get? l = ws.tree.get? l)
    (p : Path) : ws'.stat p = ws.stat p := by
  unfold stat entry resolve resolveSteps
  simp only [start_eq hdir, FileTree.resolveFrom_congr h, h]

/-- A search finds the same in any tree with the same entries, in whatever order they were made. -/
theorem discover_congr (hdir : ws'.workingDir = ws.workingDir)
    (h : ∀ l, ws'.tree.get? l = ws.tree.get? l) : ws'.discover dir extension = ws.discover dir extension := by
  unfold discover list isFile
  simp only [stat_congr hdir h, FileTree.sortedNames_congr h]

theorem discover_of_unlistable (hs : ws.stat dir = .ok (loc, .directory mode))
    (hr : mayRead mode = false) :
    ws.discover dir extension = .error ⟨dir, .unlistable .denied⟩ := by
  have hfile : ws.isFile dir = false := by simp [isFile, hs]
  have hlist : ws.list dir = .error .denied := by simp [list, hs, hr]
  unfold discover
  rw [hlist]
  simp [hfile]

theorem exists_sources_of_listable (hs : ws.stat dir = .ok (loc, .directory mode))
    (hr : mayRead mode = true) (extension : String) : ∃ names, ws.Sources dir extension names := by
  have hlist := list_eq_ok_iff.mpr ⟨mode, hs, hr, rfl⟩
  have hfound : ∃ files, ws.discover dir extension = .ok files := by
    unfold discover
    rw [hlist]
    exact ⟨_, rfl⟩
  obtain ⟨files, hfiles⟩ := hfound
  obtain ⟨names, hsources, -⟩ := exists_sources_of_discover hfiles
  exact ⟨names, hsources⟩

theorem Sources.sorted_of_stat {names : List String} (h : ws.Sources dir extension names)
    (hs : ws.stat dir = .ok (loc, .directory mode)) :
    names.Pairwise (· < ·) ∧ ∀ name, name ∈ names ↔ (∃ e, ws.tree.get? (name :: loc) = some e) ∧
      ws.isFile (dir.join name) = true ∧ Path.extension? name = some extension := by
  cases h with
  | directory found _ sorted mem_iff =>
    cases hs.symm.trans found
    exact ⟨sorted, mem_iff⟩
  | file hfile =>
    simp [isFile, hs] at hfile

/-- A directory that may not be listed is refused. In one that may be listed, exactly the entries are
found that have the extension and are files, links followed, as far as their paths can be followed. Each
is found once, and they come in the order of the bytes of their names. All this depends on the entries
that there are, not on the order in which they were made. -/
theorem discover_finds_exactly (hw : ws.tree.WellFormed)
    (hs : ws.stat dir = .ok (loc, .directory mode)) (extension : String) :
    (mayRead mode = false → ws.discover dir extension = .error ⟨dir, .unlistable .denied⟩) ∧
    (mayRead mode = true → ∃ (names : List String) (used left : Nat),
      ws.discover dir extension = .ok (names.map dir.join) ∧
      names.Pairwise (fun a b => utf8Bytes a < utf8Bytes b) ∧ (names.map dir.join).Nodup ∧
      used + left = FileTree.maxLinks ∧
      (∀ n, ws.tree.Leads .followed n (ws.start dir) dir.steps (.entry loc) ↔ used ≤ n) ∧
      ∀ name, name ∈ names ↔ Path.HasExtension name extension ∧ (dir.join name).fault? = none ∧
        maySearch mode = true ∧ name.utf8ByteSize ≤ Path.maxName ∧
        ∃ e, ws.tree.get? (name :: loc) = some e ∧ ws.tree.IsFileBehind left loc e) ∧
    ∀ ws' : Workspace, ws'.workingDir = ws.workingDir → (∀ l, ws'.tree.get? l = ws.tree.get? l) →
      ws'.discover dir extension = ws.discover dir extension := by
  refine ⟨discover_of_unlistable hs, fun hr => ?_, fun ws' hdir h => discover_congr hdir h⟩
  obtain ⟨used, left, hlinks, hused, hresolve⟩ := exists_links_left hs
  obtain ⟨names, hsources⟩ := exists_sources_of_listable hs hr extension
  obtain ⟨hsorted, hmem⟩ := hsources.sorted_of_stat hs
  have hname : ∀ name ∈ names, Path.IsEntryName name := by
    intro name hin
    obtain ⟨⟨e, he⟩, -⟩ := (hmem name).mp hin
    exact hw.name he
  have hsearch : ws.tree.Searchable loc ↔ maySearch mode = true := by
    unfold FileTree.Searchable
    rw [(entry_eq_ok_iff.mp hs).2]
    simp
  refine ⟨names, used, left, hsources.discover, hsorted.imp utf8Bytes_lt, ?_, hlinks, hused,
    fun name => ?_⟩
  · refine List.Nodup.map_on ?_ (hsorted.imp fun hlt => String.ne_of_lt hlt)
    intro a ha b hb
    exact join_injective (ne_empty_of_stat hs) (hname a ha) (hname b hb)
  · rw [hmem]
    constructor
    · intro h
      obtain ⟨⟨e, he⟩, hfile, hext⟩ := h
      have hn := hw.name he
      rw [isFile_join_iff_behind hn (hresolve name hn), hsearch] at hfile
      exact ⟨Path.hasExtension_of_extension? hext, hfile⟩
    · intro h
      obtain ⟨hext, hfault, hsearch', hfits, e, he, hbehind⟩ := h
      have hn := hw.name he
      have hfile := (isFile_join_iff_behind hn (hresolve name hn)).mpr
        ⟨hfault, hsearch.mpr hsearch', hfits, e, he, hbehind⟩
      exact ⟨⟨e, he⟩, hfile, Path.extension?_of_hasExtension hn.ne_up hext⟩

end Workspace

/-- A directory `d` with a file, a link to that file and a link to nothing, and a link `l` to `d`. -/
def sourcesIn (mode : Nat) : Workspace where
  tree := ((((FileTree.empty.insert ["d"] (.directory mode)).insert
    ["a.json", "d"] (.file ⟨#[]⟩ fileMode)).insert
    ["b.json", "d"] (.link "a.json")).insert
    ["c.json", "d"] (.link "gone")).insert
    ["l"] (.link "d")
  workingDir := []

theorem isEntryName_sourcesIn {name : String} (h : name ∈ ["d", "a.json", "b.json", "c.json", "l"]) :
    Path.IsEntryName name := by
  simp only [List.mem_cons, List.not_mem_nil, or_false] at h
  obtain rfl | rfl | rfl | rfl | rfl := h
  all_goals decide

theorem wellFormed_sourcesIn (mode : Nat) : (sourcesIn mode).tree.WellFormed := by
  refine ((((FileTree.wellFormed_empty.insert_new ⟨_, rfl⟩ ?_ rfl).insert_new ⟨_, rfl⟩ ?_ rfl).insert_new
    ⟨_, rfl⟩ ?_ rfl).insert_new ⟨_, rfl⟩ ?_ rfl).insert_new ⟨_, rfl⟩ ?_ rfl
  all_goals exact isEntryName_sourcesIn (by simp)

/-- Through the link `l`, the file and the link to it are found, and the link to nothing is not. -/
theorem discover_linkedDirectory :
    ∃ names : List String,
      (sourcesIn directoryMode).discover "l" "json" = .ok (names.map (Path.join "l")) ∧
      "a.json" ∈ names ∧ "b.json" ∈ names ∧ "c.json" ∉ names := by
  have hs : (sourcesIn directoryMode).stat "l" = .ok (["d"], .directory directoryMode) := rfl
  have look : ∀ name, Path.IsEntryName name → name.utf8ByteSize ≤ Path.maxName →
      (sourcesIn directoryMode).tree.LooksUp .followed ["d"] name [] := by
    intro name hn hfits
    exact ⟨⟨directoryMode, rfl, by decide⟩, hn.ne_empty, hn.ne_dot, hn.ne_up, by simp, hfits⟩
  obtain ⟨-, hlist, -⟩ := Workspace.discover_finds_exactly (wellFormed_sourcesIn directoryMode) hs "json"
  obtain ⟨names, used, left, hfound, -, -, hlinks, hused, hmem⟩ := hlist (by decide)
  have hone : used ≤ 1 := by
    rw [← hused]
    exact FileTree.leads_of_resolveFrom rfl
  have hleft : left = FileTree.maxLinks - used - 1 + 1 := by
    have hmax : FileTree.maxLinks = 40 := rfl
    omega
  refine ⟨names, hfound, ?_, ?_, ?_⟩
  · rw [hmem]
    exact ⟨⟨by decide, "a", by decide, rfl⟩, by decide, by decide, by decide, _, rfl, trivial⟩
  · rw [hmem]
    refine ⟨⟨by decide, "b", by decide, rfl⟩, by decide, by decide, by decide, _, rfl, _,
      ["a.json", "d"], _, _, hleft, ?_, rfl⟩
    exact .enter (look "a.json" (isEntryName_sourcesIn (by simp)) (by decide)) rfl (by simp) .done
  · rw [hmem]
    rintro ⟨-, -, -, -, e, he, hbehind⟩
    cases he
    obtain ⟨fewer, loc, _, _, -, hlead, -⟩ := hbehind
    have hgone : (sourcesIn directoryMode).tree.Leads .followed fewer ["d"] ["gone"]
        (.absent ["d"] "gone") :=
      .absent (look "gone" (by decide) (by decide)) rfl rfl
    cases hlead.unique hgone

/-- In a directory that may be listed but not searched, no file is found. -/
theorem unsearchable_directory_hides_files :
    ¬ ∀ (ws : Workspace) (dir : Path) (loc : Location) (mode : Nat) (extension : String),
      ws.tree.WellFormed → ws.stat dir = .ok (loc, .directory mode) →
      ∃ names : List String, ws.discover dir extension = .ok (names.map dir.join) ∧
        ∀ name contents m, ws.tree.get? (name :: loc) = some (.file contents m) →
          Path.HasExtension name extension → name ∈ names := by
  intro h
  have hw := wellFormed_sourcesIn 0o444
  obtain ⟨names, hfound, hall⟩ := h (sourcesIn 0o444) "d" ["d"] 0o444 "json" hw rfl
  have hname : "a.json" ∈ names := hall _ _ _ rfl ⟨by decide, "a", by decide, rfl⟩
  obtain ⟨_, _, _, _, _, _, hfile, _⟩ :=
    Workspace.exists_of_mem_discover hfound hw (List.mem_map_of_mem hname)
  cases hfile

end InterfaceTables
