import InterfaceTables.Proofs.AcceptedNames
import InterfaceTables.Proofs.CheckAndWrite
import InterfaceTables.Proofs.PrintedHunks
import InterfaceTables.Proofs.TextBytes

/-!
Reports of files that are not up to date. Files are compared by their bytes and explained by the texts
that are shown for them, so a report shows no line exactly if other bytes are shown as the generated
text. That takes a replacement character in a text that the file takes over.
-/

namespace InterfaceTables

/-! ## Characters of the generated files -/

theorem mem_unlines {c : Char} (hc : c ≠ '\n') {ls : List String} :
    c ∈ unlines ls ↔ ∃ l ∈ ls, c ∈ l.toList := by
  simp [unlines, List.mem_flatMap, hc]

theorem mem_joinedLines {α : Type} {lines : α → List String} {x : α} {xs : List α} {l : String}
    (hx : x ∈ xs) (hl : l ∈ lines x) : l ∈ joinedLines lines xs := by
  cases xs with
  | nil => cases hx
  | cons y xs => exact List.mem_flatMap.mpr ⟨x, hx, hl⟩

theorem Only.of_not_mem {c : Char} {s : String} (h : c ∉ s.toList) : Only (· != c) s :=
  fun _ hd => bne_iff_ne.mpr fun he => h (he ▸ hd)

/-- The texts that a generated file takes over as they are. -/
def ArtifactKind.copied (records : List InterfaceRecord) (baseName : String) : ArtifactKind → List String
  | .header => [baseName]
  | .source => baseName :: records.flatMap fun r => r.mappings.map MappingRecord.endpoint

section Characters

variable {records : List InterfaceRecord} {baseName : String} {c : Char}

theorem ne_of_isBasic {d : Char} (hc : isBasic c = false) (hd : isBasic d = true) : (d != c) = true := by
  rw [bne_iff_ne]
  rintro rfl
  rw [hc] at hd
  cases hd

theorem SourceText.mem_iff (hr : ∀ r ∈ records, r.Clean) (hc : isBasic c = false) (hn : c ≠ '\n') :
    c ∈ (sourceText records baseName).toList ↔
      ∃ t ∈ ArtifactKind.copied records baseName .source, c ∈ t.toList := by
  rw [toList_eq_unlines, mem_unlines hn]
  constructor
  · rintro ⟨l, hl, hm⟩
    by_contra hcopied
    have hnot : ∀ t ∈ ArtifactKind.copied records baseName .source, Only (· != c) t :=
      fun t ht => .of_not_mem fun hm => hcopied ⟨t, ht, hm⟩
    have hlines := only_lines_of_endpoints (fun _ => ne_of_isBasic hc) hr
      (fun r hr m hm => hnot _ (List.mem_cons_of_mem _
        (List.mem_flatMap.mpr ⟨r, hr, List.mem_map_of_mem hm⟩)))
      (hnot baseName List.mem_cons_self)
    exact (hlines l hl).not_mem (bne_self_eq_false c) hm
  · rintro ⟨t, ht, hm⟩
    cases List.mem_cons.mp ht with
    | inl he =>
      subst he
      exact ⟨" * @file " ++ t ++ ".c", List.mem_append_left _ (by simp [top]), by simp [hm]⟩
    | inr ht =>
      obtain ⟨r, hr, ht⟩ := List.mem_flatMap.mp ht
      obtain ⟨m, hm', rfl⟩ := List.mem_map.mp ht
      have hline : "        .endpoint = \"" ++ m.endpoint ++ "\"," ∈ r.lines :=
        List.mem_append_right _ (List.mem_append_left _
          (List.mem_flatMap.mpr ⟨m, hm', by simp [MappingRecord.lines]⟩))
      exact ⟨_, List.mem_append_right _ (List.mem_append_left _ (mem_joinedLines hr hline)), by simp [hm]⟩

theorem HeaderText.mem_iff (hr : ∀ r ∈ records, r.Clean) (hc : isBasic c = false) (hn : c ≠ '\n') :
    c ∈ (headerText records baseName).toList ↔ c ∈ baseName.toList := by
  rw [toList_eq_unlines, mem_unlines hn]
  constructor
  · rintro ⟨l, hl, hm⟩
    by_contra hb
    exact (only_lines (fun _ => ne_of_isBasic hc) hr (.of_not_mem hb) l hl).not_mem (bne_self_eq_false c) hm
  · intro hm
    exact ⟨" * @file " ++ baseName ++ ".h", List.mem_append_left _ (by simp [top]), by simp [hm]⟩

/-- A character that the templates do not have comes from a text that is taken over. -/
theorem mem_contents_iff (hr : ∀ r ∈ records, r.Clean) (hc : isBasic c = false) (hn : c ≠ '\n')
    {a : Artifact} (ha : a ∈ (render records baseName).toList) :
    c ∈ a.contents.toList ↔ ∃ t ∈ a.kind.copied records baseName, c ∈ t.toList := by
  rw [Artifacts.toList, List.mem_pair] at ha
  cases ha with
  | inl ha =>
    subst ha
    refine (HeaderText.mem_iff hr hc hn).trans ⟨fun hm => ⟨baseName, List.mem_singleton_self _, hm⟩, ?_⟩
    rintro ⟨t, ht, hm⟩
    exact List.mem_singleton.mp ht ▸ hm
  | inr ha =>
    subst ha
    exact SourceText.mem_iff hr hc hn

end Characters

/-! ## Lines of a diff -/

namespace Diff

/-- The printed diff of a file has a deleted or an inserted line. -/
def ShowsLine (fileName diff : String) : Prop :=
  ∃ hs, readUnified (fileName ++ " (on disk)") (fileName ++ " (generated)") diff = some hs ∧
    ∃ k ∈ hs, ∃ r ∈ k.rows, r.isContext = false

theorem readUnified_unified (existing expected fileName : String) :
    readUnified (fileName ++ " (on disk)") (fileName ++ " (generated)")
      (unified existing expected fileName) = some (hunks (splitLines existing) (splitLines expected)) :=
  readUnified_unifiedText fun k hk r hr =>
    ((patch_hunks _ _).lines k hk r hr).elim isLine_of_mem_splitLines isLine_of_mem_splitLines

theorem showsLine_unified_iff (existing expected fileName : String) :
    ShowsLine fileName (unified existing expected fileName) ↔ existing ≠ expected := by
  unfold ShowsLine
  rw [readUnified_unified, Ne, ← hunks_eq_nil_iff]
  constructor
  · rintro ⟨hs, he, k, hk, -⟩ hnil
    cases he
    rw [hnil] at hk
    cases hk
  · intro hne
    obtain ⟨k, hs, hcons⟩ := List.exists_cons_of_ne_nil hne
    have hk : k ∈ hunks (splitLines existing) (splitLines expected) := by
      rw [hcons]
      exact List.mem_cons_self
    exact ⟨_, rfl, k, hk, ((patch_hunks _ _).focused k hk).change⟩

theorem unified_self (text fileName : String) : unified text text fileName = "" := by
  rw [unified, hunks_self]
  rfl

end Diff

/-! ## Reports of checks -/

theorem Artifact.exists_of_check_stale {a : Artifact} {ws : Workspace} {dir : Path}
    {kind : ArtifactKind} {diff : String} (h : a.check ws dir = .error (.stale kind diff)) :
    a.kind = kind ∧ ∃ existing, ws.readBytes (a.path dir) = .ok existing ∧ existing ≠ a.bytes ∧
      diff = Diff.unified (Text.lossyText existing) a.contents a.fileName := by
  unfold check at h
  cases hr : ws.readBytes (a.path dir) with
  | error e => cases e <;> simp [hr] at h
  | ok existing =>
    rw [hr] at h
    dsimp only at h
    split at h
    · cases h
    · rename_i hne
      cases h
      exact ⟨rfl, existing, rfl, fun he => hne (congrArg ByteArray.data he), rfl⟩

namespace Artifacts

theorem exists_of_compareAll_error {compare : Artifact → Except Mismatch Unit} {dir path : Path}
    {files : List Artifact} {m : Mismatch}
    (h : (compareAll compare dir files).1 = .error (.check path m)) :
    ∃ a ∈ files, a.path dir = path ∧ compare a = .error m := by
  induction files with
  | nil => cases h
  | cons a files ih =>
    cases hc : compare a with
    | error m' =>
      rw [compareAll, hc] at h
      cases h
      exact ⟨a, List.mem_cons_self, rfl, hc⟩
    | ok u =>
      rw [compareAll, hc] at h
      obtain ⟨b, hb, hpath⟩ := ih h
      exact ⟨b, List.mem_cons_of_mem a hb, hpath⟩

theorem exists_of_check_stale {as : Artifacts} {dir path : Path} {ws : Workspace} {kind : ArtifactKind}
    {diff : String} (h : (as.check dir ws).result = .error (.check path (.stale kind diff))) :
    ∃ a ∈ as.toList, a.path dir = path ∧ a.check ws dir = .error (.stale kind diff) := by
  unfold check at h
  by_cases hd : ws.isDirectory dir = true
  · rw [if_pos hd] at h
    exact exists_of_compareAll_error h
  · rw [if_neg hd] at h
    cases h

/-- A report shows a deleted or inserted line exactly if the bytes on disk are shown as another text
than the generated one. If not, the report is empty and the bytes are no text. Such bytes exist for a
file exactly if it takes over a replacement character. -/
theorem stale_report_shows_line_iff {documents : List Document} {baseName : String} {dir path : Path}
    {ws : Workspace} {kind : ArtifactKind} {diff : String} (hd : ∀ d ∈ documents, d.Accepted)
    (h : ((render (documents.map Document.record) baseName).check dir ws).result =
      .error (.check path (.stale kind diff))) :
    ∃ a ∈ (render (documents.map Document.record) baseName).toList, ∃ existing,
      a.kind = kind ∧ a.path dir = path ∧ ws.readBytes path = .ok existing ∧ existing ≠ a.bytes ∧
      (Diff.ShowsLine a.fileName diff ↔ Text.lossyText existing ≠ a.contents) ∧
      (¬ Diff.ShowsLine a.fileName diff → diff = "" ∧ ¬ existing.IsValidUTF8) ∧
      ((∃ bytes, bytes ≠ a.bytes ∧ ¬ Diff.ShowsLine a.fileName
          (Diff.unified (Text.lossyText bytes) a.contents a.fileName)) ↔
        ∃ t ∈ kind.copied (documents.map Document.record) baseName, Text.replacement ∈ t.toList) := by
  have hclean : ∀ r ∈ documents.map Document.record, r.Clean :=
    List.forall_mem_map.mpr fun d h => (hd d h).clean
  obtain ⟨a, ha, hpath, hcheck⟩ := exists_of_check_stale h
  obtain ⟨rfl, existing, hread, hne, rfl⟩ := Artifact.exists_of_check_stale hcheck
  refine ⟨a, ha, existing, rfl, hpath, hpath ▸ hread, hne, Diff.showsLine_unified_iff _ _ _, ?_, ?_⟩
  · intro hsilent
    have hsame : Text.lossyText existing = a.contents := by
      simpa [Diff.showsLine_unified_iff] using hsilent
    refine ⟨by rw [hsame, Diff.unified_self], fun hvalid => hne ?_⟩
    rw [Artifact.bytes, ← hsame, Text.isValidUTF8_iff.mp hvalid]
  · rw [← mem_contents_iff hclean (by decide) (by decide) ha, ← Text.exists_other_bytes_iff]
    simp only [Diff.showsLine_unified_iff, not_not, Artifact.bytes]

end Artifacts

/-- A directory with a header and a source. -/
def generatedIn (header source : ByteArray) : Workspace where
  tree := ((FileTree.empty.insert ["o"] (.directory directoryMode)).insert ["t.h", "o"]
    (.file header fileMode)).insert ["t.c", "o"] (.file source fileMode)
  workingDir := []

theorem readBytes_generatedIn (header source : ByteArray) :
    (generatedIn header source).readBytes "o/t.h" = .ok header ∧
      (generatedIn header source).readBytes "o/t.c" = .ok source :=
  ⟨rfl, rfl⟩

/-- A source that is shown as the generated one is reported without a line. -/
theorem check_generatedIn {as : Artifacts} {source : ByteArray} (hh : as.header.path "o" = "o/t.h")
    (hs : as.source.path "o" = "o/t.c") (hk : as.source.kind = .source)
    (hne : source ≠ as.source.bytes) (hshown : Text.lossyText source = as.source.contents) :
    (as.check "o" (generatedIn as.header.bytes source)).result =
      .error (.check "o/t.c" (.stale .source "")) := by
  obtain ⟨hheader, hsource⟩ := readBytes_generatedIn as.header.bytes source
  have hd : (generatedIn as.header.bytes source).isDirectory "o" = true := rfl
  have hsame : as.header.check (generatedIn as.header.bytes source) "o" = .ok () := by
    rw [Artifact.check_eq_ok_iff, hh, hheader]
  have hstale : as.source.check (generatedIn as.header.bytes source) "o" =
      .error (.stale .source "") := by
    have hdata : ¬ source.data = as.source.bytes.data := fun he => hne (ByteArray.ext he)
    unfold Artifact.check
    rw [hs, hsource]
    dsimp only
    rw [if_neg hdata, hshown, Diff.unified_self, hk]
  unfold Artifacts.check
  rw [if_pos hd]
  simp only [Artifacts.checkAll, Artifacts.toList, Artifacts.compareAll, hsame, hstale, hs]

/-- A source whose endpoint has a replacement character. -/
def unknownEndpoint : Artifacts := render [(oneMapping "n" "/\ufffd").record] "t"

theorem unknownEndpoint_accepted : ∀ d ∈ [oneMapping "n" "/\ufffd"], d.Accepted :=
  List.forall_mem_singleton.mpr (oneMapping_accepted (Schema.isName_iff.mp (by decide))
    (Schema.isEndpoint_iff.mp (by decide)))

theorem exists_shown_as_unknownEndpoint :
    ∃ source, source ≠ unknownEndpoint.source.bytes ∧
      Text.lossyText source = unknownEndpoint.source.contents := by
  have hclean := (unknownEndpoint_accepted _ List.mem_cons_self).clean
  apply (Text.exists_other_bytes_iff _).mpr
  exact (SourceText.mem_iff (List.forall_mem_singleton.mpr hclean) (by decide) (by decide)).mpr
    ⟨"/\ufffd", by decide, by decide⟩

/-- Some bytes other than those of the source are shown as the source, and the report of them is
empty. -/
theorem stale_report_shows_nothing :
    (∀ d ∈ [oneMapping "n" "/\ufffd"], d.Accepted) ∧ ∃ source,
      (unknownEndpoint.check "o" (generatedIn unknownEndpoint.header.bytes source)).result =
        .error (.check "o/t.c" (.stale .source "")) ∧
      source ≠ unknownEndpoint.source.bytes ∧ ¬ Diff.ShowsLine "t.c" "" ∧ ¬ source.IsValidUTF8 := by
  obtain ⟨source, hne, hshown⟩ := exists_shown_as_unknownEndpoint
  have hcheck : (unknownEndpoint.check "o" (generatedIn unknownEndpoint.header.bytes source)).result =
      .error (.check "o/t.c" (.stale .source "")) := check_generatedIn rfl rfl rfl hne hshown
  refine ⟨unknownEndpoint_accepted, source, hcheck, hne, ?_⟩
  obtain ⟨a, ha, existing, hkind, -, hread, -, hshows, hsilent, -⟩ :=
    @Artifacts.stale_report_shows_line_iff _ "t" _ _ _ _ _ unknownEndpoint_accepted hcheck
  cases (readBytes_generatedIn unknownEndpoint.header.bytes source).2.symm.trans hread
  rw [Artifacts.toList, List.mem_pair] at ha
  cases ha with
  | inl ha =>
    subst ha
    cases hkind
  | inr ha =>
    subst ha
    have hnone : ¬ Diff.ShowsLine "t.c" "" := fun hs => hshows.mp hs hshown
    exact ⟨hnone, (hsilent hnone).2⟩

end InterfaceTables
