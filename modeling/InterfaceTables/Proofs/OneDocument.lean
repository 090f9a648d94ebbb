import InterfaceTables.Proofs.AcceptedNames
import InterfaceTables.Proofs.Discovery
import InterfaceTables.Proofs.Identifiers

/-!
A directory in which one file is a document: what is found there, and what is generated from it.
-/

namespace InterfaceTables

namespace Workspace

variable {ws : Workspace} {dir p : Path} {loc : Location} {names : List String} {text : String}
  {contents : ByteArray} {mode : Nat}

theorem readBytes_of_stat (h : ws.stat p = .ok (loc, .file contents mode)) :
    ws.readBytes p = if mayRead mode then .ok contents else .error .denied := by
  simp [readBytes, h]

theorem readText_of_stat (hs : ws.stat p = .ok (loc, .file text.toUTF8 mode))
    (hm : mayRead mode = true) : ws.readText p = .ok text := by
  have htext : String.fromUTF8? text.toUTF8 = some text := dif_pos text.isValidUTF8
  simp only [readText, readBytes_of_stat hs, hm, if_true, htext]

/-- The documents of a directory whose names stand in their order. -/
theorem discover_of_names (hs : ws.stat dir = .ok (loc, .directory mode)) (hr : mayRead mode = true)
    (hn : ws.tree.names loc = names) (hsorted : names.Pairwise fun a b => decide (a ≤ b))
    (extension : String) :
    ws.discover dir extension = .ok ((names.filter fun name =>
      ws.isFile (dir.join name) && Path.extension? name == some extension).map dir.join) := by
  have hlisted : ws.tree.sortedNames loc = names := by
    rw [FileTree.sortedNames, hn, List.mergeSort_of_pairwise hsorted]
  simp only [discover, list_eq_ok_iff.mpr ⟨mode, hs, hr, hlisted.symm⟩]

theorem loadDirectory_of_one {load : LoadOptions}
    (h : ws.discover dir load.extension = .ok [p]) :
    ws.loadDirectory dir load = (ws.loadFile load p).map fun d => [d] := by
  unfold loadDirectory
  rw [h]
  show (ws.loadFile load p >>= fun d => _) = _
  cases ws.loadFile load p <;> rfl

end Workspace

namespace RunOptions

variable {o : RunOptions} {ws : Workspace} {p : Path}

theorem prepare_of_load {documents : List Document}
    (hload : ws.loadDirectory o.schemaDir o.load = .ok documents)
    (hclash : Collision.find? (documents.map Document.record) = none) :
    o.prepare ws = .ok (documents.length, render (documents.map Document.record) o.baseName) := by
  simp [prepare, hload, compile, hclash]

theorem prepare_of_loadFile_error {e : SchemaError}
    (hd : ws.discover o.schemaDir o.load.extension = .ok [p]) (hfile : ws.loadFile o.load p = .error e) :
    o.prepare ws = .error (.schema e) := by
  simp [prepare, Workspace.loadDirectory_of_one hd, hfile, Except.map]

end RunOptions

/-! ## The document with one mapping -/

/-- The record of the document with one mapping that is read from a file. -/
def oneRecord (p : Path) : InterfaceRecord := Document.record { oneMapping "n" "/v" with source := p }

theorem find?_oneRecord (p : Path) : Collision.find? [oneRecord p] = none := by
  -- Which file it is read from makes no difference to the identifiers.
  have hnodup : ([(oneMapping "n" "/v").record].flatMap InterfaceRecord.identifiers).Nodup := by decide
  exact Collision.find?_eq_none_iff.mpr hnodup

theorem describes_oneMapping (p : Path) :
    Schema.DescribesDocument true p (OneMapping.fields "n" "/v")
      { oneMapping "n" "/v" with source := p } :=
  { OneMapping.describes (Schema.isName_iff.mp (by decide)) (Schema.isEndpoint_iff.mp (by decide)) with
    source := rfl }

theorem parse_oneMapping (p : Path) :
    Document.parse true p (OneMapping.text "n" "/v") = .ok { oneMapping "n" "/v" with source := p } :=
  Document.parse_of_describes (OneMapping.parse_text (.literal (by decide)) (.literal (by decide)))
    (describes_oneMapping p)

theorem Workspace.loadFile_oneMapping (ws : Workspace) {p : Path} {loc : Location} {mode : Nat}
    {load : LoadOptions} (hfile : ws.stat p = .ok (loc, .file (OneMapping.text "n" "/v").toUTF8 mode))
    (hr : mayRead mode = true) (hdefaults : load.applyDefaults = true) :
    ws.loadFile load p = .ok { oneMapping "n" "/v" with source := p } := by
  simp only [loadFile, readText_of_stat hfile hr, hdefaults, parse_oneMapping]

theorem Workspace.loadDirectory_oneMapping {ws : Workspace} {dir p : Path} {loc : Location} {mode : Nat}
    {load : LoadOptions} (hd : ws.discover dir load.extension = .ok [p])
    (hfile : ws.stat p = .ok (loc, .file (OneMapping.text "n" "/v").toUTF8 mode))
    (hr : mayRead mode = true) (hdefaults : load.applyDefaults = true) :
    ws.loadDirectory dir load = .ok [{ oneMapping "n" "/v" with source := p }] := by
  rw [loadDirectory_of_one hd, ws.loadFile_oneMapping hfile hr hdefaults]
  rfl

theorem RunOptions.prepare_oneMapping {o : RunOptions} {ws : Workspace} {p : Path} {loc : Location}
    {mode : Nat} (hd : ws.discover o.schemaDir o.load.extension = .ok [p])
    (hfile : ws.stat p = .ok (loc, .file (OneMapping.text "n" "/v").toUTF8 mode))
    (hr : mayRead mode = true) (hdefaults : o.load.applyDefaults = true) :
    o.prepare ws = .ok (1, render [oneRecord p] o.baseName) :=
  prepare_of_load (Workspace.loadDirectory_oneMapping hd hfile hr hdefaults) (find?_oneRecord p)

end InterfaceTables
