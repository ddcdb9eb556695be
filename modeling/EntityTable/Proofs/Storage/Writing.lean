import EntityTable.Proofs.Storage.Artifact
import EntityTable.Proofs.Storage.Naming

/-!
How a write of an artifact can end, over all trees, targets and indentations. It leaves no trace
when it fails, but for two slips: a target that cannot be put to the system is not reported as a
fault of the artifact's, and an indentation that the machine cannot make leaves the temporary file
behind, be it beyond its integers or beyond its memory.
-/

namespace EntityTable.Storage

namespace Failure

/-- The artifact could not be stored, and the report says so. -/
def IsAboutArtifact : Failure → Prop
  | .overwritesInput _ | .noDirectory _ _ | .noTemporary _ _ | .notReplaced _ _
  | .notFinite _ _ | .tooManyDigits _ => True
  | _ => False

end Failure

/-- An indentation in columns beyond the machine's integers. -/
def Oversized (indent : Option Int) : Prop :=
  ∃ width ∈ indent, width < -Format.maxIndent - 1 ∨ Format.maxIndent < width

theorem layout_columns_eq_tooLarge_iff (memory : Memory) (indent : Option Int) (sortKeys : Bool) :
    (Format.mk (indent.map .columns) sortKeys).layout memory = .error .indentTooLarge ↔
      Oversized indent := by
  cases indent with
  | none => simp [Format.layout, Oversized]
  | some width =>
    simp only [Format.layout, Option.map_some, Oversized, Option.mem_some_iff, exists_eq_left']
    split
    · next hbeyond => exact iff_of_true rfl hbeyond
    · next hfits =>
      split
      · exact iff_of_false (by simp) hfits
      · exact iff_of_false (by simp) hfits

/-- The ends of a write: the tree that it leaves, and what is returned or raised. -/
inductive WriteEnds (memory : Memory) (tree : FileTree) (target : Path) (format : Format)
    (v : Json) : FileTree → Except Failure Unit → Prop
  /-- The file of the target has the artifact as the format asks for it, with nothing against it,
  and nothing else differs. -/
  | replaced {layout : Json.Layout} {later : FileTree} (asks : format.Asks layout)
      (indentable : ∀ failure, ¬Unindentable memory format v failure)
      (writable : ∀ failure, ¬Unwritable target v failure)
      (hreplaces : tree.Replaces later target.toText (format.encode layout v)) :
      WriteEnds memory tree target format v later (.ok ())
  /-- Nothing has changed, and the report is about the artifact. -/
  | refused {failure : Failure} (habout : failure.IsAboutArtifact) :
      WriteEnds memory tree target format v tree (.error failure)
  /-- Nothing has changed, but the report is not about the artifact. -/
  | unnameable {fault : ExternalFault} (hnames : ¬target.Nameable tree.workingDirectory) :
      WriteEnds memory tree target format v tree (.error (.refused (.notPath fault)))
  /-- The lines cannot be indented, and the temporary file is left. -/
  | stranded {failure : Failure} {temporary : Place} {bytes : List UInt8}
      (why : Unindentable memory format v failure) (hfree : tree.node? temporary = none) :
      WriteEnds memory tree target format v (tree.put temporary (.file bytes)) (.error failure)

variable {memory : Memory} {tree : FileTree} {target : Path} {format : Format} {v : Json}

/-- What becomes of a temporary file decides how the write ends. -/
theorem writeEnds_of_replaceEnds (hw : tree.WellPlaced) (ht : target.Plain) {temporary : Place}
    {opened later : FileTree} (hmade : tree.makeTemporary target = .ok (temporary, opened))
    {outcome : Except Failure Unit}
    (h : ReplaceEnds memory opened temporary target format v later outcome) :
    WriteEnds memory tree target format v later outcome := by
  obtain ⟨hfree, rfl, -⟩ := FileTree.makeTemporary_eq_ok hw ht hmade
  have hremoved (bytes : List UInt8) :
      ((tree.put temporary (.file [])).put temporary (.file bytes)).remove temporary = tree := by
    rw [FileTree.put_put, FileTree.remove_put_of_free hfree]
  cases h with
  | moved hlayout faultless hmoved =>
    refine .replaced (Format.asks_of_layout hlayout) (fun failure hline => ?_)
      (fun failure hvalue => ?_) (FileTree.replaces_of_moveOver hw ht hmade hmoved)
    · obtain ⟨fault, hfault⟩ := hline.exists_fault hlayout
      exact faultless fault hfault
    · cases hvalue with
      | notFinite hx => exact faultless _ (.notFinite hx)
      | tooManyDigits hlong => exact faultless _ (.integerTooLong hlong)
  | unmoved =>
    rw [hremoved]
    exact .refused trivial
  | removed why =>
    rw [hremoved]
    cases why with
    | notFinite | tooManyDigits => exact .refused trivial
  | left why =>
    rw [FileTree.put_put]
    exact .stranded why hfree
  | untouched why => exact .stranded why hfree

/-- An object has items to count, so a write that has moved its temporary file returns. -/
theorem writeJson_of_made {temporary : Place} {opened : FileTree}
    (hmade : tree.makeTemporary target = .ok (temporary, opened)) (memory : Memory)
    (format : Format) (members : Entries Json) :
    (writeJson memory tree target format (.object members)).tree =
        (replaceArtifact memory opened temporary target format (.object members)).1 ∧
      (writeJson memory tree target format (.object members)).result.outcome =
        (replaceArtifact memory opened temporary target format (.object members)).2 := by
  rw [writeJson, hmade]
  dsimp only
  split
  · next hreplace =>
    rw [hreplace]
    exact ⟨rfl, rfl⟩
  · next hreplace =>
    rw [hreplace]
    exact ⟨rfl, rfl⟩

theorem writeJson_of_not_made {fault : SystemFault} (h : tree.makeTemporary target = .error fault) :
    writeJson memory tree target format v =
      .fail tree (.aboutArtifact (.noTemporary target.toText) fault) := by
  rw [writeJson, h]

theorem writeJson_writeEnds (hw : tree.WellPlaced) (ht : target.Plain) (memory : Memory)
    (format : Format) (members : Entries Json) :
    WriteEnds memory tree target format (.object members)
      (writeJson memory tree target format (.object members)).tree
      (writeJson memory tree target format (.object members)).result.outcome := by
  cases hmade : tree.makeTemporary target with
  | ok made =>
    have hwrite := writeJson_of_made hmade memory format members
    rw [hwrite.1, hwrite.2]
    exact writeEnds_of_replaceEnds hw ht hmade (replaceArtifact_replaceEnds ..)
  | error fault =>
    rw [writeJson_of_not_made hmade]
    cases fault with
    | answered e path => exact .refused trivial
    | notPath f =>
      apply WriteEnds.unnameable
      intro hnames
      rcases FileTree.makeTemporary_eq_error hmade with ⟨_, -, hnot⟩ | ⟨e, path, heq⟩
      · exact hnot hnames
      · cases heq

/-- What a write that returns has written. -/
theorem writeJson_eq_ok (hw : tree.WellPlaced) (ht : target.Plain) {members : Entries Json}
    (h : (writeJson memory tree target format (.object members)).result.outcome = .ok ()) :
    ∃ layout, (∀ failure, ¬Unwritable target (.object members) failure) ∧
      tree.Replaces (writeJson memory tree target format (.object members)).tree target.toText
        (format.encode layout (.object members)) := by
  have hends := writeJson_writeEnds hw ht memory format members
  generalize (writeJson memory tree target format (.object members)).tree = later at hends ⊢
  rw [h] at hends
  cases hends with
  | replaced asks indentable writable hreplaces => exact ⟨_, writable, hreplaces⟩

namespace WriteEnds

variable {later : FileTree}

theorem not_nameable {fault : SystemFault}
    (h : WriteEnds memory tree target format v later (.error (.refused fault))) :
    ¬target.Nameable tree.workingDirectory := by
  cases h with
  | refused habout => exact absurd habout id
  | unnameable hnames => exact hnames
  | stranded why => cases why

theorem oversized (h : WriteEnds memory tree target format v later (.error .indentTooLarge)) :
    format.layout memory = .error .indentTooLarge := by
  cases h with
  | refused habout => exact absurd habout id
  | stranded why =>
    cases why with
    | oversized columns hbeyond => simp [Format.layout, columns, hbeyond]

end WriteEnds

/-- Only a target that has no name outside is refused as no path. -/
theorem writeJson_eq_notPath_iff {members : Entries Json}
    (h : WriteEnds memory tree target format (.object members)
      (writeJson memory tree target format (.object members)).tree
      (writeJson memory tree target format (.object members)).result.outcome) :
    (∃ fault, (writeJson memory tree target format (.object members)).result.outcome =
      .error (.refused (.notPath fault))) ↔ ¬target.Nameable tree.workingDirectory := by
  constructor
  · intro hrefused
    cases hrefused with
    | intro fault hfault =>
      rw [hfault] at h
      exact h.not_nameable
  · intro hnames
    obtain ⟨f, hf⟩ := FileTree.makeTemporary_of_not_nameable hnames
    rw [writeJson_of_not_made hf]
    exact ⟨f, rfl⟩

/-- The layout is asked for once there is a temporary file. -/
theorem writeJson_of_no_layout {failure : Failure} (hlayout : format.layout memory = .error failure)
    (hmade : (tree.makeTemporary target).isOk = true) (members : Entries Json) :
    (writeJson memory tree target format (.object members)).result.outcome = .error failure := by
  cases hm : tree.makeTemporary target with
  | ok made => rw [(writeJson_of_made hm memory format members).2, replaceArtifact, hlayout]
  | error fault =>
    rw [hm] at hmade
    cases hmade

theorem writeJson_eq_tooLarge_iff {members : Entries Json}
    (h : WriteEnds memory tree target format (.object members)
      (writeJson memory tree target format (.object members)).tree
      (writeJson memory tree target format (.object members)).result.outcome) :
    (writeJson memory tree target format (.object members)).result.outcome =
        .error .indentTooLarge ↔
      format.layout memory = .error .indentTooLarge ∧
        (tree.makeTemporary target).isOk = true := by
  constructor
  · intro hlarge
    rw [hlarge] at h
    refine ⟨h.oversized, ?_⟩
    cases hmade : tree.makeTemporary target with
    | ok made => rfl
    | error fault =>
      rw [writeJson_of_not_made hmade] at hlarge
      cases fault <;> cases hlarge
  · exact fun hboth => writeJson_of_no_layout hboth.1 hboth.2 members

/-- A value that can be written but for its lines is not written. -/
theorem exists_unindentable_of_writeJson {members : Entries Json}
    (hmade : (tree.makeTemporary target).isOk = true)
    (hfinite : (Json.object members).nonFinite = [])
    (hshort : (Json.object members).Throughout Json.ShortInteger)
    (h : ∃ failure, Unindentable memory format (.object members) failure) :
    ∃ failure, Unindentable memory format (.object members) failure ∧
      (writeJson memory tree target format (.object members)).result.outcome = .error failure := by
  obtain ⟨failure, hwhy⟩ := h
  cases hm : tree.makeTemporary target with
  | error fault =>
    rw [hm] at hmade
    cases hmade
  | ok made =>
    rw [(writeJson_of_made hm memory format members).2]
    have hends := replaceArtifact_replaceEnds memory made.2 made.1 target format (.object members)
    generalize replaceArtifact memory made.2 made.1 target format (.object members) = replaced
      at hends
    obtain ⟨later, outcome⟩ := replaced
    cases hends with
    | moved hlayout faultless | unmoved hlayout faultless =>
      obtain ⟨fault, hfault⟩ := hwhy.exists_fault hlayout
      exact absurd hfault (faultless fault)
    | removed why =>
      cases why with
      | notFinite hx =>
        rw [hfinite] at hx
        cases hx
      | tooManyDigits hlong => exact absurd hshort hlong
    | left why | untouched why => exact ⟨_, why, rfl⟩

/-- An empty table in a working directory. -/
def quayside : FileTree :=
  ⟨[(["quay"], .directory), (["quay", "raw.json"], .file (Text.toUtf8 "\x7b \x7d"))], ["quay"]⟩

theorem wellPlaced_quayside : quayside.WellPlaced := by
  intro name hn
  rw [List.mem_singleton.mp hn]
  exact ⟨⟨⟨by decide, by decide, by decide⟩, by decide⟩, by decide +kernel⟩

/-- A memory for lines of a mebibyte. -/
def mebibyte : Memory := ⟨0x100000, by decide⟩

/-- A write of an object to any target leaves nothing behind when it fails, unless its lines cannot
be indented, and says that the artifact is at fault, unless the target has no name outside. An
object that can be written but for its lines is not written if they cannot be indented. -/
theorem writeJson_ends (memory : Memory) (tree : FileTree) (hw : tree.WellPlaced) (target : Text)
    (indent : Option Int) (sortKeys : Bool) (members : Entries Json) :
    WriteEnds memory tree (.ofText target) ⟨indent.map .columns, sortKeys⟩ (.object members)
        (writeJson memory tree (.ofText target) ⟨indent.map .columns, sortKeys⟩
          (.object members)).tree
        (writeJson memory tree (.ofText target) ⟨indent.map .columns, sortKeys⟩
          (.object members)).result.outcome ∧
      ((∃ fault, (writeJson memory tree (.ofText target) ⟨indent.map .columns, sortKeys⟩
          (.object members)).result.outcome = .error (.refused (.notPath fault))) ↔
        ¬(Path.ofText target).Nameable tree.workingDirectory) ∧
      ((writeJson memory tree (.ofText target) ⟨indent.map .columns, sortKeys⟩
          (.object members)).result.outcome = .error .indentTooLarge ↔
        Oversized indent ∧ (tree.makeTemporary (.ofText target)).isOk = true) ∧
      ((tree.makeTemporary (.ofText target)).isOk = true →
        (Json.object members).nonFinite = [] →
        (Json.object members).Throughout Json.ShortInteger →
        (∃ failure, Unindentable memory ⟨indent.map .columns, sortKeys⟩ (.object members)
          failure) →
        ∃ failure, Unindentable memory ⟨indent.map .columns, sortKeys⟩ (.object members) failure ∧
          (writeJson memory tree (.ofText target) ⟨indent.map .columns, sortKeys⟩
            (.object members)).result.outcome = .error failure) := by
  have hends := writeJson_writeEnds hw (Path.plain_ofText target) memory
    ⟨indent.map .columns, sortKeys⟩ members
  refine ⟨hends, writeJson_eq_notPath_iff hends, ?_, exists_unindentable_of_writeJson⟩
  rw [writeJson_eq_tooLarge_iff hends, layout_columns_eq_tooLarge_iff]

/-- The input of the quayside is replaced. -/
theorem writeJson_quayside : quayside.WellPlaced ∧
    (writeJson mebibyte quayside "raw.json" ⟨some (.columns 2), true⟩
      (.object [])).result.outcome.isOk ∧
    WriteEnds mebibyte quayside "raw.json" ⟨some (.columns 2), true⟩ (.object [])
      (writeJson mebibyte quayside "raw.json" ⟨some (.columns 2), true⟩ (.object [])).tree
      (writeJson mebibyte quayside "raw.json" ⟨some (.columns 2), true⟩
        (.object [])).result.outcome :=
  ⟨wellPlaced_quayside, by decide +kernel,
    (writeJson_ends mebibyte quayside wellPlaced_quayside "raw.json" (some 2) true []).1⟩

/-- An indentation of 2 ^ 63 leaves a temporary file, one of a column less cannot be held and leaves
it too, and a null in the name of the target is not reported as the artifact's fault. -/
theorem writeJson_traces : quayside.WellPlaced ∧
    (writeJson mebibyte quayside "all.json" ⟨some (.columns 0x8000000000000000), false⟩
      (.object [])).result.outcome = .error .indentTooLarge ∧
    ¬Failure.IsAboutArtifact .indentTooLarge ∧
    (writeJson mebibyte quayside "all.json" ⟨some (.columns 0x8000000000000000), false⟩
      (.object [])).tree.read ".all.json.00000000.tmp" = .ok [] ∧
    (writeJson mebibyte quayside "all.json" ⟨some (.columns 0x7FFFFFFFFFFFFFFF), false⟩
      (.object [])).result.outcome = .error .notHeld ∧
    ¬Failure.IsAboutArtifact .notHeld ∧
    (writeJson mebibyte quayside "all.json" ⟨some (.columns 0x7FFFFFFFFFFFFFFF), false⟩
      (.object [])).tree.read ".all.json.00000000.tmp" = .ok [] ∧
    (∃ fault, (writeJson mebibyte quayside (.ofText (Text.ofString "all\x00.json")) ⟨none, false⟩
      (.object [])).result.outcome = .error (.refused (.notPath fault))) ∧
    ∀ fault, ¬Failure.IsAboutArtifact (.refused fault) := by
  have hmade : (quayside.makeTemporary "all.json").isOk = true := by decide +kernel
  refine ⟨wellPlaced_quayside, writeJson_of_no_layout rfl hmade [], id, by decide +kernel,
    writeJson_of_no_layout rfl hmade [], id, by decide +kernel, ?_, fun _ => id⟩
  apply (writeJson_eq_notPath_iff (writeJson_writeEnds wellPlaced_quayside (Path.plain_ofText _)
    mebibyte ⟨none, false⟩ [])).mpr
  decide +kernel

end EntityTable.Storage
