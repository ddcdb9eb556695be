import EntityTable.Proofs.Storage.Compiling

/-!
Compiling one file to another stores the whole artifact or leaves every file as it was, up to the
directories that were asked for. The exception is a machine that cannot hold the indentation of the
artifact's lines, where a temporary file is left.
-/

namespace EntityTable.Storage

/-- A tree after a file was compiled to another, and the outcome. -/
structure AllOrNothing (memory : Memory) (tree : FileTree) (input output : Text) (format : Format)
    (x : Outcome Table) : Prop where
  /-- The output has the artifact of the whole table, and no other file has changed. -/
  returned : ∀ table, x.result.outcome = .ok table → Compiles tree input output table ∧
    ∃ layout place, format.Asks layout ∧
      x.tree.read (Path.ofText output).toText = .ok (format.encode layout table.toJson) ∧
      x.tree.placeOf (Path.ofText output).toText = .ok place ∧
      ∀ other, other ≠ place → ∀ bytes,
        x.tree.node? other = some (.file bytes) ↔ tree.node? other = some (.file bytes)
  /-- No file has changed or is new, and no directory either unless the table has compiled. Or the
  table has compiled, the machine cannot hold how far its lines are indented, and one temporary file
  is new. -/
  raised : ∀ failure, x.result.outcome = .error failure →
    (∀ place bytes,
      x.tree.node? place = some (.file bytes) ↔ tree.node? place = some (.file bytes)) ∧
      ((∃ table, Compiles tree input output table) ∨ x.tree = tree) ∨
    ∃ table temporary, Compiles tree input output table ∧
      Unindentable memory format table.toJson failure ∧
      (failure = .notHeld ∨ failure = .lineTooLong) ∧ tree.node? temporary = none ∧
      ∀ place, place ≠ temporary → ∀ bytes,
        x.tree.node? place = some (.file bytes) ↔ tree.node? place = some (.file bytes)
  /-- The input is as it was, where no name on the paths is spelled in another way than the system
  spells it. -/
  input : (∀ part ∈ (Path.ofText input).parts ++ (Path.ofText output).parts,
    part.external = part) → x.tree.read input = tree.read input

variable {memory : Memory} {tree : FileTree} {input output : Text} {format : Format} {table : Table}

theorem exists_read_of_compiles (h : Compiles tree input output table) :
    ∃ bytes, tree.read input = .ok bytes := by
  obtain ⟨authored, hload, -⟩ := h.compiled
  obtain ⟨bytes, hread, -⟩ := bind_eq_ok_iff.mp hload
  exact ⟨bytes, mapError_eq_ok_iff.mp hread⟩

/-- A file is read as before if its place is none of those that have changed. -/
theorem read_of_keepsDirectories {later : FileTree} (h : tree.KeepsDirectories later) {path : Text}
    {bytes : List UInt8} (hread : tree.read path = .ok bytes)
    (hkept : ∀ place, tree.placeOf path = .ok place → tree.node? place = some (.file bytes) →
      later.node? place = some (.file bytes)) : later.read path = .ok bytes := by
  obtain ⟨hfault, place, hplace, hnode⟩ := FileTree.read_eq_ok_iff.mp hread
  exact FileTree.read_eq_ok_iff.mpr ⟨hfault, place, h.placeOf hplace, hkept place hplace hnode⟩

/-- Paths that the guard tells apart lead to different places, if their names are spelled as the
system spells them. -/
theorem place_ne_of_apart (hw : tree.WellPlaced)
    (hapart : samePlace tree (.ofText input) (.ofText output) = false)
    (hspelled : ∀ part ∈ (Path.ofText input).parts ++ (Path.ofText output).parts,
      part.external = part) {later : FileTree}
    (hlater : later.workingDirectory = tree.workingDirectory) {place place' : Place}
    (hinput : tree.placeOf input = .ok place)
    (houtput : later.placeOf (Path.ofText output).toText = .ok place') : place ≠ place' := by
  have hplaced : later.WellPlaced := by rwa [FileTree.WellPlaced, hlater]
  have hin := FileTree.placeOf_eq_ok hw hinput
  have hout := FileTree.placeOf_eq_ok hplaced houtput
  rw [FileTree.map_external_locate hw fun part hp => hspelled part (List.mem_append_left _ hp)]
    at hin
  rw [Path.ofText_toText (Path.plain_ofText output), hlater,
    FileTree.map_external_locate hw fun part hp => hspelled part (List.mem_append_right _ hp)]
    at hout
  rw [hin, hout]
  exact of_decide_eq_false hapart

section Stranded

variable {prepared : FileTree} (hadds : tree.AddsDirectories prepared) {temporary : Place}
  (hfree : prepared.node? temporary = none) (left : List UInt8)

include hadds hfree

theorem free_of_addsDirectories : tree.node? temporary = none := by
  rcases hadds.node? temporary with heq | ⟨hnone, -⟩
  · exact heq ▸ hfree
  · exact hnone

theorem file_iff_of_stranded {place : Place} (hplace : place ≠ temporary) (bytes : List UInt8) :
    (prepared.put temporary (.file left)).node? place = some (.file bytes) ↔
      tree.node? place = some (.file bytes) := by
  rw [FileTree.node?_put prepared (FileTree.ne_root_of_free hfree), if_neg hplace]
  exact hadds.file_iff place bytes

theorem keepsDirectories_of_stranded :
    tree.KeepsDirectories (prepared.put temporary (.file left)) := by
  refine hadds.keepsDirectories.trans ⟨rfl, fun place hd => ?_⟩
  have hne : place ≠ temporary := by
    rintro rfl
    simp [FileTree.isDirectory, hfree] at hd
  rw [FileTree.isDirectory, FileTree.node?_put prepared (FileTree.ne_root_of_free hfree),
    if_neg hne]
  exact hd

end Stranded

/-- An indentation within the machine's integers fails for want of room alone. -/
theorem Unindentable.notHeld_or_lineTooLong {v : Json} {failure : Failure}
    (h : Unindentable memory format v failure)
    (hindent : ∀ indent ∈ format.indent, ∃ width : Int,
      indent = .columns width ∧ width.natAbs < 0x8000000000000000) :
    failure = .notHeld ∨ failure = .lineTooLong := by
  cases h with
  | blank hblank =>
    obtain ⟨width, hcolumns, -⟩ := hindent _ hblank
    cases hcolumns
  | oversized columns hbeyond =>
    obtain ⟨width, hcolumns, hwidth⟩ := hindent _ columns
    obtain rfl := Indent.columns.inj hcolumns
    unfold Format.maxIndent at hbeyond
    omega
  | level | line => exact .inl rfl
  | endless => exact .inr rfl

section Input

variable {prepared later : FileTree} (compiles : Compiles tree input output table)
  (hadds : tree.AddsDirectories prepared)

include compiles hadds

theorem read_of_addsDirectories : prepared.read input = tree.read input := by
  obtain ⟨bytes, hbytes⟩ := exists_read_of_compiles compiles
  rw [hbytes]
  exact read_of_keepsDirectories hadds.keepsDirectories hbytes fun place _ hnode =>
    (hadds.file_iff place bytes).mpr hnode

/-- The place that is replaced is not that of the input, which the guard tells apart from it. -/
theorem read_of_replaces (hw : tree.WellPlaced)
    (hspelled : ∀ part ∈ (Path.ofText input).parts ++ (Path.ofText output).parts,
      part.external = part) {text : List UInt8}
    (hreplaces : prepared.Replaces later (Path.ofText output).toText text) :
    later.read input = tree.read input := by
  obtain ⟨bytes, hbytes⟩ := exists_read_of_compiles compiles
  obtain ⟨place', hplace', -, hothers⟩ := hreplaces.others
  have hkeeps : tree.KeepsDirectories later :=
    hadds.keepsDirectories.trans hreplaces.keepsDirectories
  rw [hbytes]
  refine read_of_keepsDirectories hkeeps hbytes fun place hplace hnode => ?_
  have hne : place ≠ place' :=
    place_ne_of_apart hw compiles.apart hspelled hkeeps.workingDirectory hplace hplace'
  rw [hothers place hne]
  exact (hadds.file_iff place bytes).mpr hnode

/-- The place of the file that is left was free, so it is not that of the input. -/
theorem read_of_stranded {temporary : Place} (hfree : prepared.node? temporary = none)
    (left : List UInt8) : (prepared.put temporary (.file left)).read input = tree.read input := by
  obtain ⟨bytes, hbytes⟩ := exists_read_of_compiles compiles
  rw [hbytes]
  refine read_of_keepsDirectories (keepsDirectories_of_stranded hadds hfree left) hbytes
    fun place _ hnode => ?_
  have hne : place ≠ temporary := by
    rintro rfl
    rw [free_of_addsDirectories hadds hfree] at hnode
    cases hnode
  exact (file_iff_of_stranded hadds hfree left hne bytes).mpr hnode

end Input

/-- However a compilation ends, it is all or nothing. -/
theorem CompileEnds.allOrNothing (hw : tree.WellPlaced)
    (hindent : ∀ indent ∈ format.indent, ∃ width : Int,
      indent = .columns width ∧ width.natAbs < 0x8000000000000000) {x : Outcome Table}
    (h : CompileEnds memory tree input output format x.tree x.result.outcome) :
    AllOrNothing memory tree input output format x := by
  obtain ⟨later, log, outcome⟩ := x
  cases h with
  | @stored table layout prepared _ compiles adds asks replaces =>
    refine ⟨?_, nofun, fun hspelled => read_of_replaces compiles adds hw hspelled replaces⟩
    intro result h
    obtain rfl := Except.ok.inj h
    obtain ⟨place, hplace, -, hothers⟩ := replaces.others
    refine ⟨compiles, layout, place, asks, replaces.read, hplace, ?_⟩
    intro other hother bytes
    rw [hothers other hother]
    exact adds.file_iff other bytes
  | reported wrong adds early =>
    refine ⟨nofun, fun failure _ => .inl ⟨adds.file_iff, early⟩, fun _ => ?_⟩
    rcases early with ⟨table, compiles⟩ | rfl
    · exact read_of_addsDirectories compiles adds
    · rfl
  | unreported wrong =>
    exact ⟨nofun, fun failure _ => .inl ⟨fun _ _ => Iff.rfl, .inr rfl⟩, fun _ => rfl⟩
  | unnameable compiles adds hnames =>
    exact ⟨nofun, fun failure _ => .inl ⟨adds.file_iff, .inl ⟨_, compiles⟩⟩,
      fun _ => read_of_addsDirectories compiles adds⟩
  | @stranded table prepared temporary bytes failure compiles adds why free =>
    refine ⟨nofun, fun failure h => .inr ?_, fun _ => read_of_stranded compiles adds free bytes⟩
    obtain rfl := Except.error.inj h
    exact ⟨table, temporary, compiles, why, why.notHeld_or_lineTooLong hindent,
      free_of_addsDirectories adds free,
      fun place hplace => file_iff_of_stranded adds free _ hplace⟩

/-- Compiling a file to another stores the whole artifact or leaves every file as it was, but for
one temporary file where the machine cannot hold the indentation of the artifact's lines. -/
theorem compileFile_allOrNothing (memory : Memory) (tree : FileTree) (hw : tree.WellPlaced)
    (input output : Text) (format : Format) (hindent : ∀ indent ∈ format.indent, ∃ width : Int,
      indent = .columns width ∧ width.natAbs < 0x8000000000000000) (makeDirs : Bool) :
    AllOrNothing memory tree input output format
      (compileFile memory tree input output format makeDirs) :=
  (compileFile_ends hw memory input output format makeDirs).allOrNothing hw hindent

/-- The table is compiled to a directory that is made for it. -/
theorem compileFile_quayside : quayside.WellPlaced ∧
    (compileFile mebibyte quayside "raw.json" "build/all.json" ⟨none, false⟩
      true).result.outcome.isOk ∧
    AllOrNothing mebibyte quayside "raw.json" "build/all.json" ⟨none, false⟩
      (compileFile mebibyte quayside "raw.json" "build/all.json" ⟨none, false⟩ true) ∧
    (compileFile mebibyte quayside "raw.json" "build/all.json" ⟨none, false⟩ true).tree.read
      "build/all.json" = .ok (Text.toUtf8 "\x7b\x7d") :=
  ⟨wellPlaced_quayside, by decide +kernel,
    compileFile_allOrNothing mebibyte quayside wellPlaced_quayside "raw.json" "build/all.json"
      ⟨none, false⟩ (by simp) true,
    by decide +kernel⟩

/-- The name of `é.json` with its two bytes beyond ASCII escaped. -/
def escapedName : Text :=
  CodePoint.escapeOfByte 0xC3 :: CodePoint.escapeOfByte 0xA9 :: Text.ofString ".json"

def aliased : FileTree := ⟨[(["é.json"], .file (Text.toUtf8 "\x7b \x7d"))], []⟩

/-- The guard compares texts, so it misses an output that is the input by another spelling. -/
theorem compileFile_aliased : aliased.WellPlaced ∧
    aliased.read "é.json" = .ok (Text.toUtf8 "\x7b \x7d") ∧
    (compileFile mebibyte aliased "é.json" escapedName ⟨none, false⟩ false).result.outcome.isOk ∧
    (compileFile mebibyte aliased "é.json" escapedName ⟨none, false⟩ false).tree.read "é.json" =
      .ok (Text.toUtf8 "\x7b\x7d") := by
  have hw : aliased.WellPlaced := by
    intro name hn
    cases hn
  exact ⟨hw, by decide +kernel, by decide +kernel, by decide +kernel⟩

end EntityTable.Storage
