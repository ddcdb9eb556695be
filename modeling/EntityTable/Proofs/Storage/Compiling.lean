import EntityTable.Proofs.Reports
import EntityTable.Proofs.Storage.Loading
import EntityTable.Proofs.Storage.Writing

/-!
How compiling a file to another can end: with the artifact in place, with a report of what is wrong,
or with a failure that is no report.
-/

namespace EntityTable

/-- A table that has been read does not compile for want of a length or along the references. -/
theorem Authored.Table.compile_eq_error {authored : Authored.Table} {failure : Failure}
    (h : authored.compile.outcome = .error failure) :
    (∃ owner derived subtype, failure = .lengthMissing owner derived subtype) ∨
      failure.IsReference := by
  simp only [compile, Logged.outcome_bind] at h
  rcases bind_eq_error_iff.mp h with hcompiled | ⟨normalized, -, h⟩
  · exact .inl (lengthMissing_of_compileEach hcompiled)
  rcases bind_eq_error_iff.mp h with hattached | ⟨resolved, -, h⟩
  · right
    rw [EntityTable.Table.attachInherited,
      Resolver.outcome_attachAll (Resolver.ready_ofTable normalized)] at hattached
    obtain ⟨before, entry, after, hsplit, -, hfails⟩ := mapM_eq_error_iff.mp hattached
    have hkey : entry.1 ∈ normalized.keys := by simp [hsplit, Entries.keys]
    exact EntityTable.Table.isReference_of_collect hkey (map_eq_error_iff.mp hfails)
  · cases h

theorem Authored.Table.exists_diagnostic_of_compile {authored : Authored.Table} {failure : Failure}
    (h : authored.compile.outcome = .error failure) :
    ∃ diagnostic, failure.diagnostic? = some diagnostic := by
  rcases compile_eq_error h with ⟨_, _, _, rfl⟩ | hreference
  · exact ⟨_, rfl⟩
  · rcases hreference with ⟨_, _, _, rfl⟩ | ⟨_, rfl⟩
    · exact ⟨_, rfl⟩
    · exact ⟨_, rfl⟩

namespace Storage

/-! ### Steps of compiling a file -/

theorem Outcome.tree_andThen {α β : Type} {x : Outcome α} {a : α} (h : x.result.outcome = .ok a)
    (f : FileTree → α → Outcome β) : (x.andThen f).tree = (f x.tree a).tree := by
  rw [andThen, h]

theorem Outcome.tree_andThen_of_error {α β : Type} {x : Outcome α} {failure : Failure}
    (h : x.result.outcome = .error failure) (f : FileTree → α → Outcome β) :
    (x.andThen f).tree = x.tree := by
  rw [andThen, h]

theorem Outcome.outcome_andThen {α β : Type} {x : Outcome α} {a : α} (h : x.result.outcome = .ok a)
    (f : FileTree → α → Outcome β) :
    (x.andThen f).result.outcome = (f x.tree a).result.outcome := by
  rw [andThen, h]

/-- What returns a value at the end does nothing else. -/
theorem Outcome.andThen_return {α β : Type} (x : Outcome α) (value : β) :
    (x.andThen fun tree _ => (⟨tree, pure value⟩ : Outcome β)).tree = x.tree ∧
      (x.andThen fun tree _ => (⟨tree, pure value⟩ : Outcome β)).result.outcome =
        x.result.outcome.map fun _ => value := by
  rw [Outcome.andThen]
  cases x.result.outcome with
  | error failure => exact ⟨rfl, rfl⟩
  | ok a => exact ⟨rfl, rfl⟩

theorem addsDirectories_prepareDirectory (tree : FileTree) (output : Text) (wanted : Bool) :
    tree.AddsDirectories (prepareDirectory tree output wanted).tree := by
  unfold prepareDirectory
  split
  · exact .refl tree
  · exact FileTree.addsDirectories_ensureDirectories ..

/-- Two paths have places of their own, and the table at the first compiles. -/
structure Compiles (tree : FileTree) (input output : Text) (table : Table) : Prop where
  inputPath : (Path.ofText input).externalFault? = none
  outputPath : (Path.ofText output).externalFault? = none
  apart : samePlace tree (.ofText input) (.ofText output) = false
  compiled : ∃ authored, loadTable tree input = .ok authored ∧
    authored.compile.outcome = .ok table

/-- What is left to do with a compiled table. -/
def store (memory : Memory) (output : Text) (format : Format) (makeDirs : Bool) (tree : FileTree)
    (table : Table) : Outcome Table :=
  (prepareDirectory tree output makeDirs).andThen fun tree () =>
    (writeJson memory tree (.ofText output) format table.toJson).andThen fun tree () =>
      ⟨tree, pure table⟩

section Steps

variable {memory : Memory} {tree : FileTree} {input output : Text} {format : Format}
  {makeDirs : Bool} {table : Table}

/-- The outcome of loading and compiling. -/
theorem outcome_loadCompile : (do
      let authored ← loadTable tree input
      authored.compile.mapError .uncompiled : Logged Failure Table).outcome = .ok table ↔
    ∃ authored, loadTable tree input = .ok authored ∧ authored.compile.outcome = .ok table := by
  rw [Logged.outcome_bind, bind_eq_ok_iff]
  refine exists_congr fun authored => and_congr Iff.rfl ?_
  exact mapError_eq_ok_iff

theorem compileFile_eq_store (h : Compiles tree input output table) :
    (compileFile memory tree input output format makeDirs).tree =
        (store memory output format makeDirs tree table).tree ∧
      (compileFile memory tree input output format makeDirs).result.outcome =
        (store memory output format makeDirs tree table).result.outcome := by
  have hcompiled := outcome_loadCompile.mpr h.compiled
  simp only [compileFile, h.inputPath, h.outputPath, h.apart, Option.or_none, Bool.false_eq_true,
    if_false]
  rw [Outcome.andThen, hcompiled]
  exact ⟨rfl, rfl⟩

end Steps

/-! ### The ends -/

/-- What is wrong when a report is made. -/
inductive Wrong (memory : Memory) (tree : FileTree) (input output : Text) (format : Format) :
    Failure → Prop
  | clash (same : samePlace tree (.ofText input) (.ofText output) = true) :
      Wrong memory tree input output format (.overwritesInput output)
  | missing (absent : tree.read input = .error (.answered .noEntry input)) :
      Wrong memory tree input output format (.refused (.answered .noEntry input))
  | malformed {bytes : List UInt8} {cause : EntityTable.Failure}
      (read : tree.read input = .ok bytes) (malforms : Malforms input bytes cause) :
      Wrong memory tree input output format (.uncompiled cause)
  | uncompilable {authored : Authored.Table} {cause : EntityTable.Failure}
      (loaded : loadTable tree input = .ok authored)
      (fails : authored.compile.outcome = .error cause) :
      Wrong memory tree input output format (.uncompiled cause)
  | noDirectory {table : Table} {error : SystemError} {path : Text}
      (compiles : Compiles tree input output table)
      (refused : (tree.makeDirectories (Path.ofText output).parent).2 =
        .error (.answered error path)) :
      Wrong memory tree input output format (.noDirectory output (.answered error path))
  | unwritable {table : Table} {prepared : FileTree} {failure : Failure}
      (compiles : Compiles tree input output table) (adds : tree.AddsDirectories prepared)
      (fails : (writeJson memory prepared (.ofText output) format table.toJson).result.outcome =
        .error failure) (about : failure.IsAboutArtifact) :
      Wrong memory tree input output format failure

/-- What is wrong where no report is made: a path that is none, an input that is there but is no
file, an integer that does not fit. -/
inductive Unreported (tree : FileTree) (input output : Text) : Failure → Prop
  | notPath {fault : ExternalFault}
      (bad : (Path.ofText input).externalFault? = some fault ∨
        (Path.ofText output).externalFault? = some fault) :
      Unreported tree input output (.refused (.notPath fault))
  | unreadable {error : SystemError} (there : error ≠ .noEntry)
      (refused : tree.read input = .error (.answered error input)) :
      Unreported tree input output (.refused (.answered error input))
  | overflow {bytes : List UInt8} {text : Text} {failure : Failure}
      (read : tree.read input = .ok bytes) (decoded : Text.ofUtf8 bytes = .ok text)
      (overflows : Overflows text failure) : Unreported tree input output failure

/-- The ends of compiling one file to another: the tree that it leaves, and the outcome. -/
inductive CompileEnds (memory : Memory) (tree : FileTree) (input output : Text) (format : Format) :
    FileTree → Except Failure Table → Prop
  /-- The output has the artifact of the whole table, and nothing else differs but for the
  directories above it. -/
  | stored {table : Table} {layout : Json.Layout} {prepared later : FileTree}
      (compiles : Compiles tree input output table) (adds : tree.AddsDirectories prepared)
      (asks : format.Asks layout)
      (replaces : prepared.Replaces later (Path.ofText output).toText
        (format.encode layout table.toJson)) :
      CompileEnds memory tree input output format later (.ok table)
  /-- No file has changed, and something is wrong. There may be new directories if the table
  compiles. -/
  | reported {later : FileTree} {failure : Failure}
      (wrong : Wrong memory tree input output format failure) (adds : tree.AddsDirectories later)
      (early : (∃ table, Compiles tree input output table) ∨ later = tree) :
      CompileEnds memory tree input output format later (.error failure)
  /-- Nothing has changed, and something is wrong that is not reported. -/
  | unreported {failure : Failure} (wrong : Unreported tree input output failure) :
      CompileEnds memory tree input output format tree (.error failure)
  /-- The table compiles, but the output and where it is looked for have no name outside. -/
  | unnameable {table : Table} {prepared : FileTree} {fault : ExternalFault}
      (compiles : Compiles tree input output table) (adds : tree.AddsDirectories prepared)
      (hnames : ¬(Path.ofText output).Nameable tree.workingDirectory) :
      CompileEnds memory tree input output format prepared (.error (.refused (.notPath fault)))
  /-- The table compiles, but its lines cannot be indented, and a temporary file is left. -/
  | stranded {table : Table} {prepared : FileTree} {temporary : Place} {bytes : List UInt8}
      {failure : Failure} (compiles : Compiles tree input output table)
      (adds : tree.AddsDirectories prepared)
      (why : Unindentable memory format table.toJson failure)
      (free : prepared.node? temporary = none) :
      CompileEnds memory tree input output format (prepared.put temporary (.file bytes))
        (.error failure)

variable {memory : Memory} {tree : FileTree} {input output : Text} {format : Format}

theorem Wrong.exists_diagnostic {failure : Failure}
    (h : Wrong memory tree input output format failure) :
    failure = .refused (.answered .noEntry input) ∨
      ∃ diagnostic, failure.diagnostic? = some diagnostic := by
  cases h with
  | clash same => exact .inr ⟨_, rfl⟩
  | missing absent => exact .inl rfl
  | malformed read malforms =>
    obtain ⟨offence, owner, field, rfl⟩ := malforms.exists_malformed
    exact .inr ⟨_, rfl⟩
  | uncompilable loaded fails => exact .inr (Authored.Table.exists_diagnostic_of_compile fails)
  | noDirectory compiles refused => exact .inr ⟨_, rfl⟩
  | unwritable compiles adds fails about =>
    right
    cases failure with
    | overwritesInput => exact ⟨_, rfl⟩
    | noDirectory => exact ⟨_, rfl⟩
    | noTemporary => exact ⟨_, rfl⟩
    | notReplaced => exact ⟨_, rfl⟩
    | notFinite => exact ⟨_, rfl⟩
    | tooManyDigits => exact ⟨_, rfl⟩
    | _ => exact absurd about id

/-- A load that fails before the table is read tells how the input could not be read. -/
theorem refused_of_loadTable {fault : SystemFault} (h : tree.read input = .error fault) :
    loadTable tree input = .error (.refused fault) := by
  rw [loadTable, h]
  rfl

theorem wrong_or_unreported_of_loadTable (hinput : (Path.ofText input).externalFault? = none)
    {failure : Failure} (h : loadTable tree input = .error failure) :
    Wrong memory tree input output format failure ∨ Unreported tree input output failure := by
  cases hread : tree.read input with
  | error fault =>
    obtain rfl := Except.error.inj ((refused_of_loadTable hread).symm.trans h)
    rcases FileTree.usePath_eq_error hread with ⟨f, -, hnot⟩ | ⟨error, rfl, -, -⟩
    · exact absurd (Path.hasBytes_of_ofText (Path.externalFault?_eq_none_iff.mp hinput)) hnot
    · by_cases hmissing : error = .noEntry
      · subst hmissing
        exact .inl (.missing hread)
      · exact .inr (.unreadable hmissing hread)
  | ok bytes =>
    rcases malforms_or_overflows_of_loadTable hread h with ⟨cause, rfl, hmalforms⟩ | hoverflows
    · exact .inl (.malformed hread hmalforms)
    · obtain ⟨text, hdecoded, hoverflows⟩ := hoverflows
      exact .inr (.overflow hread hdecoded hoverflows)

/-- Without a compiled table either something is wrong or something goes unreported. -/
theorem compileFile_of_not_compiles {makeDirs : Bool}
    (h : ∀ table, ¬Compiles tree input output table) :
    CompileEnds memory tree input output format
      (compileFile memory tree input output format makeDirs).tree
      (compileFile memory tree input output format makeDirs).result.outcome := by
  unfold compileFile
  dsimp only
  split
  · next fault hfault =>
    apply CompileEnds.unreported
    apply Unreported.notPath
    rcases Option.or_eq_some_iff.mp hfault with hinput | ⟨-, houtput⟩
    · exact .inl hinput
    · exact .inr houtput
  · next hfault =>
    obtain ⟨hinput, houtput⟩ :=
      Option.or_eq_none_iff.mp (Option.eq_none_iff_forall_ne_some.mpr hfault)
    split
    · next hsame => exact .reported (.clash hsame) (.refl tree) (.inr rfl)
    · next hapart =>
      rw [Outcome.andThen]
      split
      · next failure hfails =>
        rw [Logged.outcome_bind] at hfails
        rcases bind_eq_error_iff.mp hfails with hload | ⟨authored, hload, hcompile⟩
        · rcases wrong_or_unreported_of_loadTable hinput hload with hwrong | hunreported
          · exact .reported hwrong (.refl tree) (.inr rfl)
          · exact .unreported hunreported
        · obtain ⟨cause, hcause, rfl⟩ := mapError_eq_error_iff.mp hcompile
          exact .reported (.uncompilable hload hcause) (.refl tree) (.inr rfl)
      · next table hcompiled =>
        exact absurd ⟨hinput, houtput, by simpa using hapart, outcome_loadCompile.mp hcompiled⟩
          (h table)

/-- The system answers about every directory of an output that can be followed. -/
theorem prepareDirectory_eq_error (houtput : (Path.ofText output).externalFault? = none)
    {wanted : Bool} {failure : Failure}
    (h : (prepareDirectory tree output wanted).result.outcome = .error failure) :
    ∃ error path, failure = .noDirectory output (.answered error path) ∧
      (tree.makeDirectories (Path.ofText output).parent).2 = .error (.answered error path) := by
  unfold prepareDirectory at h
  split at h
  · cases h
  · obtain ⟨fault, hfault, hfailure⟩ := mapError_eq_error_iff.mp h
    have hparts : ∀ part ∈ (Path.ofText output).parent.parts.reverse, Text.HasBytes part := by
      intro part hp
      apply Path.externalFault?_eq_none_iff.mp houtput
      exact List.dropLast_subset _ (List.mem_reverse.mp hp)
    obtain ⟨error, path, rfl⟩ := FileTree.ensureDirectories_eq_error hparts hfault
    exact ⟨error, path, hfailure.symm, hfault⟩

/-- A write into a prepared tree ends the whole compilation. -/
theorem compileEnds_of_writeEnds {table : Table} (hc : Compiles tree input output table)
    {prepared later : FileTree} (hadds : tree.AddsDirectories prepared)
    {outcome : Except Failure Unit}
    (hwritten : (writeJson memory prepared (.ofText output) format table.toJson).result.outcome =
      outcome)
    (h : WriteEnds memory prepared (.ofText output) format table.toJson later outcome) :
    CompileEnds memory tree input output format later (outcome.map fun () => table) := by
  cases h with
  | replaced asks indentable writable hreplaces => exact .stored hc hadds asks hreplaces
  | refused habout =>
    exact .reported (.unwritable hc hadds hwritten habout) hadds (.inl ⟨table, hc⟩)
  | unnameable hnames =>
    rw [hadds.workingDirectory] at hnames
    exact .unnameable hc hadds hnames
  | stranded why hfree => exact .stranded hc hadds why hfree

/-- Storing a table that has compiled ends like the write into the directory prepared for it. -/
theorem store_ends (hw : tree.WellPlaced) {table : Table} (hc : Compiles tree input output table)
    {makeDirs : Bool} :
    CompileEnds memory tree input output format
      (store memory output format makeDirs tree table).tree
      (store memory output format makeDirs tree table).result.outcome := by
  have hadds := addsDirectories_prepareDirectory tree output makeDirs
  cases hprepared : (prepareDirectory tree output makeDirs).result.outcome with
  | error failure =>
    obtain ⟨error, path, rfl, hmade⟩ := prepareDirectory_eq_error hc.outputPath hprepared
    rw [store, Outcome.tree_andThen_of_error hprepared, Outcome.andThen, hprepared]
    exact .reported (.noDirectory hc hmade) hadds (.inl ⟨table, hc⟩)
  | ok =>
    have hplaced : (prepareDirectory tree output makeDirs).tree.WellPlaced := by
      rwa [FileTree.WellPlaced, hadds.workingDirectory]
    have hwrite : WriteEnds _ _ (.ofText output) format table.toJson _ _ :=
      writeJson_writeEnds hplaced (Path.plain_ofText output) memory format
        (table.mapValues fun _ t => t.toJson)
    have hends := compileEnds_of_writeEnds hc hadds rfl hwrite
    have hreturn := Outcome.andThen_return (writeJson memory
      (prepareDirectory tree output makeDirs).tree (.ofText output) format table.toJson) table
    rw [store, Outcome.tree_andThen hprepared, Outcome.outcome_andThen hprepared, hreturn.1,
      hreturn.2]
    exact hends

/-- However the trees, the paths and the format are, compiling a file to another ends in one of
these ways. -/
theorem compileFile_ends (hw : tree.WellPlaced) (memory : Memory) (input output : Text)
    (format : Format) (makeDirs : Bool) :
    CompileEnds memory tree input output format
      (compileFile memory tree input output format makeDirs).tree
      (compileFile memory tree input output format makeDirs).result.outcome := by
  by_cases hc : ∃ table, Compiles tree input output table
  · obtain ⟨table, hc⟩ := hc
    obtain ⟨htree, houtcome⟩ := compileFile_eq_store hc
    rw [htree, houtcome]
    exact store_ends hw hc
  · exact compileFile_of_not_compiles fun table h => hc ⟨table, h⟩

end Storage
end EntityTable
