import EntityTable.Proofs.Json.Pieces
import EntityTable.Proofs.Storage.FileTree
import EntityTable.Storage.Artifact

/-!
Replacing an artifact. The temporary file is moved over the target, which then has the whole text
and nothing else is different, or it is removed, or it is left where the lines of the text cannot be
indented.
-/

namespace EntityTable

namespace FileTree

/-- The file of a path has this content, and nothing else differs. -/
structure Replaces (tree later : FileTree) (path : Text) (bytes : List UInt8) : Prop where
  workingDirectory : later.workingDirectory = tree.workingDirectory
  read : later.read path = .ok bytes
  others : ∃ place, later.placeOf path = .ok place ∧ ¬tree.isDirectory place = true ∧
    ∀ other, other ≠ place → later.node? other = tree.node? other

variable {tree : FileTree} {target : Path}

theorem Replaces.keepsDirectories {later : FileTree} {path : Text} {bytes : List UInt8}
    (h : tree.Replaces later path bytes) : tree.KeepsDirectories later := by
  obtain ⟨place, -, hfile, hothers⟩ := h.others
  refine ⟨h.workingDirectory, fun other hd => ?_⟩
  rwa [isDirectory, hothers other fun heq => hfile (heq ▸ hd)]

/-- A file that is written in full beside its target and moved over it. -/
theorem replaces_of_moveOver (hw : tree.WellPlaced) (ht : target.Plain) {temporary : Place}
    {opened moved : FileTree} (hmade : tree.makeTemporary target = .ok (temporary, opened))
    {bytes : List UInt8}
    (hmoved : (opened.put temporary (.file bytes)).moveOver temporary target = .ok moved) :
    tree.Replaces moved target.toText bytes := by
  obtain ⟨hfree, rfl, n, htemporary⟩ := makeTemporary_eq_ok hw ht hmade
  rw [put_put] at hmoved
  have hroot := ne_root_of_free hfree
  have hput := node?_put tree hroot (.file bytes)
  obtain ⟨content, place, hsource, hfault, hplace, hfile, rfl⟩ := moveOver_eq_ok hmoved
  obtain rfl : bytes = content := by simpa [hput] using hsource
  have hne : place ≠ temporary := by
    have hwritten : (tree.put temporary (.file bytes)).WellPlaced := hw
    rw [htemporary]
    exact (temporary_ne_target hwritten ht hplace n).symm
  have hplaced := ne_root_of_not_directory hfile
  have hnode (other : Place) : (((tree.put temporary (.file bytes)).put place
      (.file bytes)).remove temporary).node? other =
        if other = place then some (.file bytes) else tree.node? other := by
    rw [node?_remove _ hroot, node?_put _ hplaced, hput]
    by_cases htemp : other = temporary
    · rw [if_pos htemp, if_neg (htemp ▸ hne.symm), htemp, hfree]
    · rw [if_neg htemp, if_neg htemp]
  have hkeeps : (tree.put temporary (.file bytes)).KeepsDirectories
      (((tree.put temporary (.file bytes)).put place (.file bytes)).remove temporary) := by
    refine ⟨rfl, fun other hd => ?_⟩
    have hother : other ≠ place := fun heq => hfile (heq ▸ hd)
    rw [isDirectory, hput] at hd
    rw [isDirectory, hnode, if_neg hother]
    by_cases htemp : other = temporary
    · simp [htemp] at hd
    · rwa [if_neg htemp] at hd
  have hlater := hkeeps.placeOf hplace
  refine ⟨rfl, read_eq_ok_iff.mpr ⟨hfault, place, hlater, by rw [hnode, if_pos rfl]⟩, place, hlater,
    ?_, fun other hother => by rw [hnode, if_neg hother]⟩
  rwa [isDirectory, hput, if_neg hne] at hfile

end FileTree

namespace Storage

/-- The bytes of an artifact. -/
def Format.encode (format : Format) (layout : Json.Layout) (v : Json) : List UInt8 :=
  ((format.arrange v).render layout 0).toUtf8

theorem Format.reordered_arrange (format : Format) (v : Json) :
    v.Reordered (format.arrange v) := by
  unfold Format.arrange
  split
  · exact Json.reordered_sortKeys v
  · exact .refl v

/-- A layout as the indentation asks for it: one line without one, and else columns for each level,
of which a negative width has none. -/
def Format.Asks (format : Format) (layout : Json.Layout) : Prop :=
  match format.indent with
  | none => layout = .compact
  | some .blank => False
  | some (.columns width) => layout = .indented width.toNat

/-- Why the lines of a value cannot be indented: the indentation is blank, it is beyond the
machine's integers, or it cannot be held, be it that of one level or that of a line. -/
inductive Unindentable (memory : Memory) (format : Format) (v : Json) : Failure → Prop
  | blank (h : format.indent = some .blank) : Unindentable memory format v .indentBlank
  | oversized {width : Int} (columns : format.indent = some (.columns width))
      (h : width < -Format.maxIndent - 1 ∨ Format.maxIndent < width) :
      Unindentable memory format v .indentTooLarge
  | level {width : Int} (columns : format.indent = some (.columns width))
      (h : (memory.capacity : Int) < width) : Unindentable memory format v .notHeld
  | line {width : Int} {n : Nat} (columns : format.indent = some (.columns width))
      (nested : v.Nested (n + 1)) (h : memory.capacity < width.toNat * (n + 1) + 2) :
      Unindentable memory format v .notHeld
  | endless {width : Int} {n : Nat} (columns : format.indent = some (.columns width))
      (nested : v.Nested (n + 1)) (h : Json.maxTextLength < width.toNat * (n + 1)) :
      Unindentable memory format v .lineTooLong

/-- Why a value has no text: it holds a number that is none, or an integer that is too long. -/
inductive Unwritable (target : Path) (v : Json) : Failure → Prop
  | notFinite {x : Binary64} (hx : x ∈ v.nonFinite) :
      Unwritable target v (.notFinite target.toText x)
  | tooManyDigits (h : ¬v.Throughout Json.ShortInteger) :
      Unwritable target v (.tooManyDigits target.toText)

section Layout

variable {memory : Memory} {format : Format} {v : Json}

theorem Format.unindentable_of_layout {failure : Failure}
    (h : format.layout memory = .error failure) : Unindentable memory format v failure := by
  unfold Format.layout at h
  split at h
  · cases h
  · next hblank =>
    obtain rfl := Except.error.inj h
    exact .blank hblank
  · next width hcolumns =>
    split at h
    · next hbeyond =>
      obtain rfl := Except.error.inj h
      exact .oversized hcolumns hbeyond
    · split at h
      · next hheld =>
        obtain rfl := Except.error.inj h
        exact .level hcolumns (by omega)
      · cases h

theorem Format.asks_of_layout {layout : Json.Layout} (h : format.layout memory = .ok layout) :
    format.Asks layout := by
  unfold Format.layout at h
  unfold Format.Asks
  cases hindent : format.indent with
  | none => simpa [hindent] using h.symm
  | some indent =>
    cases indent with
    | blank => simp [hindent] at h
    | columns width =>
      simp only [hindent] at h ⊢
      split at h
      · cases h
      · split at h
        · cases h
        · exact (Except.ok.inj h).symm

theorem Format.Asks.exists_columns {width : Nat} (h : format.Asks (.indented width)) :
    ∃ columns : Int, format.indent = some (.columns columns) ∧ columns.toNat = width := by
  unfold Format.Asks at h
  split at h
  · cases h
  · cases h
  · next columns hcolumns => exact ⟨columns, hcolumns, (Json.Layout.indented.inj h).symm⟩

theorem Format.layout_of_columns {width : Int} (columns : format.indent = some (.columns width))
    {layout : Json.Layout} (h : format.layout memory = .ok layout) :
    layout = .indented width.toNat ∧ width.toNat ≤ memory.capacity := by
  simp only [Format.layout, columns] at h
  split at h
  · cases h
  · split at h
    · cases h
    · next hheld => exact ⟨(Except.ok.inj h).symm, Nat.not_lt.mp hheld⟩

/-- A fault of the machine is one of the indentation. -/
theorem Format.unindentable_of_line {layout : Json.Layout}
    (hlayout : format.layout memory = .ok layout) {n : Nat} (nested : v.Nested (n + 1))
    {fault : Json.WriteFault} (h : layout.firstBreak memory (n + 1) = .error fault)
    (target : Text) :
    fault.isOfValue = false ∧ Unindentable memory format v (.ofWriteFault target fault) := by
  obtain ⟨width, rfl, hfault⟩ := Json.firstBreak_eq_error_iff.mp h
  obtain ⟨columns, hcolumns, rfl⟩ := (Format.asks_of_layout hlayout).exists_columns
  rcases hfault with ⟨rfl, hlong⟩ | ⟨rfl, -, hheld⟩
  · exact ⟨rfl, .endless hcolumns nested hlong⟩
  · exact ⟨rfl, .line hcolumns nested hheld⟩

end Layout

/-- What becomes of a temporary file that is there already. -/
inductive ReplaceEnds (memory : Memory) (opened : FileTree) (temporary : Place) (target : Path)
    (format : Format) (v : Json) : FileTree → Except Failure Unit → Prop
  /-- It is moved over the target with the whole text, of which nothing is at fault. -/
  | moved {layout : Json.Layout} {later : FileTree} (hlayout : format.layout memory = .ok layout)
      (faultless : ∀ fault, ¬Json.FaultOf memory layout 0 v fault)
      (hmoved : (opened.put temporary (.file (format.encode layout v))).moveOver temporary target =
        .ok later) : ReplaceEnds memory opened temporary target format v later (.ok ())
  /-- It has the whole text, but the target cannot be replaced. -/
  | unmoved {layout : Json.Layout} {bytes : List UInt8} {fault : SystemFault}
      (hlayout : format.layout memory = .ok layout)
      (faultless : ∀ fault, ¬Json.FaultOf memory layout 0 v fault) :
      ReplaceEnds memory opened temporary target format v
        ((opened.put temporary (.file bytes)).remove temporary)
        (.error (.notReplaced target.toText fault))
  | removed {bytes : List UInt8} {failure : Failure} (why : Unwritable target v failure) :
      ReplaceEnds memory opened temporary target format v
        ((opened.put temporary (.file bytes)).remove temporary) (.error failure)
  /-- It is left with what was written so far. -/
  | left {bytes : List UInt8} {failure : Failure} (why : Unindentable memory format v failure) :
      ReplaceEnds memory opened temporary target format v
        (opened.put temporary (.file bytes)) (.error failure)
  /-- It is left as it was. -/
  | untouched {failure : Failure} (why : Unindentable memory format v failure) :
      ReplaceEnds memory opened temporary target format v opened (.error failure)

variable {memory : Memory} {tree : FileTree} {target : Path} {format : Format} {v : Json}

theorem replaceArtifact_replaceEnds (memory : Memory) (opened : FileTree) (temporary : Place)
    (target : Path) (format : Format) (v : Json) :
    ReplaceEnds memory opened temporary target format v
      (replaceArtifact memory opened temporary target format v).1
      (replaceArtifact memory opened temporary target format v).2 := by
  unfold replaceArtifact
  cases hlayout : format.layout memory with
  | error failure => exact .untouched (Format.unindentable_of_layout hlayout)
  | ok layout =>
    dsimp only
    generalize hwritten : (format.arrange v).write memory layout = written
    obtain ⟨text, ending⟩ := written
    cases ending with
    | error fault =>
      have hfault := Json.faultOf_of_write (congrArg Prod.snd hwritten)
      cases (format.reordered_arrange v).symm.faultOf hfault with
      | notFinite hx => exact .removed (.notFinite hx)
      | integerTooLong hlong => exact .removed (.tooManyDigits hlong)
      | line nested hline =>
        rw [Nat.zero_add] at hline
        have hleft := Format.unindentable_of_line hlayout nested hline target.toText
        simp only [hleft.1]
        exact .left hleft.2
    | ok =>
      obtain ⟨htext, hsound⟩ := Json.write_eq_ok (congrArg Prod.snd hwritten)
      rw [hwritten] at htext
      obtain rfl : text = _ := htext
      have hfaultless (fault : Json.WriteFault) : ¬Json.FaultOf memory layout 0 v fault :=
        fun h => hsound fault ((format.reordered_arrange v).faultOf h)
      dsimp only
      split
      · next moved hmoved => exact .moved hlayout hfaultless hmoved
      · exact .unmoved hlayout hfaultless

/-- There is no text where the lines cannot be indented. -/
theorem Unindentable.exists_fault {failure : Failure} (h : Unindentable memory format v failure)
    {layout : Json.Layout} (hlayout : format.layout memory = .ok layout) :
    ∃ fault, Json.FaultOf memory layout 0 v fault := by
  have hline {width : Int} {n : Nat} (columns : format.indent = some (.columns width))
      (nested : v.Nested (n + 1)) (h : Json.maxTextLength < width.toNat * (n + 1) ∨
        memory.capacity < width.toNat * (n + 1) + 2) :
      ∃ fault, Json.FaultOf memory layout 0 v fault := by
    obtain ⟨rfl, -⟩ := Format.layout_of_columns columns hlayout
    have hbreak : ∃ fault, Json.Layout.firstBreak memory (n + 1) (.indented width.toNat) =
        .error fault := by
      simp only [Json.firstBreak_eq_error_iff, Json.Layout.indented.injEq, exists_eq_left']
      by_cases hlong : Json.maxTextLength < width.toNat * (n + 1)
      · exact ⟨_, .inl ⟨rfl, hlong⟩⟩
      · exact ⟨_, .inr ⟨rfl, Nat.not_lt.mp hlong, h.resolve_left hlong⟩⟩
    obtain ⟨fault, hfault⟩ := hbreak
    exact ⟨fault, .line nested (by rwa [Nat.zero_add])⟩
  cases h with
  | blank hblank => simp [Format.layout, hblank] at hlayout
  | oversized columns hbeyond => simp [Format.layout, columns, hbeyond] at hlayout
  | level columns hheld =>
    have hfits := (Format.layout_of_columns columns hlayout).2
    omega
  | line columns nested hheld => exact hline columns nested (.inr hheld)
  | endless columns nested hlong => exact hline columns nested (.inl hlong)

end Storage
end EntityTable
