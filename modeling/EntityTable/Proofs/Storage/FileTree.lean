import EntityTable.Proofs.Outcome
import EntityTable.Proofs.Storage.Path
import EntityTable.Proofs.Text.Digits
import Mathlib.Data.List.Nodup
import Mathlib.Data.List.Perm.Subperm

/-!
What the steps on a file tree leave as it is. Making directories adds nothing but directories, a
temporary file is a new one, and moving it changes the target alone.
-/

namespace EntityTable

namespace FileTree

/-! ### Putting and removing -/

theorem lookup_cons_eq (p asked : Place) (n : FileNode) (nodes : List (Place × FileNode)) :
    List.lookup asked ((p, n) :: nodes) = if asked = p then some n else nodes.lookup asked := by
  by_cases h : asked = p
  · rw [h, List.lookup_cons_self, if_pos rfl]
  · rw [List.lookup_cons, beq_eq_false_iff_ne.mpr h, if_neg h]

theorem lookup_putNode (nodes : List (Place × FileNode)) (node : FileNode) (place asked : Place) :
    (putNode node place nodes).lookup asked =
      if asked = place then some node else nodes.lookup asked := by
  induction nodes with
  | nil => exact lookup_cons_eq ..
  | cons entry nodes ih =>
    obtain ⟨p, n⟩ := entry
    unfold putNode
    by_cases hp : p = place
    · subst hp
      rw [if_pos rfl, lookup_cons_eq, lookup_cons_eq]
      split <;> rfl
    · rw [if_neg hp, lookup_cons_eq, lookup_cons_eq, ih]
      by_cases h : asked = p
      · rw [if_pos h, if_pos h, if_neg (h ▸ hp)]
      · rw [if_neg h, if_neg h]

theorem lookup_filter_ne (nodes : List (Place × FileNode)) (place asked : Place) :
    (nodes.filter fun entry => entry.1 ≠ place).lookup asked =
      if asked = place then none else nodes.lookup asked := by
  induction nodes with
  | nil => exact (ite_self none).symm
  | cons entry nodes ih =>
    obtain ⟨p, n⟩ := entry
    by_cases hp : p = place
    · subst hp
      rw [List.filter_cons_of_neg (by simp), ih, lookup_cons_eq]
      split <;> rfl
    · rw [List.filter_cons_of_pos (by simpa using hp), lookup_cons_eq, lookup_cons_eq, ih]
      by_cases h : asked = p
      · rw [if_pos h, if_pos h, if_neg (h ▸ hp)]
      · rw [if_neg h, if_neg h]

variable {tree : FileTree} {place other : Place} {node : FileNode}

theorem node?_eq (tree : FileTree) (place : Place) :
    tree.node? place = if place = [] then some .directory else tree.nodes.lookup place := by
  simp [node?]

theorem node?_put (tree : FileTree) (hplace : place ≠ []) (node : FileNode) (asked : Place) :
    (tree.put place node).node? asked =
      if asked = place then some node else tree.node? asked := by
  rw [node?_eq, node?_eq]
  by_cases hroot : asked = []
  · rw [if_pos hroot, if_pos hroot, if_neg (hroot ▸ Ne.symm hplace)]
  · rw [if_neg hroot, if_neg hroot]
    exact lookup_putNode ..

theorem node?_remove (tree : FileTree) (hplace : place ≠ []) (asked : Place) :
    (tree.remove place).node? asked = if asked = place then none else tree.node? asked := by
  rw [node?_eq, node?_eq]
  by_cases hroot : asked = []
  · rw [if_pos hroot, if_pos hroot, if_neg (hroot ▸ Ne.symm hplace)]
  · rw [if_neg hroot, if_neg hroot]
    exact lookup_filter_ne ..

theorem ne_root_of_not_directory (h : ¬tree.isDirectory place = true) : place ≠ [] := by
  rintro rfl
  exact h (decide_eq_true rfl)

theorem ne_root_of_free (h : tree.node? place = none) : place ≠ [] := by
  rintro rfl
  cases h

theorem putNode_of_lookup {nodes : List (Place × FileNode)} (h : nodes.lookup place = none) :
    putNode node place nodes = nodes ++ [(place, node)] := by
  induction nodes with
  | nil => rfl
  | cons entry nodes ih =>
    obtain ⟨p, n⟩ := entry
    by_cases hp : place = p
    · simp [hp] at h
    · rw [List.lookup_cons, beq_eq_false_iff_ne.mpr hp] at h
      rw [putNode, if_neg (Ne.symm hp), ih h]
      rfl

theorem filter_ne_of_lookup {nodes : List (Place × FileNode)} (h : nodes.lookup place = none) :
    nodes.filter (fun entry => entry.1 ≠ place) = nodes := by
  rw [List.filter_eq_self]
  intro entry he
  simp only [ne_eq, decide_not, Bool.not_eq_true', decide_eq_false_iff_not]
  rintro rfl
  simpa using List.lookup_eq_none_iff.mp h entry he

/-- A new file that is removed again leaves no trace. -/
theorem remove_put_of_free (h : tree.node? place = none) (node : FileNode) :
    (tree.put place node).remove place = tree := by
  have hplace := ne_root_of_free h
  have hlookup : tree.nodes.lookup place = none := by rwa [node?_eq, if_neg hplace] at h
  unfold remove put
  simp only [putNode_of_lookup hlookup, List.filter_append]
  rw [filter_ne_of_lookup hlookup]
  simp

theorem put_put (tree : FileTree) (place : Place) (first second : FileNode) :
    (tree.put place first).put place second = tree.put place second := by
  have hnodes (nodes : List (Place × FileNode)) :
      putNode second place (putNode first place nodes) = putNode second place nodes := by
    induction nodes with
    | nil => simp [putNode]
    | cons entry nodes ih =>
      obtain ⟨p, n⟩ := entry
      by_cases hp : p = place
      · simp [putNode, hp]
      · simp [putNode, hp, ih]
  rw [put, put, put, hnodes]

/-! ### Paths -/

theorem usePath_eq_ok_iff {α : Type} {path : Text} {use : Place → Except SystemError α}
    {result : α} :
    tree.usePath path use = .ok result ↔ path.externalFault? = none ∧
      ∃ place, tree.placeOf path = .ok place ∧ use place = .ok result := by
  unfold usePath
  cases path.externalFault? with
  | some fault => simp
  | none => simp [mapError_eq_ok_iff, bind_eq_ok_iff]

theorem read_eq_ok_iff {path : Text} {bytes : List UInt8} :
    tree.read path = .ok bytes ↔ path.externalFault? = none ∧
      ∃ place, tree.placeOf path = .ok place ∧ tree.node? place = some (.file bytes) := by
  rw [read, usePath_eq_ok_iff]
  refine and_congr_right fun _ => exists_congr fun place => and_congr_right fun _ => ?_
  cases tree.node? place with
  | none => simp
  | some node => cases node <;> simp

/-- The directories of a tree are still there in the other. -/
structure KeepsDirectories (tree later : FileTree) : Prop where
  workingDirectory : later.workingDirectory = tree.workingDirectory
  isDirectory : ∀ place, tree.isDirectory place = true → later.isDirectory place = true

theorem KeepsDirectories.trans {later last : FileTree} (h : tree.KeepsDirectories later)
    (h' : later.KeepsDirectories last) : tree.KeepsDirectories last :=
  ⟨h'.workingDirectory.trans h.workingDirectory,
    fun place hd => h'.isDirectory place (h.isDirectory place hd)⟩

section KeepsDirectories

variable {later : FileTree} (h : tree.KeepsDirectories later)
include h

theorem KeepsDirectories.follow {names : List Text} {reached : Place}
    (hf : tree.follow place names = .ok reached) : later.follow place names = .ok reached := by
  induction names generalizing place with
  | nil => exact hf
  | cons name names ih =>
    rw [FileTree.follow] at hf ⊢
    split at hf
    · cases hf
    · cases hf
    · next hnode =>
      have hlater : later.node? place = some .directory :=
        of_decide_eq_true (h.isDirectory place (decide_eq_true hnode))
      rw [hlater]
      dsimp only
      split at hf
      · next hskip =>
        rw [if_pos hskip]
        exact ih hf
      · next hkeep =>
        rw [if_neg hkeep]
        split at hf
        · cases hf
        · next hlength =>
          rw [if_neg hlength]
          exact ih hf

/-- What a path leads to does not move while directories stay. -/
theorem KeepsDirectories.placeOf {path : Text} (hp : tree.placeOf path = .ok place) :
    later.placeOf path = .ok place := by
  rw [FileTree.placeOf] at hp ⊢
  split at hp
  · cases hp
  · next hempty =>
    rw [if_neg hempty]
    split at hp
    · cases hp
    · next hlength =>
      rw [if_neg hlength, h.workingDirectory]
      exact h.follow hp

end KeepsDirectories

/-! ### Directories -/

/-- Nothing has changed but that there may be more directories. -/
structure AddsDirectories (tree later : FileTree) : Prop where
  workingDirectory : later.workingDirectory = tree.workingDirectory
  node? : ∀ place, later.node? place = tree.node? place ∨
    tree.node? place = none ∧ later.node? place = some .directory

theorem AddsDirectories.refl (tree : FileTree) : tree.AddsDirectories tree :=
  ⟨rfl, fun _ => .inl rfl⟩

theorem AddsDirectories.trans {later last : FileTree} (h : tree.AddsDirectories later)
    (h' : later.AddsDirectories last) : tree.AddsDirectories last := by
  refine ⟨h'.workingDirectory.trans h.workingDirectory, fun place => ?_⟩
  rcases h'.node? place with heq | ⟨hfree, hmade⟩
  · rw [heq]
    exact h.node? place
  · rcases h.node? place with heq | ⟨-, hdirectory⟩
    · exact .inr ⟨heq ▸ hfree, hmade⟩
    · rw [hfree] at hdirectory
      cases hdirectory

theorem AddsDirectories.keepsDirectories {later : FileTree} (h : tree.AddsDirectories later) :
    tree.KeepsDirectories later := by
  refine ⟨h.workingDirectory, fun place hd => ?_⟩
  rcases h.node? place with heq | ⟨-, hmade⟩
  · rwa [isDirectory, heq]
  · exact decide_eq_true hmade

theorem AddsDirectories.file_iff {later : FileTree} (h : tree.AddsDirectories later)
    (place : Place) (bytes : List UInt8) :
    later.node? place = some (.file bytes) ↔ tree.node? place = some (.file bytes) := by
  rcases h.node? place with heq | ⟨hfree, hmade⟩
  · rw [heq]
  · simp [hfree, hmade]

theorem addsDirectories_makeDirectory {path : Text} {made : FileTree}
    (h : tree.makeDirectory path = .ok made) : tree.AddsDirectories made := by
  obtain ⟨-, place, -, hput⟩ := usePath_eq_ok_iff.mp h
  split at hput
  · cases hput
  · next hfree =>
    have hnone : tree.node? place = none := by simpa using hfree
    obtain rfl := Except.ok.inj hput
    refine ⟨rfl, fun asked => ?_⟩
    rw [node?_put tree (ne_root_of_free hnone)]
    split
    · next heq => exact .inr ⟨heq ▸ hnone, rfl⟩
    · exact .inl rfl

theorem addsDirectories_ensureDirectory (tree : FileTree) (path : Text) :
    tree.AddsDirectories (tree.ensureDirectory path).1 := by
  unfold ensureDirectory
  cases hm : tree.makeDirectory path with
  | ok made => exact addsDirectories_makeDirectory hm
  | error fault => exact .refl tree

theorem addsDirectories_ensureDirectories (tree : FileTree) (root : PathRoot) (parts : List Text) :
    tree.AddsDirectories (tree.ensureDirectories root parts).1 := by
  induction parts with
  | nil => exact addsDirectories_ensureDirectory ..
  | cons part above ih =>
    have hfirst :=
      addsDirectories_ensureDirectory tree (Path.mk root (part :: above).reverse).toText
    rw [ensureDirectories]
    split
    · split
      · next made heq =>
        rw [heq] at ih
        exact ih.trans (addsDirectories_ensureDirectory made _)
      · exact ih
    · exact hfirst

/-! ### Temporary files -/

/-- Different attempts have different names, also outside. -/
theorem external_temporaryName_inj {target : Text} {n m : Nat}
    (h : (temporaryName target n).external = (temporaryName target m).external) : n = m := by
  rw [Text.external_eq_iff] at h
  simp only [temporaryName, Text.concat, List.flatten_cons, List.flatten_nil, List.append_nil,
    Text.toExternal_append, List.append_cancel_left_eq, List.append_cancel_right_eq] at h
  rw [Text.toExternal_eq_iff_of_isAscii fun c hc =>
    Text.isAscii_of_hexDigit? (Text.hexDigit?_of_mem_hex hc)] at h
  rw [← Text.hexValue_hex 8 n, h, Text.hexValue_hex]

theorem length_lt_temporaryName (target : Text) (n : Nat) :
    target.toExternal.length < (temporaryName target n).toExternal.length := by
  have hdot : (Text.toExternal ".").length = 1 := rfl
  simp only [temporaryName, Text.concat, List.flatten_cons, Text.toExternal_append,
    List.length_append, hdot]
  omega

theorem isName_temporaryName {target : Text} (h : CodePoint.ofChar '/' ∉ target) (n : Nat) :
    Path.IsName (temporaryName target n) := by
  have hlength : 2 < (temporaryName target n).length := by
    have hend : (Text.ofString ".tmp").length = 4 := rfl
    simp only [temporaryName, Text.concat, List.flatten_cons, List.length_append, hend]
    omega
  have hslash : CodePoint.ofChar '/' ∉ temporaryName target n := by
    have hhex : CodePoint.ofChar '/' ∉ Text.hex 8 n := fun hm =>
      absurd (Text.hexDigit?_of_mem_hex hm) (by decide)
    have hdot : CodePoint.ofChar '/' ∉ Text.ofString "." := by decide
    have hend : CodePoint.ofChar '/' ∉ Text.ofString ".tmp" := by decide
    simp [temporaryName, Text.concat, h, hhex, hdot, hend]
  refine ⟨⟨?_, ?_, hslash⟩, ?_⟩
  · rintro heq
    simp [heq] at hlength
  · rintro heq
    rw [heq] at hlength
    exact absurd hlength (by decide)
  · rintro heq
    rw [heq] at hlength
    exact absurd hlength (by decide)

section Temporary

variable {target : Path}

/-- One of the temporary names is free: there are more of them than there are nodes. -/
theorem exists_free (tree : FileTree) (directory : Place) (target : Text) :
    ∃ n ∈ List.range (tree.nodes.length + 1),
      tree.node? ((directory ++ [temporaryName target n]).map Text.external) = none := by
  by_contra! htaken
  have hsub : (List.range (tree.nodes.length + 1)).map (fun n =>
      (directory ++ [temporaryName target n]).map Text.external) ⊆ tree.nodes.map Prod.fst := by
    intro place hp
    obtain ⟨n, hn, rfl⟩ := List.mem_map.mp hp
    have hnode := htaken n hn
    rw [node?_eq, if_neg (by simp), ne_eq, List.lookup_eq_none_iff] at hnode
    push Not at hnode
    obtain ⟨entry, he, heq⟩ := hnode
    exact List.mem_map.mpr ⟨entry, he, (by simpa using heq : _ = _).symm⟩
  have hnodup : ((List.range (tree.nodes.length + 1)).map fun n =>
      (directory ++ [temporaryName target n]).map Text.external).Nodup := by
    refine List.nodup_range.map fun n m heq => ?_
    have hname : (temporaryName target n).external = (temporaryName target m).external := by
      simpa using heq
    exact external_temporaryName_inj hname
  have hlength := (List.subperm_of_subset hnodup hsub).length_le
  simp only [List.length_map, List.length_range] at hlength
  omega

theorem isName_of_mem_temporary (hw : tree.WellPlaced) (ht : target.Plain) (n : Nat) :
    ∀ part ∈ target.parent.locate tree.workingDirectory ++ [temporaryName target.name n],
      Path.IsName part := by
  have hslash : CodePoint.ofChar '/' ∉ target.name := by
    rw [Path.name]
    cases hl : target.parts.getLast? with
    | none => simp
    | some part => exact (ht part (List.mem_of_getLast? hl)).2.2
  intro part hp
  rcases List.mem_append.mp hp with hp | hp
  · exact Path.forall_mem_locate (fun name hn => (hw name hn).1)
      (fun name hn hdots => ⟨ht.parent name hn, hdots⟩) part hp
  · obtain rfl := List.mem_singleton.mp hp
    exact isName_temporaryName hslash n

/-- A temporary file is a new one. It stands where the target's text leads but for the name. -/
theorem makeTemporary_eq_ok (hw : tree.WellPlaced) (ht : target.Plain) {temporary : Place}
    {opened : FileTree} (h : tree.makeTemporary target = .ok (temporary, opened)) :
    tree.node? temporary = none ∧ opened = tree.put temporary (.file []) ∧
      ∃ n, temporary = (target.parent.locate tree.workingDirectory ++
        [temporaryName target.name n]).map Text.external := by
  let place (n : Nat) : Place :=
    target.parent.locate tree.workingDirectory ++ [temporaryName target.name n]
  let isFree (n : Nat) : Bool := (tree.node? ((place n).map Text.external)).isNone
  obtain ⟨n, hfound⟩ : ∃ n, (List.range (tree.nodes.length + 1)).find? isFree = some n := by
    obtain ⟨n, hn, hfree⟩ :=
      exists_free tree (target.parent.locate tree.workingDirectory) target.name
    exact Option.isSome_iff_exists.mp
      (List.find?_isSome.mpr ⟨n, hn, Option.isNone_iff_eq_none.mpr hfree⟩)
  have hfree : isFree n = true := List.find?_some hfound
  have hnames := isName_of_mem_temporary hw ht n
  obtain ⟨-, found, hplace, hput⟩ := usePath_eq_ok_iff.mp h
  obtain ⟨rfl, rfl⟩ := Prod.mk.inj (Except.ok.inj hput)
  change tree.placeOf (Path.mk (if target.root = .double then .double else .single)
    (place (((List.range (tree.nodes.length + 1)).find? isFree).getD 0))).toText = .ok found
    at hplace
  rw [hfound, Option.getD_some] at hplace
  have hlocated := placeOf_eq_ok hw hplace
  rw [Path.ofText_toText fun part hp => (hnames part hp).1, Path.locate,
    Path.foldl_descend_of_names fun part hp => (hnames part hp).2, if_neg (by split <;> simp),
    List.nil_append] at hlocated
  exact ⟨hlocated ▸ Option.isNone_iff_eq_none.mp hfree, rfl, n, hlocated⟩

/-- The target stands under its own name, or further up. -/
theorem temporary_ne_target (hw : tree.WellPlaced) (ht : target.Plain) {place : Place}
    (hplace : tree.placeOf target.toText = .ok place) (n : Nat) :
    (target.parent.locate tree.workingDirectory ++ [temporaryName target.name n]).map
      Text.external ≠ place := by
  rw [placeOf_eq_ok hw hplace, Path.ofText_toText ht]
  intro heq
  have hlength := congrArg List.length heq
  simp only [List.length_map, List.length_append, List.length_singleton] at hlength
  rcases List.eq_nil_or_concat' target.parts with hnil | ⟨front, name, hparts⟩
  · have hparent : target.parent = target := by
      rw [Path.parent, hnil]
      exact congrArg _ hnil.symm
    rw [hparent] at hlength
    omega
  · have hlocate : target.locate tree.workingDirectory =
        Path.descend (target.parent.locate tree.workingDirectory) name := by
      simp [Path.locate, Path.parent, hparts]
    have hname : target.name = name := by simp [Path.name, hparts]
    rw [hlocate, Path.descend] at heq hlength
    split at hlength
    · rw [List.length_dropLast] at hlength
      omega
    · next hdots =>
      rw [if_neg hdots, List.map_append, List.map_append, List.append_cancel_left_eq] at heq
      have hbytes := Text.external_eq_iff.mp (List.singleton_inj.mp heq)
      have hlonger := length_lt_temporaryName target.name n
      rw [hbytes, hname] at hlonger
      exact Nat.lt_irrefl _ hlonger

theorem moveOver_eq_ok {source : Place} {moved : FileTree}
    (h : tree.moveOver source target = .ok moved) :
    ∃ bytes place, tree.node? source = some (.file bytes) ∧
      target.toText.externalFault? = none ∧ tree.placeOf target.toText = .ok place ∧
      ¬tree.isDirectory place = true ∧ moved = (tree.put place (.file bytes)).remove source := by
  unfold moveOver at h
  split at h
  · next bytes hsource =>
    obtain ⟨written, hwritten, hmoved⟩ := bind_eq_ok_iff.mp h
    obtain ⟨hfault, place, hplace, hput⟩ := usePath_eq_ok_iff.mp hwritten
    unfold putFile at hput
    split at hput
    · cases hput
    · next hfile =>
      obtain rfl := Except.ok.inj hput
      exact ⟨bytes, place, hsource, hfault, hplace, hfile, (Except.ok.inj hmoved).symm⟩
  · cases h

end Temporary

end FileTree
end EntityTable
