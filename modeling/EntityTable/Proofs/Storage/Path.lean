import EntityTable.Proofs.Text.External
import EntityTable.Proofs.Text.Pieces
import EntityTable.Storage.FileTree

/-!
Paths as text. A path in its plain form is written and read back without loss, and where the system
finds a place for a path, it is the one that the text of the path leads to.
-/

namespace EntityTable

namespace Path

/-- The parts of a path in its plain form. -/
def IsPart (part : Text) : Prop := part ≠ [] ∧ part ≠ "." ∧ CodePoint.ofChar '/' ∉ part

def Plain (p : Path) : Prop := ∀ part ∈ p.parts, IsPart part

theorem plain_ofText (t : Text) : (ofText t).Plain := by
  intro part hp
  obtain ⟨hm, hkept⟩ := List.mem_filter.mp hp
  obtain ⟨hempty, hdot⟩ := of_decide_eq_true hkept
  exact ⟨hempty, hdot, Text.not_mem_of_mem_split hm⟩

theorem Plain.parent {p : Path} (h : p.Plain) : p.parent.Plain :=
  fun part hp => h part (List.dropLast_subset _ hp)

theorem head?_join_ne {parts : List Text} (h : ∀ part ∈ parts, IsPart part) :
    (Text.join "/" parts).head? ≠ some (CodePoint.ofChar '/') := by
  cases parts with
  | nil => simp [Text.join]
  | cons part parts =>
    obtain ⟨hempty, -, hslash⟩ := h part (List.mem_cons_self ..)
    obtain ⟨c, rest, rfl⟩ := List.exists_cons_of_ne_nil hempty
    have hc : c ≠ CodePoint.ofChar '/' := fun heq => hslash (heq ▸ List.mem_cons_self ..)
    cases parts with
    | nil => simpa [Text.join] using hc
    | cons next parts => simpa [Text.join_cons_cons] using hc

theorem takeWhile_of_head? {t : Text} (h : t.head? ≠ some (CodePoint.ofChar '/')) :
    t.takeWhile (· = CodePoint.ofChar '/') = [] := by
  cases t with
  | nil => rfl
  | cons c t =>
    have hc : c ≠ CodePoint.ofChar '/' := by simpa using h
    simp [hc]

/-- The pieces of joined parts that are kept are the parts, also where there are none. -/
theorem filter_split_join {parts : List Text} (h : ∀ part ∈ parts, IsPart part) :
    ((Text.join "/" parts).split (CodePoint.ofChar '/')).filter
      (fun part => part ≠ [] ∧ part ≠ ".") = parts := by
  cases parts with
  | nil => decide
  | cons part parts =>
    have hsplit := Text.split_join (List.cons_ne_nil part parts) fun p hp => (h p hp).2.2
    rw [show Text.ofString "/" = [CodePoint.ofChar '/'] from rfl, hsplit, List.filter_eq_self]
    intro p hp
    exact decide_eq_true ⟨(h p hp).1, (h p hp).2.1⟩

/-- A slash in front adds a piece that is not kept. -/
theorem filter_split_slash (t : Text) :
    (Text.split (CodePoint.ofChar '/') (CodePoint.ofChar '/' :: t)).filter
        (fun part => part ≠ [] ∧ part ≠ ".") =
      (t.split (CodePoint.ofChar '/')).filter fun part => part ≠ [] ∧ part ≠ "." := by
  rw [Text.split, if_pos rfl, List.filter_cons_of_neg (by simp)]

theorem takeWhile_slash (t : Text) :
    List.takeWhile (· = CodePoint.ofChar '/') (CodePoint.ofChar '/' :: t) =
      CodePoint.ofChar '/' :: t.takeWhile (· = CodePoint.ofChar '/') := by
  rw [List.takeWhile_cons, if_pos (by simp)]

/-- A path in its plain form is the one that its text stands for. -/
theorem ofText_toText {p : Path} (h : p.Plain) : ofText p.toText = p := by
  obtain ⟨root, parts⟩ := p
  have hparts := filter_split_join h
  have hhead := takeWhile_of_head? (head?_join_ne h)
  cases root with
  | relative =>
    cases parts with
    | nil => decide
    | cons part parts =>
      show Path.mk (rootOf (Text.join "/" (part :: parts))) _ = _
      rw [rootOf, hhead]
      exact congrArg _ hparts
  | single =>
    have htext : toText ⟨.single, parts⟩ = CodePoint.ofChar '/' :: Text.join "/" parts := by
      simp [toText, Text.concat]
      rfl
    rw [htext, ofText, rootOf, takeWhile_slash, hhead, filter_split_slash, hparts]
    rfl
  | double =>
    have htext : toText ⟨.double, parts⟩ =
        CodePoint.ofChar '/' :: CodePoint.ofChar '/' :: Text.join "/" parts := by
      simp [toText, Text.concat]
      rfl
    rw [htext, ofText, rootOf, takeWhile_slash, takeWhile_slash, hhead, filter_split_slash,
      filter_split_slash, hparts]
    rfl

/-! ### Steps along a path -/

theorem isAscii_dots : ∀ c ∈ (".." : Text), c.isAscii = true := by decide

theorem external_eq_dots_iff {part : Text} : part.external = ".." ↔ part = ".." :=
  Text.external_eq_iff_of_isAscii isAscii_dots

/-- The system takes the same step as the text does. -/
theorem map_external_descend (place : List Text) (part : Text) :
    (descend place part).map Text.external = descend (place.map Text.external) part.external := by
  unfold descend
  by_cases hdots : part = ".."
  · rw [if_pos hdots, if_pos (external_eq_dots_iff.mpr hdots), List.map_dropLast]
  · rw [if_neg hdots, if_neg (external_eq_dots_iff.not.mpr hdots), List.map_append]
    rfl

theorem map_external_foldl_descend (place parts : List Text) :
    (parts.foldl descend place).map Text.external =
      parts.foldl (fun place part => descend place part.external) (place.map Text.external) := by
  induction parts generalizing place with
  | nil => rfl
  | cons part parts ih => rw [List.foldl_cons, List.foldl_cons, ih, map_external_descend]

theorem foldl_descend_of_names {parts : List Text} (h : ∀ part ∈ parts, part ≠ "..")
    (place : List Text) : parts.foldl descend place = place ++ parts := by
  induction parts generalizing place with
  | nil => exact (List.append_nil place).symm
  | cons part parts ih =>
    obtain ⟨hpart, hparts⟩ := List.forall_mem_cons.mp h
    rw [List.foldl_cons, ih hparts, descend, if_neg hpart, List.append_assoc]
    rfl

/-- A name in a directory: a part of a path that does not lead upward. -/
def IsName (part : Text) : Prop := IsPart part ∧ part ≠ ".."

/-- What holds of the names in front and of the parts that do not lead upward holds of the names on
the way. -/
theorem forall_mem_foldl_descend {P : Text → Prop} {place parts : List Text}
    (hplace : ∀ name ∈ place, P name) (hparts : ∀ part ∈ parts, part ≠ ".." → P part) :
    ∀ name ∈ parts.foldl descend place, P name := by
  induction parts generalizing place with
  | nil => exact hplace
  | cons part parts ih =>
    obtain ⟨hpart, hparts⟩ := List.forall_mem_cons.mp hparts
    refine ih ?_ hparts
    intro name hn
    unfold descend at hn
    split at hn
    · exact hplace name (List.dropLast_subset _ hn)
    · next hdots =>
      rcases List.mem_append.mp hn with hn | hn
      · exact hplace name hn
      · obtain rfl := List.mem_singleton.mp hn
        exact hpart hdots

theorem forall_mem_locate {P : Text → Prop} {here : List Text} {p : Path}
    (hhere : ∀ name ∈ here, P name) (hparts : ∀ part ∈ p.parts, part ≠ ".." → P part) :
    ∀ name ∈ p.locate here, P name := by
  refine forall_mem_foldl_descend ?_ hparts
  split
  · exact hhere
  · simp

end Path

namespace FileTree

/-- Where following names ends, if they can be followed. -/
theorem follow_eq_ok {tree : FileTree} {place reached : Place} {names : List Text}
    (h : tree.follow place names = .ok reached) :
    reached = (names.filter fun part => part ≠ [] ∧ part ≠ ".").foldl
      (fun place part => Path.descend place (Text.external part)) place := by
  induction names generalizing place with
  | nil => exact (Except.ok.inj h).symm
  | cons name names ih =>
    rw [follow] at h
    split at h
    · cases h
    · cases h
    · split at h
      · next hskip =>
        rw [List.filter_cons_of_neg (by simpa [or_iff_not_imp_left] using hskip)]
        exact ih h
      · next hkeep =>
        split at h
        · cases h
        · rw [List.filter_cons_of_pos (by simpa using hkeep), List.foldl_cons]
          exact ih h

/-- The working directory has the names that the system gives it. -/
def WellPlaced (tree : FileTree) : Prop :=
  ∀ name ∈ tree.workingDirectory, Path.IsName name ∧ name.external = name

theorem rootOf_eq_relative_iff {t : Text} :
    Path.rootOf t = .relative ↔ t.head? ≠ some (CodePoint.ofChar '/') := by
  cases t with
  | nil => simp [Path.rootOf]
  | cons c t =>
    by_cases hc : c = CodePoint.ofChar '/'
    · subst hc
      rw [Path.rootOf, Path.takeWhile_slash, List.length_cons]
      simp only [List.head?_cons, ne_eq, not_true_eq_false, iff_false]
      split <;> simp_all
    · rw [Path.rootOf, Path.takeWhile_of_head? (by simpa using hc)]
      simpa using hc

/-- The place that the system finds for a path is the one its text leads to. -/
theorem placeOf_eq_ok {tree : FileTree} (hw : tree.WellPlaced) {path : Text} {place : Place}
    (h : tree.placeOf path = .ok place) :
    place = ((Path.ofText path).locate tree.workingDirectory).map Text.external := by
  have hhere : tree.workingDirectory.map Text.external = tree.workingDirectory :=
    (List.map_congr_left fun name hn => (hw name hn).2).trans (List.map_id _)
  unfold placeOf at h
  split at h
  · cases h
  · split at h
    · cases h
    · rw [follow_eq_ok h, Path.locate, Path.map_external_foldl_descend]
      show (Path.ofText path).parts.foldl _ _ = _
      congr 1
      show _ =
        (if Path.rootOf path = .relative then tree.workingDirectory else []).map Text.external
      by_cases hroot : path.head? = some (CodePoint.ofChar '/')
      · rw [if_pos hroot, if_neg (by rw [rootOf_eq_relative_iff, not_not]; exact hroot)]
        rfl
      · rw [if_neg hroot, if_pos (rootOf_eq_relative_iff.mpr hroot), hhere]

/-- Parts that come back from outside as they are lead to the very place. -/
theorem map_external_locate {tree : FileTree} (hw : tree.WellPlaced) {p : Path}
    (h : ∀ part ∈ p.parts, part.external = part) :
    (p.locate tree.workingDirectory).map Text.external = p.locate tree.workingDirectory := by
  refine (List.map_congr_left ?_).trans (List.map_id _)
  exact Path.forall_mem_locate (fun name hn => (hw name hn).2) fun part hp _ => h part hp

end FileTree
end EntityTable
