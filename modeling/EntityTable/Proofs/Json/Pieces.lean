import EntityTable.Json.Writer
import EntityTable.Proofs.Json.NonFinite
import EntityTable.Proofs.Text.Pieces

/-!
Writing piece by piece. Without a fault it gives the text of the value as a whole, and the faults
are those of its numbers and of the lines that its brackets begin.
-/

namespace EntityTable.Json

variable {memory : Memory} {layout : Layout} {level : Nat} {fault : WriteFault}

/-! ### Pieces in a row -/

/-- The texts of the pieces that have one. -/
def textOf (ps : List Piece) : Text := ps.flatMap fun piece => piece.toOption.getD []

@[simp] theorem textOf_append (ps qs : List Piece) : textOf (ps ++ qs) = textOf ps ++ textOf qs :=
  List.flatMap_append ..

@[simp] theorem textOf_ok_cons (text : Text) (ps : List Piece) :
    textOf (.ok text :: ps) = text ++ textOf ps := List.flatMap_cons ..

@[simp] theorem textOf_nil : textOf [] = [] := rfl

theorem error_mem_of_writePieces {ps : List Piece} (h : (writePieces ps).2 = .error fault) :
    .error fault ∈ ps := by
  induction ps with
  | nil => cases h
  | cons piece ps ih =>
    cases piece with
    | error first =>
      obtain rfl := Except.error.inj h
      exact List.mem_cons_self ..
    | ok text => exact List.mem_cons_of_mem _ (ih h)

/-- Pieces without a fault are written as they are. -/
theorem writePieces_of_sound {ps : List Piece} (h : ∀ fault, .error fault ∉ ps) :
    writePieces ps = (textOf ps, .ok ()) := by
  induction ps with
  | nil => rfl
  | cons piece ps ih =>
    cases piece with
    | error first => exact absurd (List.mem_cons_self ..) (h first)
    | ok text =>
      have hrest := ih fun fault hf => h fault (List.mem_cons_of_mem _ hf)
      rw [writePieces, hrest, textOf_ok_cons]

theorem sound_of_writePieces {ps : List Piece} (h : (writePieces ps).2 = .ok ()) :
    ∀ fault, .error fault ∉ ps := by
  induction ps with
  | nil => exact fun _ => List.not_mem_nil
  | cons piece ps ih =>
    cases piece with
    | error first => cases h
    | ok text => exact fun fault => List.not_mem_cons_of_ne_of_not_mem nofun (ih h fault)

/-! ### Pieces of a value -/

theorem renderItems_eq_map (layout : Layout) (level : Nat) (items : List Json) :
    renderItems layout level items = items.map (render layout level) := by
  induction items with
  | nil => rfl
  | cons v rest ih => rw [renderItems, ih, List.map_cons]

theorem renderMembers_eq_map (layout : Layout) (level : Nat) (members : List (Text × Json)) :
    renderMembers layout level members = members.map fun entry =>
      renderString entry.1 ++ (layout.colon ++ entry.2.render layout level) := by
  induction members with
  | nil => rfl
  | cons entry rest ih =>
    rw [renderMembers, ih, List.map_cons]
    simp [Text.concat]

theorem piecesOfItems_eq_map (items : List Json) :
    piecesOfItems memory layout level items = items.map (pieces memory layout level) := by
  induction items with
  | nil => rfl
  | cons v rest ih => rw [piecesOfItems, ih, List.map_cons]

theorem piecesOfMembers_eq_map (members : List (Text × Json)) :
    piecesOfMembers memory layout level members = members.map fun entry =>
      .ok (renderString entry.1 ++ layout.colon) :: entry.2.pieces memory layout level := by
  induction members with
  | nil => rfl
  | cons entry rest ih => rw [piecesOfMembers, ih, List.map_cons]

theorem error_mem_enclosePieces_iff {empty after : Text} {opening : List Piece}
    {items : List (List Piece)} :
    .error fault ∈ layout.enclosePieces level empty opening after items ↔
      items ≠ [] ∧ .error fault ∈ opening ∨ ∃ item ∈ items, .error fault ∈ item := by
  cases items with
  | nil => simp [Layout.enclosePieces]
  | cons item items => simp [Layout.enclosePieces]

theorem textOf_enclosePieces {empty before after : Text} {opening : List Piece}
    (items : List (List Piece)) (hempty : empty = before ++ after)
    (h : items ≠ [] → textOf opening = before ++ layout.lineBreak (level + 1)) :
    textOf (layout.enclosePieces level empty opening after items) =
      layout.enclose level before after (items.map textOf) := by
  subst hempty
  cases items with
  | nil => simp [Layout.enclosePieces, Layout.enclose]
  | cons item items =>
    have hitems :
        textOf (items.flatMap (.ok (CodePoint.ofChar ',' :: layout.lineBreak (level + 1)) :: ·)) =
          (items.map textOf).flatMap
            (CodePoint.ofChar ',' :: layout.lineBreak (level + 1) ++ ·) := by
      rw [textOf, List.flatMap_assoc, List.flatMap_map]
      rfl
    have hopening := h (List.cons_ne_nil item items)
    simp [Layout.enclosePieces, Layout.enclose, Text.concat, Text.join_cons, hitems, hopening]

theorem firstBreak_eq_ok {text : Text} (h : layout.firstBreak memory level = .ok text) :
    text = layout.lineBreak level := by
  cases layout with
  | compact => exact (Except.ok.inj h).symm
  | indented width =>
    rw [Layout.firstBreak] at h
    split at h
    · cases h
    · split at h
      · cases h
      · exact (Except.ok.inj h).symm

theorem firstBreak_eq_error_iff : layout.firstBreak memory level = .error fault ↔
    ∃ width, layout = .indented width ∧
      (fault = .lineTooLong ∧ maxTextLength < width * level ∨
        fault = .notHeld ∧ width * level ≤ maxTextLength ∧
          memory.capacity < width * level + 2) := by
  cases layout with
  | compact => exact iff_of_false nofun (by simp)
  | indented width =>
    rw [Layout.firstBreak]
    split
    · next hlong => simp [hlong, Nat.not_le.mpr hlong, eq_comm]
    · next hlong =>
      split
      · next hheld => simp [hlong, Nat.not_lt.mp hlong, hheld, eq_comm]
      · next hheld => simp [hlong, hheld]

/-- An integer that is not too long to be written. -/
def ShortInteger : Json → Prop
  | .int i => (Text.ofNat i.natAbs).length ≤ Text.maxIntegerDigits
  | _ => True

/-- Brackets with something in them, so many inside one another. -/
inductive Nested : Nat → Json → Prop
  | here (v : Json) : Nested 0 v
  | inside {v w : Json} {n : Nat} (hw : w ∈ v.children) (h : Nested n w) : Nested (n + 1) v

theorem nested_succ_iff {v : Json} {n : Nat} :
    v.Nested (n + 1) ↔ ∃ w ∈ v.children, w.Nested n := by
  constructor
  · intro h
    cases h with
    | inside hw h => exact ⟨_, hw, h⟩
  · rintro ⟨w, hw, h⟩
    exact .inside hw h

theorem Reordered.nested {v w : Json} (hr : Reordered v w) {n : Nat} (h : v.Nested n) :
    w.Nested n := by
  induction h generalizing w with
  | here v => exact .here w
  | inside hw _ ih =>
    cases hr with
    | array each =>
      obtain ⟨other, ho, hsame⟩ := exists_of_mem_forall₂ (itemsReordered_iff.mp each).flip hw
      exact .inside ho (ih hsame)
    | object each order =>
      obtain ⟨entry, he, rfl⟩ := List.mem_map.mp hw
      obtain ⟨other, ho, -, hsame⟩ := exists_of_mem_forall₂ (membersReordered_iff.mp each).flip he
      exact .inside (List.mem_map_of_mem (order.mem_iff.mp ho)) (ih hsame)
    | _ => cases hw

/-! ### Faults -/

/-- A value with brackets around what is inside it. -/
def IsContainer : Json → Prop
  | .array _ | .object _ => True
  | _ => False

section Container

variable {v : Json} (hv : v.IsContainer)

include hv

theorem IsContainer.error_mem_pieces_iff : .error fault ∈ v.pieces memory layout level ↔
    v.children ≠ [] ∧ layout.firstBreak memory (level + 1) = .error fault ∨
      ∃ w ∈ v.children, .error fault ∈ w.pieces memory layout (level + 1) := by
  cases v with
  | array items =>
    have hopening : Except.error fault ∈
        [(layout.firstBreak memory (level + 1)).map (CodePoint.ofChar '[' :: ·)] ↔
          layout.firstBreak memory (level + 1) = .error fault := by
      rw [List.mem_singleton, eq_comm, map_eq_error_iff]
    rw [pieces, error_mem_enclosePieces_iff, piecesOfItems_eq_map, hopening]
    simp [children]
  | object members =>
    have hopening : Except.error fault ∈
        [.ok (Text.ofString "\x7b"), layout.firstBreak memory (level + 1)] ↔
          layout.firstBreak memory (level + 1) = .error fault := by
      rw [List.mem_cons, List.mem_singleton, or_iff_right nofun, eq_comm]
    rw [pieces, error_mem_enclosePieces_iff, piecesOfMembers_eq_map, hopening]
    simp only [children, List.mem_map, exists_exists_and_eq_and, List.mem_cons, reduceCtorEq,
      false_or, ne_eq, List.map_eq_nil_iff]
  | _ => cases hv

theorem IsContainer.mem_nonFinite_iff {x : Binary64} :
    x ∈ v.nonFinite ↔ ∃ w ∈ v.children, x ∈ w.nonFinite := by
  cases v with
  | array items => exact mem_nonFinite_array
  | object members =>
    rw [mem_nonFinite_object]
    simp only [children, List.mem_map, exists_exists_and_eq_and]
  | _ => cases hv

theorem IsContainer.throughout_shortInteger_iff :
    v.Throughout ShortInteger ↔ ∀ w ∈ v.children, w.Throughout ShortInteger := by
  refine ⟨Throughout.inside, fun h => .intro ?_ h⟩
  cases v with
  | array | object => trivial
  | _ => cases hv

/-- What is in a value without a fault begins its line. -/
theorem IsContainer.firstBreak_of_sound (hne : v.children ≠ [])
    (h : ∀ fault, .error fault ∉ v.pieces memory layout level) :
    layout.firstBreak memory (level + 1) = .ok (layout.lineBreak (level + 1)) := by
  cases hfirst : layout.firstBreak memory (level + 1) with
  | error fault => exact absurd (hv.error_mem_pieces_iff.mpr (.inl ⟨hne, hfirst⟩)) (h fault)
  | ok text => rw [firstBreak_eq_ok hfirst]

end Container

/-- Why a value cannot be written: a number that is none, an integer that is too long, or the line
that some brackets begin. -/
inductive FaultOf (memory : Memory) (layout : Layout) (level : Nat) (v : Json) : WriteFault → Prop
  | notFinite {x : Binary64} (hx : x ∈ v.nonFinite) : FaultOf memory layout level v (.notFinite x)
  | integerTooLong (h : ¬v.Throughout ShortInteger) : FaultOf memory layout level v .integerTooLong
  | line {n : Nat} {fault : WriteFault} (nested : v.Nested (n + 1))
      (h : layout.firstBreak memory (level + n + 1) = .error fault) :
      FaultOf memory layout level v fault

theorem ofKeys_shortInteger : OfKeys ShortInteger where
  array _ _ _ := trivial
  object _ _ _ _ := trivial

theorem Reordered.faultOf {v w : Json} (hr : Reordered v w)
    (h : FaultOf memory layout level v fault) : FaultOf memory layout level w fault := by
  cases h with
  | notFinite hx => exact .notFinite (hr.mem_nonFinite hx)
  | integerTooLong h =>
    exact .integerTooLong fun hw => h (Throughout.reordered ofKeys_shortInteger hr.symm hw)
  | line nested h => exact .line (hr.nested nested) h

theorem IsContainer.faultOf_iff {v : Json} (hv : v.IsContainer) :
    FaultOf memory layout level v fault ↔
      v.children ≠ [] ∧ layout.firstBreak memory (level + 1) = .error fault ∨
        ∃ w ∈ v.children, FaultOf memory layout (level + 1) w fault := by
  constructor
  · intro h
    cases h with
    | notFinite hx =>
      obtain ⟨w, hw, hx⟩ := hv.mem_nonFinite_iff.mp hx
      exact .inr ⟨w, hw, .notFinite hx⟩
    | integerTooLong h =>
      obtain ⟨w, hw⟩ := not_forall.mp (mt hv.throughout_shortInteger_iff.mpr h)
      obtain ⟨hw, h⟩ := Classical.not_imp.mp hw
      exact .inr ⟨w, hw, .integerTooLong h⟩
    | @line n _ nested h =>
      obtain ⟨w, hw, hn⟩ := nested_succ_iff.mp nested
      cases n with
      | zero => exact .inl ⟨List.ne_nil_of_mem hw, h⟩
      | succ n =>
        refine .inr ⟨w, hw, .line hn ?_⟩
        rwa [show level + 1 + n + 1 = level + (n + 1) + 1 by omega]
  · rintro (⟨hne, h⟩ | ⟨w, hw, h⟩)
    · obtain ⟨w, hw⟩ := List.exists_mem_of_ne_nil _ hne
      exact .line (.inside hw (.here w)) h
    · cases h with
      | notFinite hx => exact .notFinite (hv.mem_nonFinite_iff.mpr ⟨w, hw, hx⟩)
      | integerTooLong h => exact .integerTooLong fun hall => h (hall.inside w hw)
      | @line n _ nested h =>
        refine .line (.inside hw nested) ?_
        rwa [show level + (n + 1) + 1 = level + 1 + n + 1 by omega]

theorem not_nested_of_children {v : Json} (hv : v.children = []) {n : Nat} : ¬v.Nested (n + 1) := by
  intro h
  obtain ⟨w, hw, -⟩ := nested_succ_iff.mp h
  rw [hv] at hw
  cases hw

theorem integerPiece_eq_error_iff {i : Int} :
    integerPiece i = .error fault ↔ FaultOf memory layout level (.int i) fault := by
  unfold integerPiece
  constructor
  · intro h
    split at h
    · next hlong =>
      obtain rfl := Except.error.inj h
      exact .integerTooLong fun hshort => absurd hshort.here (Nat.not_le.mpr hlong)
    · cases h
  · intro h
    cases h with
    | notFinite hx => cases hx
    | integerTooLong h =>
      rw [if_pos]
      by_contra hshort
      exact h (.intro (Nat.not_lt.mp hshort) (List.forall_mem_nil _))
    | line nested => exact absurd nested (not_nested_of_children rfl)

theorem floatPiece_eq_error_iff {x : Binary64} :
    floatPiece x = .error fault ↔ FaultOf memory layout level (.float x) fault := by
  unfold floatPiece
  constructor
  · intro h
    split at h
    · cases h
    · next hx =>
      obtain rfl := Except.error.inj h
      exact .notFinite (mem_nonFinite_float.mpr ⟨rfl, eq_false_of_ne_true hx⟩)
  · intro h
    cases h with
    | notFinite hx =>
      obtain ⟨rfl, hx⟩ := mem_nonFinite_float.mp hx
      rw [if_neg (ne_true_of_eq_false hx)]
    | integerTooLong h => exact absurd (.intro trivial (List.forall_mem_nil _)) h
    | line nested => exact absurd nested (not_nested_of_children rfl)

/-- The pieces of a value have its faults. -/
theorem error_mem_pieces_iff {v : Json} :
    .error fault ∈ v.pieces memory layout level ↔ FaultOf memory layout level v fault := by
  induction throughout_true v generalizing level with
  | @intro v _ _ ih =>
    have hinside (hv : v.IsContainer) :
        .error fault ∈ v.pieces memory layout level ↔ FaultOf memory layout level v fault := by
      rw [hv.error_mem_pieces_iff, hv.faultOf_iff]
      exact or_congr Iff.rfl (exists_congr fun w => and_congr_right fun hw => ih w hw)
    have hwritten (hv : v.pieces memory layout level = [.ok (v.render layout level)])
        (hnone : ¬FaultOf memory layout level v fault) :
        .error fault ∈ v.pieces memory layout level ↔ FaultOf memory layout level v fault := by
      rw [hv, List.mem_singleton]
      exact iff_of_false nofun hnone
    cases v with
    | array | object => exact hinside trivial
    | int i => rw [pieces, List.mem_singleton, eq_comm, integerPiece_eq_error_iff]
    | float x => rw [pieces, List.mem_singleton, eq_comm, floatPiece_eq_error_iff]
    | null | bool | string =>
      refine hwritten (by simp [pieces]) fun h => ?_
      cases h with
      | notFinite hx => cases hx
      | integerTooLong h => exact h (.intro trivial (List.forall_mem_nil _))
      | line nested => exact not_nested_of_children rfl nested

/-- A value without a fault is written as a whole. -/
theorem textOf_pieces {v : Json} (h : ∀ fault, .error fault ∉ v.pieces memory layout level) :
    textOf (v.pieces memory layout level) = v.render layout level := by
  induction throughout_true v generalizing level with
  | @intro v _ _ ih =>
    have hinside (hv : v.IsContainer) : ∀ w ∈ v.children,
        textOf (w.pieces memory layout (level + 1)) = w.render layout (level + 1) :=
      fun w hw => ih w hw fun fault hf => h fault (hv.error_mem_pieces_iff.mpr (.inr ⟨w, hw, hf⟩))
    cases v with
    | null | bool | string => simp [pieces]
    | int i =>
      simp only [pieces, List.mem_singleton] at h ⊢
      unfold integerPiece at h ⊢
      split
      · next hlong => exact absurd (if_pos hlong).symm (h _)
      · rw [render]
        simp
    | float x =>
      simp only [pieces, List.mem_singleton] at h ⊢
      unfold floatPiece at h ⊢
      split
      · rw [render]
        simp
      · next hx => exact absurd (if_neg hx).symm (h _)
    | array items =>
      have htexts : (piecesOfItems memory layout (level + 1) items).map textOf =
          renderItems layout (level + 1) items := by
        rw [piecesOfItems_eq_map, renderItems_eq_map, List.map_map]
        exact List.map_congr_left (hinside trivial)
      rw [pieces, render, ← htexts]
      refine textOf_enclosePieces _ rfl fun hne => ?_
      rw [piecesOfItems_eq_map] at hne
      have hitems : (Json.array items).children ≠ [] := by simpa [children] using hne
      rw [IsContainer.firstBreak_of_sound (v := .array items) trivial hitems h]
      simp [Except.map]
      rfl
    | object members =>
      have htexts : (piecesOfMembers memory layout (level + 1) members).map textOf =
          renderMembers layout (level + 1) members := by
        rw [piecesOfMembers_eq_map, renderMembers_eq_map, List.map_map]
        refine List.map_congr_left fun entry he => ?_
        have hentry := hinside trivial entry.2 (List.mem_map_of_mem he)
        simp [hentry]
      rw [pieces, render, ← htexts]
      refine textOf_enclosePieces _ rfl fun hne => ?_
      rw [piecesOfMembers_eq_map] at hne
      have hmembers : (Json.object members).children ≠ [] := by simpa [children] using hne
      rw [IsContainer.firstBreak_of_sound (v := .object members) trivial hmembers h]
      simp

/-- What is written to the end is the whole text of a value that has no fault. -/
theorem write_eq_ok {v : Json} (h : (v.write memory layout).2 = .ok ()) :
    (v.write memory layout).1 = v.render layout 0 ∧ ∀ fault, ¬FaultOf memory layout 0 v fault := by
  have hsound := sound_of_writePieces h
  rw [write, writePieces_of_sound hsound]
  exact ⟨textOf_pieces hsound, fun fault hf => hsound fault (error_mem_pieces_iff.mpr hf)⟩

theorem faultOf_of_write {v : Json} (h : (v.write memory layout).2 = .error fault) :
    FaultOf memory layout 0 v fault := error_mem_pieces_iff.mp (error_mem_of_writePieces h)

end EntityTable.Json
