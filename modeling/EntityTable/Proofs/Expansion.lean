import EntityTable.Mount
import Mathlib.Data.List.Basic

/-!
Lists of mounts in which some stand for a pair. Every mount takes up its place behind those of the
mounts before it, its mirror image the next one, and nothing else is in the expanded list.
-/

namespace EntityTable

section Lists

variable {α β : Type}

/-- What replaces an item is counted on from what replaces the items before it. -/
theorem zipIdx_flatMap (f : α → List β) (xs : List α) (start : Nat) :
    (xs.flatMap f).zipIdx start = xs.zipIdx.flatMap fun (x, index) =>
      (f x).zipIdx (start + ((xs.take index).flatMap f).length) := by
  induction xs generalizing start with
  | nil => rfl
  | cons x xs ih =>
    rw [List.flatMap_cons, List.zipIdx_append, ih, List.zipIdx_cons, List.flatMap_cons,
      List.zipIdx_succ, List.flatMap_map]
    -- an index among the rest is one less than among all, and the first item makes up for it
    have hbehind : (fun entry : α × Nat => (f entry.1).zipIdx
          (start + (f x).length + ((xs.take entry.2).flatMap f).length)) =
        fun entry => (f entry.1).zipIdx
          (start + (((x :: xs).take (entry.2 + 1)).flatMap f).length) := by
      funext entry
      rw [List.take_succ_cons, List.flatMap_cons, List.length_append, Nat.add_assoc]
    exact congrArg ((f x).zipIdx start ++ xs.zipIdx.flatMap ·) hbehind

theorem getElem?_flatMap_eq_some_iff {f : α → List β} {xs : List α} {position : Nat} {y : β} :
    (xs.flatMap f)[position]? = some y ↔ ∃ index x side, xs[index]? = some x ∧
      (f x)[side]? = some y ∧ position = ((xs.take index).flatMap f).length + side := by
  have hlisted : (xs.flatMap f)[position]? = some y ↔ (y, position) ∈ (xs.flatMap f).zipIdx :=
    (List.mem_zipIdx_iff_getElem? (x := (y, position))).symm
  rw [hlisted, zipIdx_flatMap, List.mem_flatMap]
  constructor
  · rintro ⟨⟨x, index⟩, hx, hy⟩
    obtain ⟨hle, hside⟩ := List.mem_zipIdx_iff_le_and_getElem?_sub.mp hy
    exact ⟨index, x, _, List.mem_zipIdx_iff_getElem?.mp hx, hside, by omega⟩
  · rintro ⟨index, x, side, hx, hside, rfl⟩
    refine ⟨(x, index), List.mem_zipIdx_iff_getElem?.mpr hx, ?_⟩
    refine List.mem_zipIdx_iff_le_and_getElem?_sub.mpr ⟨by omega, ?_⟩
    simpa using hside

/-- Where the item at an index is, once each of those that stand for a pair has become two. -/
def placeAmong (pair : α → Bool) (xs : List α) (index : Nat) : Nat :=
  index + (xs.take index).countP pair

theorem placeAmong_map {γ : Type} (f : γ → α) (pair : α → Bool) (xs : List γ) (index : Nat) :
    placeAmong pair (xs.map f) index = placeAmong (pair ∘ f) xs index := by
  rw [placeAmong, ← List.map_take, List.countP_map, placeAmong]

/-- An item, and its mirror image if it stands for a pair. -/
def paired (pair : α → Bool) (mount mirror : α → β) (x : α) : List β :=
  if pair x then [mount x, mirror x] else [mount x]

/-- Every item is followed by its mirror image if it stands for a pair, and by nothing else. -/
structure Expands (pair : α → Bool) (mount mirror : α → β) (xs : List α) (ys : List β) :
    Prop where
  length : ys.length = xs.length + xs.countP pair
  own : ∀ index x, xs[index]? = some x → ys[placeAmong pair xs index]? = some (mount x)
  mirrored : ∀ index x, xs[index]? = some x → pair x = true →
    ys[placeAmong pair xs index + 1]? = some (mirror x)
  covered : ∀ position y, ys[position]? = some y → ∃ index x, xs[index]? = some x ∧
    (position = placeAmong pair xs index ∧ y = mount x ∨
      pair x = true ∧ position = placeAmong pair xs index + 1 ∧ y = mirror x)

section Pairs

variable {pair : α → Bool} {mount mirror : α → β}

theorem mem_paired_iff {x : α} {y : β} :
    y ∈ paired pair mount mirror x ↔ y = mount x ∨ pair x = true ∧ y = mirror x := by
  by_cases hpair : pair x = true <;> simp [paired, hpair]

theorem length_flatMap_paired (xs : List α) :
    (xs.flatMap (paired pair mount mirror)).length = xs.length + xs.countP pair := by
  induction xs with
  | nil => rfl
  | cons x xs ih =>
    rw [List.flatMap_cons, List.length_append, ih, List.countP_cons, List.length_cons, paired]
    split <;> simp <;> omega

theorem length_flatMap_take {xs : List α} {index : Nat} (h : index ≤ xs.length) :
    ((xs.take index).flatMap (paired pair mount mirror)).length = placeAmong pair xs index := by
  rw [length_flatMap_paired, List.length_take, Nat.min_eq_left h, placeAmong]

theorem getElem?_paired_eq_some_iff {x : α} {side : Nat} {y : β} :
    (paired pair mount mirror x)[side]? = some y ↔
      side = 0 ∧ y = mount x ∨ pair x = true ∧ side = 1 ∧ y = mirror x := by
  by_cases hpair : pair x = true
  · match side with
    | 0 | 1 | _ + 2 => simp [paired, hpair, eq_comm]
  · match side with
    | 0 | _ + 1 => simp [paired, hpair, eq_comm]

theorem getElem?_flatMap_paired_eq_some_iff {xs : List α} {position : Nat} {y : β} :
    (xs.flatMap (paired pair mount mirror))[position]? = some y ↔
      ∃ index x, xs[index]? = some x ∧ (position = placeAmong pair xs index ∧ y = mount x ∨
        pair x = true ∧ position = placeAmong pair xs index + 1 ∧ y = mirror x) := by
  rw [getElem?_flatMap_eq_some_iff]
  have hplace {index : Nat} {x : α} (hx : xs[index]? = some x) :
      ((xs.take index).flatMap (paired pair mount mirror)).length = placeAmong pair xs index :=
    length_flatMap_take (Nat.le_of_lt (List.getElem?_eq_some_iff.mp hx).1)
  constructor
  · rintro ⟨index, x, side, hx, hside, rfl⟩
    rw [hplace hx]
    rcases getElem?_paired_eq_some_iff.mp hside with ⟨rfl, hy⟩ | ⟨hpair, rfl, hy⟩
    · exact ⟨index, x, hx, .inl ⟨rfl, hy⟩⟩
    · exact ⟨index, x, hx, .inr ⟨hpair, rfl, hy⟩⟩
  · rintro ⟨index, x, hx, ⟨rfl, hy⟩ | ⟨hpair, rfl, hy⟩⟩
    · exact ⟨index, x, 0, hx, getElem?_paired_eq_some_iff.mpr (.inl ⟨rfl, hy⟩), (hplace hx).symm⟩
    · refine ⟨index, x, 1, hx, getElem?_paired_eq_some_iff.mpr (.inr ⟨hpair, rfl, hy⟩), ?_⟩
      rw [hplace hx]

theorem expands_flatMap (xs : List α) :
    Expands pair mount mirror xs (xs.flatMap (paired pair mount mirror)) := by
  refine ⟨length_flatMap_paired xs, ?_, ?_, ?_⟩
  · intro index x h
    exact getElem?_flatMap_paired_eq_some_iff.mpr ⟨index, x, h, .inl ⟨rfl, rfl⟩⟩
  · intro index x h hpair
    exact getElem?_flatMap_paired_eq_some_iff.mpr ⟨index, x, h, .inr ⟨hpair, rfl, rfl⟩⟩
  · intro position y h
    exact getElem?_flatMap_paired_eq_some_iff.mp h

/-- What is collected over the expanded list with the places in it, collected over the items. -/
theorem flatMap_zipIdx_paired {γ : Type} (xs : List α) (collect : β × Nat → List γ) :
    (xs.flatMap (paired pair mount mirror)).zipIdx.flatMap collect =
      xs.zipIdx.flatMap fun (x, index) =>
        if pair x then collect (mount x, placeAmong pair xs index) ++
          collect (mirror x, placeAmong pair xs index + 1)
        else collect (mount x, placeAmong pair xs index) := by
  rw [zipIdx_flatMap, List.flatMap_assoc]
  refine List.flatMap_congr fun entry he => ?_
  obtain ⟨x, index⟩ := entry
  have hlt : index < xs.length :=
    (List.getElem?_eq_some_iff.mp (List.mem_zipIdx_iff_getElem?.mp he)).1
  have hplace : ((xs.take index).flatMap (paired pair mount mirror)).length =
      placeAmong pair xs index := length_flatMap_take (Nat.le_of_lt hlt)
  show ((paired pair mount mirror x).zipIdx _).flatMap collect = _
  rw [hplace, Nat.zero_add, paired]
  by_cases hpair : pair x = true <;> simp [hpair]

end Pairs
end Lists

/-! ### Mounts -/

namespace Authored

/-- The turret on the side on which it was authored. -/
def Turret.mounted (t : Turret) : EntityTable.Turret :=
  ⟨degreesToRadians t.angle, t.side, t.reference, t.extra⟩

/-- Its mirror image names and keeps aside the same. -/
def Turret.mirrored (t : Turret) : EntityTable.Turret :=
  ⟨(degreesToRadians t.angle).opposite, t.side.opposite, t.reference, t.extra⟩

def Armament.mounted (a : Armament) : EntityTable.Armament :=
  ⟨degreesToRadians a.angle, a.side, none, a.extra⟩

def Armament.mirrored (a : Armament) : EntityTable.Armament :=
  ⟨(degreesToRadians a.angle).opposite, a.side.opposite, none, a.extra⟩

theorem Turret.expand_eq : Turret.expand = paired Turret.symmetrical mounted mirrored := rfl

theorem Armament.expand_eq : Armament.expand = paired Armament.symmetrical mounted mirrored := rfl

theorem Turret.mem_expand_iff {t : Turret} {found : EntityTable.Turret} :
    found ∈ t.expand ↔ found = t.mounted ∨ t.symmetrical = true ∧ found = t.mirrored := by
  rw [expand_eq, mem_paired_iff]

theorem Armament.mem_expand_iff {a : Armament} {found : EntityTable.Armament} :
    found ∈ a.expand ↔ found = a.mounted ∨ a.symmetrical = true ∧ found = a.mirrored := by
  rw [expand_eq, mem_paired_iff]

theorem Turret.expands (ts : List Turret) :
    Expands Turret.symmetrical mounted mirrored ts (ts.flatMap expand) := expands_flatMap ts

theorem Armament.expands (as : List Armament) :
    Expands Armament.symmetrical mounted mirrored as (as.flatMap expand) := expands_flatMap as

end Authored

/-! ### Opposites -/

namespace Binary64

theorem opposite_of_zero {x : Binary64} (h : x.eq 0 = true) : x.opposite = 0 := if_pos h

theorem opposite_of_nonzero {x : Binary64} (h : x.eq 0 = false) : x.opposite = -x := by
  rw [opposite, h]
  exact if_neg Bool.false_ne_true

/-- Only plain zero has negative zero as its negation, and its opposite is itself. -/
theorem opposite_ne_zero_true (x : Binary64) : x.opposite ≠ zero true := by
  cases hx : x.eq 0 with
  | true =>
    rw [opposite_of_zero hx]
    decide +kernel
  | false =>
    rw [opposite_of_nonzero hx]
    cases x with
    | nan => exact nofun
    | number negative rank h =>
      intro hneg
      injection hneg with hsign hrank
      obtain rfl : negative = false := by simpa using hsign
      subst hrank
      have hzero : (zero false).eq 0 = true := by decide +kernel
      cases hzero.symm.trans hx

end Binary64
end EntityTable
