import EntityTable.Inheritance
import EntityTable.Proofs.Binary64.Rounding
import EntityTable.Proofs.Expansion
import Mathlib.Data.List.Induction
import Mathlib.Logic.Function.Iterate

/-!
Copies of copies. However often an armament is mirrored and handed on, and in whatever order, what
comes out is told by three things: whether it was mirrored at all, whether an odd number of times,
and which turret got it last.
-/

namespace EntityTable

/-- The number, or plain zero in place of negative zero. -/
def Binary64.plainZero (x : Binary64) : Binary64 := if x = .zero true then .zero false else x

/-- A way to copy an armament. -/
inductive Copying
  | mirror
  | inherit (turret : Int)
  deriving DecidableEq

/-- What a series of copies leaves to be seen: whether it turned to the other side at all, whether
an odd number of times, and the last owner. -/
structure Trail where
  mirrored : Bool
  odd : Bool
  owner : Option Int
  mirrored_of_odd : odd = true → mirrored = true

namespace Copying

def owner? : Copying → Option Int
  | .mirror => none
  | .inherit turret => some turret

def trail (steps : List Copying) : Trail where
  mirrored := steps.contains .mirror
  odd := steps.count .mirror % 2 = 1
  owner := (steps.filterMap owner?).getLast?
  mirrored_of_odd h := by
    have hcount : 0 < steps.count .mirror := by
      have hodd := of_decide_eq_true h
      omega
    simpa using List.count_pos_iff.mp hcount

end Copying

/-- An angle or a side at the end of the trail. Mirroring takes the sign off a zero, even where it
ends on the side on which it began. -/
def Binary64.along (t : Trail) (x : Binary64) : Binary64 :=
  if t.mirrored then (if t.odd then -x else x).plainZero else x

namespace Armament

def copy (a : Armament) : Copying → Armament
  | .mirror => a.mirror
  | .inherit turret => a.inherit turret

/-- The last of a series of copies, each made of the one before it. -/
def copies (a : Armament) (steps : List Copying) : Armament := steps.foldl copy a

def along (t : Trail) (a : Armament) : Armament :=
  ⟨a.angle.along t, a.side.along t, t.owner.or a.turret, a.extra⟩

end Armament

/-- Turrets are mirrored only, so that no owner is left behind. -/
def Turret.along (t : Trail) (turret : Turret) : Turret :=
  ⟨turret.angle.along t, turret.side.along t, turret.reference, turret.extra⟩

/-! ### Angles and sides -/

namespace Binary64

theorem neg_neg (x : Binary64) : - -x = x := by
  cases x with
  | nan => rfl
  | number negative rank h =>
    show number (!!negative) rank h = _
    simp only [Bool.not_not]

theorem plainZero_of_ne {x : Binary64} (h : x ≠ zero true) : x.plainZero = x := if_neg h

/-- Which of the two zeros is negated makes no difference. -/
theorem plainZero_neg_plainZero (x : Binary64) : (-x.plainZero).plainZero = (-x).plainZero := by
  by_cases h : x = zero true
  · rw [h]
    rfl
  · rw [plainZero_of_ne h]

theorem opposite_eq (x : Binary64) : x.opposite = (-x).plainZero := by
  cases hx : x.eq 0 with
  | true =>
    obtain ⟨negative, rfl⟩ := eq_zero_iff.mp hx
    cases negative <;> decide +kernel
  | false =>
    rw [opposite_of_nonzero hx, plainZero_of_ne]
    rw [← opposite_of_nonzero hx]
    exact opposite_ne_zero_true x

theorem opposite_opposite (x : Binary64) : x.opposite.opposite = x.plainZero := by
  rw [opposite_eq, opposite_eq, plainZero_neg_plainZero, neg_neg]

theorem plainZero_eq_self_iff {x : Binary64} : x.plainZero = x ↔ x ≠ zero true := by
  constructor
  · rintro h rfl
    cases h
  · exact plainZero_of_ne

end Binary64

/-! ### The trail -/

namespace Trail

/-- One copy more, on the other side. -/
def turn (t : Trail) : Trail := ⟨true, !t.odd, t.owner, fun _ => rfl⟩

/-- One copy more, in other hands. -/
def pass (t : Trail) (turret : Int) : Trail := ⟨t.mirrored, t.odd, some turret, t.mirrored_of_odd⟩

end Trail

namespace Copying

theorem trail_snoc_mirror (steps : List Copying) :
    trail (steps ++ [.mirror]) = (trail steps).turn := by
  have hparity : decide ((steps.count mirror + 1) % 2 = 1) =
      !decide (steps.count mirror % 2 = 1) := by
    rw [← decide_not, decide_eq_decide]
    omega
  simp [trail, Trail.turn, owner?, hparity]

theorem trail_snoc_inherit (steps : List Copying) (turret : Int) :
    trail (steps ++ [.inherit turret]) = (trail steps).pass turret := by
  simp [trail, Trail.pass, owner?]

end Copying

theorem Binary64.opposite_along (t : Trail) (x : Binary64) :
    (x.along t).opposite = x.along t.turn := by
  rw [opposite_eq]
  cases hm : t.mirrored with
  | false =>
    have ho : t.odd = false := by simpa [hm] using t.mirrored_of_odd
    simp [along, Trail.turn, hm, ho]
  | true => cases ho : t.odd <;> simp [along, Trail.turn, hm, ho, plainZero_neg_plainZero, neg_neg]

/-! ### Series of copies -/

theorem Armament.mirror_along (t : Trail) (a : Armament) :
    (a.along t).mirror = a.along t.turn := by
  show (⟨(a.angle.along t).opposite, (a.side.along t).opposite, _, _⟩ : Armament) = _
  rw [Binary64.opposite_along, Binary64.opposite_along]
  rfl

theorem Turret.mirror_along (t : Trail) (turret : Turret) :
    (turret.along t).mirror = turret.along t.turn := by
  show (⟨(turret.angle.along t).opposite, (turret.side.along t).opposite, _, _⟩ : Turret) = _
  rw [Binary64.opposite_along, Binary64.opposite_along]
  rfl

/-- By induction on the steps, the last one first: it is the one that shows. -/
theorem Armament.copies_eq_along (a : Armament) (steps : List Copying) :
    a.copies steps = a.along (Copying.trail steps) := by
  induction steps using List.reverseRecOn with
  | nil => rfl
  | append_singleton steps step ih =>
    have hlast : a.copies (steps ++ [step]) = (a.copies steps).copy step := List.foldl_concat ..
    rw [hlast, ih]
    cases step with
    | mirror =>
      rw [Copying.trail_snoc_mirror]
      exact mirror_along (Copying.trail steps) a
    | inherit turret =>
      rw [Copying.trail_snoc_inherit]
      rfl

theorem Turret.iterate_mirror_eq_along (turret : Turret) (count : Nat) :
    Turret.mirror^[count] turret =
      turret.along (Copying.trail (List.replicate count .mirror)) := by
  induction count with
  | zero => rfl
  | succ count ih =>
    rw [Function.iterate_succ_apply', ih, List.replicate_succ', Copying.trail_snoc_mirror]
    exact mirror_along _ turret

theorem Armament.mirror_mirror_iff {a : Armament} :
    a.mirror.mirror = a ↔ a.angle ≠ .zero true ∧ a.side ≠ .zero true := by
  obtain ⟨angle, side, turret, extra⟩ := a
  simp [mirror, Binary64.opposite_opposite, Binary64.plainZero_eq_self_iff]

theorem Turret.mirror_mirror_iff {t : Turret} :
    t.mirror.mirror = t ↔ t.angle ≠ .zero true ∧ t.side ≠ .zero true := by
  obtain ⟨angle, side, reference, extra⟩ := t
  simp [mirror, Binary64.opposite_opposite, Binary64.plainZero_eq_self_iff]

/-- Copies compose: a series of them comes to its trail, for armaments as for turrets. Mirroring
twice gives back all that has no negative zero, and neither mirroring nor an earlier owner shows
behind the last one. -/
theorem copies_compose :
    (∀ (a : Armament) (steps : List Copying), a.copies steps = a.along (Copying.trail steps)) ∧
    (∀ (t : Turret) (count : Nat),
      Turret.mirror^[count] t = t.along (Copying.trail (List.replicate count .mirror))) ∧
    (∀ a : Armament, a.mirror.mirror = a ↔ a.angle ≠ .zero true ∧ a.side ≠ .zero true) ∧
    (∀ t : Turret, t.mirror.mirror = t ↔ t.angle ≠ .zero true ∧ t.side ≠ .zero true) ∧
    (∀ (a : Armament) (turret : Int), (a.inherit turret).mirror = a.mirror.inherit turret) ∧
    ∀ (a : Armament) (earlier later : Int),
      (a.inherit earlier).inherit later = a.inherit later :=
  ⟨Armament.copies_eq_along, Turret.iterate_mirror_eq_along, fun _ => Armament.mirror_mirror_iff,
    fun _ => Turret.mirror_mirror_iff, fun _ _ => rfl, fun _ _ _ => rfl⟩

end EntityTable
