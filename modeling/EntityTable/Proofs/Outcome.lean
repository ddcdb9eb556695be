import EntityTable.Entries
import EntityTable.Logged
import Mathlib.Data.List.Forall2

/-!
Outcomes of composed computations: a success says what every step gave, and the outcome of a logged
computation does not depend on its log. The log of a success is that of its steps.
-/

namespace EntityTable

variable {ε α β : Type}

theorem bind_eq_ok_iff {x : Except ε α} {f : α → Except ε β} {value : β} :
    (x >>= f) = .ok value ↔ ∃ a, x = .ok a ∧ f a = .ok value := by
  cases x <;> simp [bind, Except.bind]

theorem bind_eq_error_iff {x : Except ε α} {f : α → Except ε β} {e : ε} :
    (x >>= f) = .error e ↔ x = .error e ∨ ∃ a, x = .ok a ∧ f a = .error e := by
  cases x <;> simp [bind, Except.bind]

theorem map_eq_ok_iff {x : Except ε α} {f : α → β} {value : β} :
    x.map f = .ok value ↔ ∃ a, x = .ok a ∧ f a = value := by
  cases x <;> simp [Except.map]

theorem map_eq_error_iff {x : Except ε α} {f : α → β} {e : ε} :
    x.map f = .error e ↔ x = .error e := by
  cases x <;> simp [Except.map]

theorem mapError_eq_ok_iff {ε' : Type} {x : Except ε α} {f : ε → ε'} {value : α} :
    x.mapError f = .ok value ↔ x = .ok value := by
  cases x <;> simp [Except.mapError]

theorem mapError_eq_error_iff {ε ε' α : Type} {x : Except ε α} {f : ε → ε'} {e' : ε'} :
    x.mapError f = .error e' ↔ ∃ e, x = .error e ∧ f e = e' := by
  cases x <;> simp [Except.mapError]

theorem exists_eq_ok_of_isSome {x : Except ε α} (h : x.toOption.isSome = true) :
    ∃ value, x = .ok value := by
  cases x with
  | error e => cases h
  | ok value => exact ⟨value, rfl⟩

theorem mapM_eq_ok_iff {f : α → Except ε β} {xs : List α} {ys : List β} :
    xs.mapM f = .ok ys ↔ List.Forall₂ (fun x y => f x = .ok y) xs ys := by
  induction xs generalizing ys with
  | nil => simp [pure, Except.pure, eq_comm]
  | cons x xs ih =>
    rw [List.mapM_cons, bind_eq_ok_iff]
    constructor
    · intro h
      obtain ⟨y, hy, h⟩ := h
      obtain ⟨rest, hrest, h⟩ := bind_eq_ok_iff.mp h
      obtain rfl : y :: rest = ys := Except.ok.inj h
      exact .cons hy (ih.mp hrest)
    · intro h
      cases h with
      | cons hy hrest =>
        exact ⟨_, hy, bind_eq_ok_iff.mpr ⟨_, ih.mpr hrest, rfl⟩⟩

/-- The first item that fails decides the failure. -/
theorem mapM_eq_error_iff {f : α → Except ε β} {xs : List α} {e : ε} :
    xs.mapM f = .error e ↔ ∃ before x after, xs = before ++ x :: after ∧
      (∀ y ∈ before, ∃ z, f y = .ok z) ∧ f x = .error e := by
  induction xs with
  | nil => simp [pure, Except.pure]
  | cons first xs ih =>
    rw [List.mapM_cons]
    constructor
    · intro h
      rcases bind_eq_error_iff.mp h with hfirst | ⟨y, hfirst, h⟩
      · exact ⟨[], first, xs, rfl, by simp, hfirst⟩
      · rcases bind_eq_error_iff.mp h with hrest | ⟨ys, -, h⟩
        · obtain ⟨before, x, after, rfl, hbefore, hx⟩ := ih.mp hrest
          exact ⟨first :: before, x, after, rfl,
            List.forall_mem_cons.mpr ⟨⟨y, hfirst⟩, hbefore⟩, hx⟩
        · cases h
    · intro h
      obtain ⟨before, x, after, hsplit, hbefore, hx⟩ := h
      cases before with
      | nil =>
        obtain ⟨rfl, -⟩ := List.cons.inj hsplit
        exact bind_eq_error_iff.mpr (.inl hx)
      | cons y before =>
        obtain ⟨rfl, rfl⟩ := List.cons.inj hsplit
        obtain ⟨⟨z, hz⟩, hbefore⟩ := List.forall_mem_cons.mp hbefore
        have hrest := ih.mpr ⟨before, x, after, rfl, hbefore, hx⟩
        exact bind_eq_error_iff.mpr
          (.inr ⟨z, hz, bind_eq_error_iff.mpr (.inl hrest)⟩)

/-- The first element of a list that fails a test. -/
theorem exists_first {P : α → Prop} {xs : List α} (h : ¬∀ x ∈ xs, P x) :
    ∃ before x after, xs = before ++ x :: after ∧ (∀ y ∈ before, P y) ∧ ¬P x := by
  induction xs with
  | nil => simp at h
  | cons x xs ih =>
    by_cases hx : P x
    · have hrest : ¬∀ y ∈ xs, P y := by simpa [hx] using h
      obtain ⟨before, y, after, rfl, hbefore, hy⟩ := ih hrest
      exact ⟨x :: before, y, after, rfl, List.forall_mem_cons.mpr ⟨hx, hbefore⟩, hy⟩
    · exact ⟨[], x, xs, rfl, by simp, hx⟩

theorem exists_of_mem_forall₂ {r : α → β → Prop} {xs : List α} {ys : List β} {y : β}
    (h : List.Forall₂ r xs ys) (hy : y ∈ ys) : ∃ x ∈ xs, r x y := by
  induction h with
  | nil => simp at hy
  | @cons x first xs rest hfirst _ ih =>
    rcases List.mem_cons.mp hy with rfl | hy
    · exact ⟨x, List.mem_cons_self .., hfirst⟩
    · obtain ⟨source, hm, hs⟩ := ih hy
      exact ⟨source, List.mem_cons_of_mem _ hm, hs⟩

theorem keys_eq_of_forall₂ {r : Text × α → Text × β → Prop} {xs : Entries α} {ys : Entries β}
    (h : List.Forall₂ r xs ys) (hr : ∀ x y, r x y → y.1 = x.1) : ys.keys = xs.keys := by
  induction h with
  | nil => rfl
  | cons hfirst _ ih =>
    simp only [Entries.keys, List.map_cons] at ih ⊢
    rw [hr _ _ hfirst, ih]

theorem get?_rel_of_forall₂ {r : Text × α → Text × β → Prop} {xs : Entries α} {ys : Entries β}
    (h : List.Forall₂ r xs ys) (hr : ∀ x y, r x y → y.1 = x.1) (key : Text) :
    Option.Rel (fun x y => r (key, x) (key, y)) (xs.get? key) (ys.get? key) := by
  induction h with
  | nil => exact .none
  | @cons x y xs ys hfirst _ ih =>
    obtain ⟨k, v⟩ := x
    obtain ⟨k', w⟩ := y
    obtain rfl : k' = k := hr _ _ hfirst
    by_cases hk : k' = key
    · subst hk
      simpa [Entries.get?] using hfirst
    · simpa [Entries.get?, hk] using ih

namespace Logged

@[simp] theorem outcome_pure (a : α) : (pure a : Logged ε α).outcome = .ok a := rfl

@[simp] theorem outcome_ofExcept (x : Except ε α) : (ofExcept x).outcome = x := rfl

@[simp] theorem outcome_write (event : LogEvent) :
    (write event : Logged ε Unit).outcome = .ok () := rfl

@[simp] theorem outcome_bind (x : Logged ε α) (f : α → Logged ε β) :
    (x >>= f).outcome = x.outcome >>= fun a => (f a).outcome := by
  show (x.andThen f).outcome = _
  unfold andThen
  cases h : x.outcome <;> rfl

theorem andThen_pure (x : Logged ε α) : x.andThen pure = x := by
  obtain ⟨log, outcome⟩ := x
  cases outcome with
  | error e => rfl
  | ok a =>
    show (⟨log ++ [], .ok a⟩ : Logged ε α) = _
    rw [List.append_nil]

theorem pure_andThen (a : α) (f : α → Logged ε β) : andThen (pure a) f = f a := by
  show (⟨[] ++ (f a).log, (f a).outcome⟩ : Logged ε β) = _
  rw [List.nil_append]

/-- What has been written before a failure stays, whatever the grouping of the steps. -/
theorem andThen_assoc {γ : Type} (x : Logged ε α) (f : α → Logged ε β) (g : β → Logged ε γ) :
    (x.andThen f).andThen g = x.andThen fun a => (f a).andThen g := by
  obtain ⟨log, outcome⟩ := x
  cases outcome with
  | error e => rfl
  | ok a => cases h : (f a).outcome <;> simp [andThen, h]

instance : LawfulMonad (Logged ε) :=
  LawfulMonad.mk' (Logged ε) andThen_pure pure_andThen andThen_assoc

@[simp] theorem outcome_map (x : Logged ε α) (f : α → β) :
    (f <$> x).outcome = x.outcome.map f := by
  rw [map_eq_pure_bind, outcome_bind]
  cases x.outcome <;> rfl

theorem outcome_mapM (f : α → Logged ε β) (xs : List α) :
    (xs.mapM f).outcome = xs.mapM fun x => (f x).outcome := by
  induction xs with
  | nil => rfl
  | cons x xs ih =>
    rw [List.mapM_cons, List.mapM_cons, outcome_bind]
    simp only [outcome_bind, outcome_pure, ih]
    rfl

/-! ### Logs -/

@[simp] theorem log_pure (a : α) : (pure a : Logged ε α).log = [] := rfl

@[simp] theorem log_ofExcept (x : Except ε α) : (ofExcept x).log = [] := rfl

@[simp] theorem log_write (event : LogEvent) : (write event : Logged ε Unit).log = [event] := rfl

@[simp] theorem log_map (x : Logged ε α) (f : α → β) : (f <$> x).log = x.log := by
  rw [map_eq_pure_bind]
  show (x.andThen _).log = _
  unfold andThen
  cases x.outcome with
  | error e => rfl
  | ok a => exact List.append_nil _

/-- What a step writes that succeeds comes before what the next one writes. -/
theorem log_bind {x : Logged ε α} {a : α} (h : x.outcome = .ok a) (f : α → Logged ε β) :
    (x >>= f).log = x.log ++ (f a).log := by
  show (x.andThen f).log = _
  rw [andThen, h]

theorem log_mapM {f : α → Logged ε β} {xs : List α} {ys : List β}
    (h : (xs.mapM f).outcome = .ok ys) : (xs.mapM f).log = xs.flatMap fun x => (f x).log := by
  induction xs generalizing ys with
  | nil => rfl
  | cons x xs ih =>
    simp only [List.mapM_cons, outcome_bind] at h
    obtain ⟨y, hy, h⟩ := bind_eq_ok_iff.mp h
    obtain ⟨rest, hrest, -⟩ := bind_eq_ok_iff.mp h
    rw [List.mapM_cons, log_bind hy, log_bind hrest, ih hrest]
    exact congrArg _ (List.append_nil _)

end Logged
end EntityTable
