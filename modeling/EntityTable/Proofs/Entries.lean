import EntityTable.Entries
import Mathlib.Data.List.Nodup

/-!
Lookup in key-value lists: which keys have a value, and what storing, dropping and appending
entries changes.
-/

namespace EntityTable.Entries

variable {α β : Type}

/-- None of the known keys is in use. -/
def Lacks (known : List Text) (entries : Entries α) : Prop := ∀ key ∈ known, key ∉ entries.keys

instance (known : List Text) (entries : Entries α) : Decidable (entries.Lacks known) :=
  inferInstanceAs (Decidable (∀ key ∈ known, key ∉ entries.keys))

theorem get?_eq_none_iff {entries : Entries α} {key : Text} :
    entries.get? key = none ↔ key ∉ entries.keys := by
  induction entries with
  | nil => simp [get?, keys]
  | cons entry rest ih =>
    obtain ⟨k, v⟩ := entry
    by_cases hk : k = key
    · simp [get?, keys, hk]
    · have hk' : key ≠ k := fun h => hk h.symm
      simp only [get?, hk, if_false, ih]
      simp [keys, hk']

theorem contains_iff {entries : Entries α} {key : Text} :
    entries.contains key = true ↔ key ∈ entries.keys := by
  rw [contains, Option.isSome_iff_ne_none, ne_eq, get?_eq_none_iff, Classical.not_not]

theorem exists_get?_of_mem_keys {entries : Entries α} {key : Text} (h : key ∈ entries.keys) :
    ∃ value, entries.get? key = some value := by
  have hs : entries.contains key = true := contains_iff.mpr h
  exact Option.isSome_iff_exists.mp hs

theorem mem_of_get? {entries : Entries α} {key : Text} {value : α}
    (h : entries.get? key = some value) : (key, value) ∈ entries := by
  induction entries with
  | nil => simp [get?] at h
  | cons entry rest ih =>
    obtain ⟨k, v⟩ := entry
    by_cases hk : k = key
    · obtain rfl : v = value := by simpa [get?, hk] using h
      simp [hk]
    · exact List.mem_cons_of_mem _ (ih (by simpa [get?, hk] using h))

/-- Distinct keys make every entry the one that is found. -/
theorem get?_of_mem {entries : Entries α} {key : Text} {value : α} (hn : entries.keys.Nodup)
    (h : (key, value) ∈ entries) : entries.get? key = some value := by
  induction entries with
  | nil => simp at h
  | cons entry rest ih =>
    obtain ⟨k, v⟩ := entry
    obtain ⟨hk, hrest⟩ := List.nodup_cons.mp hn
    rcases List.mem_cons.mp h with heq | hmem
    · obtain ⟨rfl, rfl⟩ := Prod.mk.inj heq
      simp [get?]
    · have hne : k ≠ key := by
        intro he
        subst he
        exact hk (List.mem_map.mpr ⟨_, hmem, rfl⟩)
      rw [get?, if_neg hne]
      exact ih hrest hmem

theorem get?_eq_some_iff {entries : Entries α} (hn : entries.keys.Nodup) {key : Text} {value : α} :
    entries.get? key = some value ↔ (key, value) ∈ entries :=
  ⟨mem_of_get?, get?_of_mem hn⟩

/-- Entries whose keys are distinct are found alike in any order. -/
theorem perm_iff_get?_eq {xs ys : Entries α} (hx : xs.keys.Nodup) (hy : ys.keys.Nodup) :
    xs.Perm ys ↔ ∀ key, xs.get? key = ys.get? key := by
  rw [List.perm_ext_iff_of_nodup (List.Nodup.of_map _ hx) (List.Nodup.of_map _ hy)]
  constructor
  · intro h key
    refine Option.ext fun value => ?_
    rw [get?_eq_some_iff hx, get?_eq_some_iff hy, h]
  · intro h entry
    rw [← get?_eq_some_iff hx, ← get?_eq_some_iff hy, h]

theorem get?_append (xs ys : Entries α) (key : Text) :
    get? key (xs ++ ys) = (xs.get? key).or (ys.get? key) := by
  induction xs with
  | nil => simp [get?]
  | cons entry rest ih =>
    obtain ⟨k, v⟩ := entry
    by_cases hk : k = key <;> simp [get?, hk, ih]

@[simp] theorem get?_put (entries : Entries α) (key asked : Text) (value : α) :
    get? asked (entries.put key value) =
      if key = asked then some value else entries.get? asked := by
  induction entries with
  | nil => simp [put, get?]
  | cons entry rest ih =>
    obtain ⟨k, v⟩ := entry
    by_cases hk : k = key
    · by_cases ha : key = asked <;> simp [put, get?, hk, ha]
    · by_cases ha : k = asked
      · subst ha
        simp [put, get?, hk, Ne.symm hk]
      · simp [put, get?, hk, ha, ih]

theorem mem_keys_put {entries : Entries α} {key asked : Text} {value : α} :
    asked ∈ (entries.put key value).keys ↔ asked = key ∨ asked ∈ entries.keys := by
  rw [← contains_iff, ← contains_iff]
  by_cases h : key = asked
  · simp [contains, h]
  · have h' : asked ≠ key := fun he => h he.symm
    simp [contains, h, h']

theorem mem_of_mem_put {entries : Entries α} {key : Text} {value : α} {entry : Text × α}
    (h : entry ∈ entries.put key value) : entry = (key, value) ∨ entry ∈ entries := by
  induction entries with
  | nil => simpa [put] using h
  | cons first rest ih =>
    obtain ⟨k, v⟩ := first
    by_cases hk : k = key
    · rw [put, if_pos hk] at h
      exact (List.mem_cons.mp h).imp_right (List.mem_cons_of_mem _)
    · rw [put, if_neg hk] at h
      rcases List.mem_cons.mp h with heq | hm
      · exact .inr (List.mem_cons.mpr (.inl heq))
      · exact (ih hm).imp_right (List.mem_cons_of_mem _)

theorem nodup_keys_put {entries : Entries α} (key : Text) (value : α) (hn : entries.keys.Nodup) :
    (entries.put key value).keys.Nodup := by
  induction entries with
  | nil => simp [put, keys]
  | cons entry rest ih =>
    obtain ⟨k, v⟩ := entry
    by_cases hk : k = key
    · simpa [put, keys, hk] using hn
    · obtain ⟨hfirst, hrest⟩ := List.nodup_cons.mp hn
      rw [put, if_neg hk]
      refine List.nodup_cons.mpr ⟨?_, ih hrest⟩
      intro hm
      exact (mem_keys_put.mp hm).elim hk hfirst

theorem nodup_keys_ofList (pairs : List (Text × α)) : (ofList pairs).keys.Nodup := by
  have hstep (entries : Entries α) (hn : entries.keys.Nodup) (pair : Text × α) :
      (entries.put pair.1 pair.2).keys.Nodup := nodup_keys_put pair.1 pair.2 hn
  exact List.foldlRecOn (motive := fun entries : Entries α => entries.keys.Nodup) pairs _
    List.nodup_nil fun entries hn pair _ => hstep entries hn pair

theorem put_of_not_mem {entries : Entries α} {key : Text} (h : key ∉ entries.keys) (value : α) :
    entries.put key value = entries ++ [(key, value)] := by
  induction entries with
  | nil => rfl
  | cons entry rest ih =>
    obtain ⟨hne, hrest⟩ := not_or.mp (mt List.mem_cons.mpr h)
    rw [put, if_neg (Ne.symm hne), ih hrest, List.cons_append]

/-- A list without a repeated key is kept as it is. -/
theorem ofList_of_nodup {entries : Entries α} (h : entries.keys.Nodup) :
    ofList entries = entries := by
  have hfold (before : Entries α) (hn : (keys (before ++ entries)).Nodup) :
      entries.foldl (fun entries entry => entries.put entry.1 entry.2) before =
        before ++ entries := by
    clear h
    induction entries generalizing before with
    | nil => rw [List.foldl_nil, List.append_nil]
    | cons entry rest ih =>
      have hnew : entry.1 ∉ before.keys := by
        intro hm
        rw [keys, List.map_append, List.map_cons] at hn
        exact (List.nodup_append.mp hn).2.2 entry.1 hm entry.1 (List.mem_cons_self ..) rfl
      have hsplit : before ++ entry :: rest = (before ++ [entry]) ++ rest := by simp
      rw [List.foldl_cons, put_of_not_mem hnew, hsplit, ih _ (hsplit ▸ hn)]
  exact hfold [] h

theorem mem_of_mem_ofList {pairs : List (Text × α)} :
    ∀ entry ∈ ofList pairs, entry ∈ pairs := by
  refine List.foldlRecOn (motive := fun entries : Entries α => ∀ entry ∈ entries, entry ∈ pairs)
    pairs _ (by simp) ?_
  intro entries ih pair hp entry he
  rcases mem_of_mem_put he with rfl | hm
  · exact hp
  · exact ih entry hm

theorem mem_keys_without {entries : Entries α} {known : List Text} {key : Text} :
    key ∈ (entries.without known).keys ↔ key ∈ entries.keys ∧ key ∉ known := by
  simp only [keys, without, List.mem_map, List.mem_filter]
  constructor
  · intro h
    obtain ⟨entry, ⟨hm, hk⟩, rfl⟩ := h
    exact ⟨⟨entry, hm, rfl⟩, by simpa using hk⟩
  · intro h
    obtain ⟨⟨entry, hm, rfl⟩, hk⟩ := h
    exact ⟨entry, ⟨hm, by simpa using hk⟩, rfl⟩

theorem get?_without (entries : Entries α) (known : List Text) (key : Text) :
    (entries.without known).get? key = if key ∈ known then none else entries.get? key := by
  induction entries with
  | nil => simp [without, get?]
  | cons entry rest ih =>
    obtain ⟨k, v⟩ := entry
    have hstep : without known ((k, v) :: rest) =
        if k ∈ known then without known rest else (k, v) :: without known rest := by
      by_cases hk : k ∈ known <;> simp [without, hk]
    rw [hstep]
    by_cases hk : k = key
    · subst hk
      by_cases hknown : k ∈ known <;> simp [hknown, get?, ih]
    · by_cases hknown : k ∈ known <;> simp [hknown, hk, get?, ih]

theorem nodup_keys_without {entries : Entries α} (hn : entries.keys.Nodup) (known : List Text) :
    (entries.without known).keys.Nodup :=
  hn.sublist (List.filter_sublist.map _)

theorem lacks_without (known : List Text) (entries : Entries α) :
    (entries.without known).Lacks known := by
  intro key hk hm
  exact (mem_keys_without.mp hm).2 hk

theorem without_put {known : List Text} {key : Text} (hk : key ∈ known) (entries : Entries α)
    (value : α) : (entries.put key value).without known = entries.without known := by
  induction entries with
  | nil => simp [put, without, hk]
  | cons entry rest ih =>
    obtain ⟨k, v⟩ := entry
    by_cases heq : k = key
    · simp [put, without, heq, hk]
    · by_cases hm : k ∈ known <;> simpa [put, without, heq, hm] using ih

theorem without_of_lacks {entries : Entries α} {known : List Text} (h : entries.Lacks known) :
    entries.without known = entries := by
  rw [without, List.filter_eq_self]
  intro entry he
  have hunknown : entry.1 ∉ known := fun hk => h entry.1 hk (List.mem_map_of_mem he)
  simpa using hunknown

theorem without_of_not_mem {entries : Entries α} {key : Text} (h : key ∉ entries.keys) :
    entries.without [key] = entries :=
  without_of_lacks (List.forall_mem_singleton.mpr h)

theorem keys_mapValues (f : Text → α → β) (entries : Entries α) :
    (entries.mapValues f).keys = entries.keys := by
  simp [keys, mapValues]

theorem get?_mapValues (f : Text → α → β) (entries : Entries α) (key : Text) :
    (entries.mapValues f).get? key = (entries.get? key).map (f key) := by
  induction entries with
  | nil => rfl
  | cons entry rest ih =>
    obtain ⟨k, v⟩ := entry
    by_cases hk : k = key
    · subst hk
      simp [mapValues, get?]
    · simpa [mapValues, get?, hk] using ih

end EntityTable.Entries
