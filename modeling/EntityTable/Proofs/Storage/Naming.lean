import EntityTable.Proofs.Storage.FileTree

/-!
Which paths can be put to the system: those whose names all have bytes outside. A path that cannot
is refused before the tree is looked at.
-/

namespace EntityTable

/-- The code point is neither a null nor a surrogate that stands for no byte. -/
def CodePoint.HasBytes (c : CodePoint) : Prop :=
  c.val ≠ 0 ∧ (c.isSurrogate = true → c.isByteEscape = true)

/-- A name that can be put to the system. -/
def Text.HasBytes (t : Text) : Prop := ∀ c ∈ t, c.HasBytes

/-- The name of a path has bytes, and so have those of the directory that its text leads to. -/
def Path.Nameable (here : List Text) (p : Path) : Prop :=
  ∀ name ∈ p.parent.locate here ++ [p.name], name.HasBytes

instance (c : CodePoint) : Decidable c.HasBytes := inferInstanceAs (Decidable (_ ∧ _))

instance (t : Text) : Decidable t.HasBytes := inferInstanceAs (Decidable (∀ c ∈ t, c.HasBytes))

instance (here : List Text) (p : Path) : Decidable (p.Nameable here) :=
  inferInstanceAs (Decidable (∀ name ∈ p.parent.locate here ++ [p.name], Text.HasBytes name))

namespace Text

variable {s t : Text}

theorem hasBytes_append : HasBytes (s ++ t) ↔ s.HasBytes ∧ t.HasBytes := List.forall_mem_append

theorem surrogatesFrom?_eq_none_iff {refused : CodePoint → Bool} {position : Nat} :
    surrogatesFrom? refused position t = none ↔
      ∀ c ∈ t, ¬(c.isSurrogate && refused c) = true := by
  induction t generalizing position with
  | nil => simp [surrogatesFrom?]
  | cons c t ih =>
    rw [surrogatesFrom?, List.forall_mem_cons, ← @ih (position + 1)]
    split
    · next h => simp [h]
    · next h => simp [h]

theorem externalFault?_eq_none_iff : t.externalFault? = none ↔ t.HasBytes := by
  have hname : t.nameFault? = none ↔ ∀ c ∈ t, c.isSurrogate = true → c.isByteEscape = true := by
    rw [nameFault?, surrogatesFrom?_eq_none_iff]
    simp
  have hnull : t.hasNull = false ↔ ∀ c ∈ t, c.val ≠ 0 := by
    simp [hasNull]
  rw [externalFault?, Option.or_eq_none_iff, Option.map_eq_none_iff, hname]
  constructor
  · intro h c hc
    have hn : t.hasNull = false := by
      by_contra htrue
      simp [htrue] at h
    exact ⟨hnull.mp hn c hc, h.1 c hc⟩
  · intro h
    have hn : t.hasNull = false := hnull.mpr fun c hc => (h c hc).1
    exact ⟨fun c hc => (h c hc).2, by simp [hn]⟩

theorem hasBytes_of_forall {p : CodePoint → Prop} (hp : ∀ c, p c → c.isAscii = true ∧ c.val ≠ 0)
    (h : ∀ c ∈ t, p c) : t.HasBytes := by
  intro c hc
  obtain ⟨hascii, hzero⟩ := hp c (h c hc)
  have hval : c.val < 0x80 := of_decide_eq_true hascii
  refine ⟨hzero, ?_⟩
  intro hsurrogate
  simp only [CodePoint.isSurrogate, CodePoint.isHighSurrogate, CodePoint.isLowSurrogate,
    Bool.or_eq_true, Bool.and_eq_true, decide_eq_true_eq] at hsurrogate
  omega

theorem hasBytes_hex (width n : Nat) : (hex width n).HasBytes := by
  refine hasBytes_of_forall (p := fun c => c.hexDigit?.isSome = true) ?_ fun c hc =>
    hexDigit?_of_mem_hex hc
  intro c hc
  refine ⟨isAscii_of_hexDigit? hc, ?_⟩
  intro hzero
  simp [CodePoint.hexDigit?, CodePoint.isAsciiDigit, hzero] at hc

theorem hasBytes_join {parts : List Text} :
    HasBytes (join "/" parts) ↔ ∀ part ∈ parts, part.HasBytes := by
  induction parts with
  | nil => simp [join, HasBytes]
  | cons part parts ih =>
    cases parts with
    | nil => simp [join]
    | cons next parts =>
      have hslash : HasBytes "/" := by decide
      rw [join_cons_cons, hasBytes_append, hasBytes_append, ih,
        List.forall_mem_cons (p := fun part => HasBytes part) (l := next :: parts)]
      exact ⟨fun h => ⟨h.1.1, h.2⟩, fun h => ⟨⟨h.1, hslash⟩, h.2⟩⟩

theorem hasBytes_of_split {separator : CodePoint} (hs : separator.HasBytes)
    (h : ∀ piece ∈ t.split separator, piece.HasBytes) : t.HasBytes := by
  induction t with
  | nil => simp [HasBytes]
  | cons c t ih =>
    rw [split] at h
    split at h
    · next heq =>
      have hrest := ih (List.forall_mem_cons.mp h).2
      exact List.forall_mem_cons.mpr ⟨heq ▸ hs, hrest⟩
    · split at h
      · next hnil =>
        have hrest := ih (hnil ▸ List.forall_mem_nil _)
        exact List.forall_mem_cons.mpr ⟨h [c] (List.mem_singleton.mpr rfl) c
          (List.mem_singleton.mpr rfl), hrest⟩
      · next first pieces hpieces =>
        have hfirst := (List.forall_mem_cons.mp h).1
        have hrest : HasBytes t := by
          apply ih
          rw [hpieces]
          exact List.forall_mem_cons.mpr
            ⟨fun d hd => hfirst d (List.mem_cons_of_mem _ hd), (List.forall_mem_cons.mp h).2⟩
        exact List.forall_mem_cons.mpr ⟨hfirst c (List.mem_cons_self ..), hrest⟩

end Text

namespace Path

theorem hasBytes_toText {p : Path} : p.toText.HasBytes ↔ ∀ part ∈ p.parts, part.HasBytes := by
  obtain ⟨root, parts⟩ := p
  have hslash : Text.HasBytes "/" := by decide
  have hslashes : Text.HasBytes "//" := by decide
  cases root with
  | relative =>
    cases parts with
    | nil =>
      have hdot : Text.HasBytes "." := by decide
      exact iff_of_true hdot fun part hp => absurd hp List.not_mem_nil
    | cons part parts => exact Text.hasBytes_join
  | single =>
    simp only [toText, Text.concat, List.flatten_cons, List.flatten_nil, List.append_nil,
      Text.hasBytes_append, Text.hasBytes_join]
    exact ⟨fun h => h.2, fun h => ⟨hslash, h⟩⟩
  | double =>
    simp only [toText, Text.concat, List.flatten_cons, List.flatten_nil, List.append_nil,
      Text.hasBytes_append, Text.hasBytes_join]
    exact ⟨fun h => h.2, fun h => ⟨hslashes, h⟩⟩

theorem hasBytes_of_ofText {t : Text} (h : ∀ part ∈ (ofText t).parts, Text.HasBytes part) :
    t.HasBytes := by
  have hslash : (CodePoint.ofChar '/').HasBytes := by decide
  apply Text.hasBytes_of_split hslash
  intro piece hpiece
  by_cases hkept : piece ≠ [] ∧ piece ≠ "."
  · exact h piece (List.mem_filter.mpr ⟨hpiece, decide_eq_true hkept⟩)
  · have hskipped : piece = [] ∨ piece = "." := by tauto
    rcases hskipped with rfl | rfl
    · simp [Text.HasBytes]
    · decide

theorem hasBytes_ascend {p : Path} (h : ∀ part ∈ p.parts, Text.HasBytes part) :
    ∀ part ∈ p.ascend.parts, Text.HasBytes part := by
  have hdots : Text.HasBytes ".." := by decide
  unfold ascend
  split
  · exact List.forall_mem_append.mpr ⟨h, List.forall_mem_singleton.mpr hdots⟩
  · exact fun part hp => h part (List.dropLast_subset _ hp)

/-- The stops have bytes if the names on the way to them have. -/
theorem hasBytes_stopsFrom_iff {reached : Path} {parts : List Text}
    (hr : ∀ part ∈ reached.parts, Text.HasBytes part) :
    (∀ stop ∈ stopsFrom reached parts, stop.toText.HasBytes) ↔
      ∀ part ∈ parts, Text.HasBytes part := by
  induction parts generalizing reached with
  | nil => simp [stopsFrom]
  | cons part parts ih =>
    rw [stopsFrom, List.forall_mem_cons]
    split
    · next hdots =>
      have hpart : Text.HasBytes part := by
        rw [hdots]
        decide
      rw [ih (hasBytes_ascend hr)]
      exact (and_iff_right hpart).symm
    · rw [List.forall_mem_cons, hasBytes_toText, List.forall_mem_append,
        List.forall_mem_singleton]
      constructor
      · intro h
        have hnext := List.forall_mem_append.mpr ⟨hr, List.forall_mem_singleton.mpr h.1.2⟩
        exact ⟨h.1.2, (ih hnext).mp h.2⟩
      · intro h
        have hnext := List.forall_mem_append.mpr ⟨hr, List.forall_mem_singleton.mpr h.1⟩
        exact ⟨⟨hr, h.1⟩, (ih hnext).mpr h.2⟩

/-- A path can be followed, as far as its text goes, if every part has bytes. -/
theorem externalFault?_eq_none_iff {p : Path} :
    p.externalFault? = none ↔ ∀ part ∈ p.parts, Text.HasBytes part := by
  have hstart : ∀ part ∈ (Path.mk (if p.root = .relative then .relative else .single) []).parts,
      Text.HasBytes part := by simp
  rw [externalFault?, List.findSome?_eq_none_iff, ← hasBytes_stopsFrom_iff hstart]
  simp only [Text.externalFault?_eq_none_iff]
  rfl

/-- Such a path can be put to the system if the directory it starts from can. -/
theorem nameable_of_hasBytes {here : List Text} {p : Path}
    (hhere : ∀ name ∈ here, Text.HasBytes name) (h : ∀ part ∈ p.parts, Text.HasBytes part) :
    p.Nameable here := by
  rw [Nameable, List.forall_mem_append, List.forall_mem_singleton]
  constructor
  · exact forall_mem_locate hhere fun part hp _ => h part (List.dropLast_subset _ hp)
  · unfold name
    cases hlast : p.parts.getLast? with
    | none => simp [Text.HasBytes]
    | some part => exact h part (List.mem_of_getLast? hlast)

end Path

namespace FileTree

variable {tree : FileTree} {target : Path}

/-- What the system answers is about a path that it was given. -/
theorem usePath_eq_error {α : Type} {path : Text} {use : Place → Except SystemError α}
    {fault : SystemFault} (h : tree.usePath path use = .error fault) :
    (∃ f, fault = .notPath f ∧ ¬path.HasBytes) ∨
      ∃ e, fault = .answered e path ∧ path.HasBytes ∧ (tree.placeOf path >>= use) = .error e := by
  unfold usePath at h
  cases hf : path.externalFault? with
  | some f =>
    rw [hf] at h
    have hbytes : ¬path.HasBytes := by
      rw [← Text.externalFault?_eq_none_iff, hf]
      exact Option.some_ne_none f
    exact .inl ⟨f, (Except.error.inj h).symm, hbytes⟩
  | none =>
    rw [hf] at h
    obtain ⟨e, he, rfl⟩ := mapError_eq_error_iff.mp h
    exact .inr ⟨e, rfl, Text.externalFault?_eq_none_iff.mp hf, he⟩

theorem usePath_of_not_hasBytes {α : Type} {path : Text} (use : Place → Except SystemError α)
    (h : ¬path.HasBytes) : ∃ f, tree.usePath path use = .error (.notPath f) := by
  unfold usePath
  cases hf : path.externalFault? with
  | some f => exact ⟨f, rfl⟩
  | none => exact absurd (Text.externalFault?_eq_none_iff.mp hf) h

theorem hasBytes_temporaryName {name : Text} (n : Nat) :
    (temporaryName name n).HasBytes ↔ name.HasBytes := by
  have hdot : Text.HasBytes "." := by decide
  have hend : Text.HasBytes ".tmp" := by decide
  simp only [temporaryName, Text.concat, List.flatten_cons, List.flatten_nil, List.append_nil,
    Text.hasBytes_append]
  exact ⟨fun h => h.2.1, fun h => ⟨hdot, h, hdot, Text.hasBytes_hex 8 n, hend⟩⟩

/-- The text under which a temporary file is made. -/
theorem makeTemporary_eq (tree : FileTree) (target : Path) : ∃ path : Text,
    tree.makeTemporary target =
      tree.usePath path (fun temporary => .ok (temporary, tree.put temporary (.file []))) ∧
    (path.HasBytes ↔ target.Nameable tree.workingDirectory) := by
  refine ⟨_, rfl, ?_⟩
  rw [Path.hasBytes_toText, Path.Nameable, List.forall_mem_append, List.forall_mem_append,
    List.forall_mem_singleton, List.forall_mem_singleton, hasBytes_temporaryName]

theorem makeTemporary_eq_error {fault : SystemFault}
    (h : tree.makeTemporary target = .error fault) :
    (∃ f, fault = .notPath f ∧ ¬target.Nameable tree.workingDirectory) ∨
      ∃ e path, fault = .answered e path := by
  obtain ⟨path, hmake, hbytes⟩ := makeTemporary_eq tree target
  rw [hmake] at h
  rcases usePath_eq_error h with ⟨f, rfl, hnot⟩ | ⟨e, rfl, -, -⟩
  · exact .inl ⟨f, rfl, fun hnames => hnot (hbytes.mpr hnames)⟩
  · exact .inr ⟨e, path, rfl⟩

theorem makeTemporary_of_not_nameable (h : ¬target.Nameable tree.workingDirectory) :
    ∃ f, tree.makeTemporary target = .error (.notPath f) := by
  obtain ⟨path, hmake, hbytes⟩ := makeTemporary_eq tree target
  rw [hmake]
  exact usePath_of_not_hasBytes _ fun hpath => h (hbytes.mp hpath)

/-- Where every part has bytes, the system answers about every directory to make. -/
theorem ensureDirectories_eq_error {root : PathRoot} {parts : List Text}
    (hb : ∀ part ∈ parts, Text.HasBytes part) {fault : SystemFault}
    (h : (tree.ensureDirectories root parts).2 = .error fault) :
    ∃ e path, fault = .answered e path := by
  have hensure (tree : FileTree) (parts : List Text) (hb : ∀ part ∈ parts, Text.HasBytes part)
      (fault : SystemFault)
      (h : (tree.ensureDirectory (Path.mk root parts).toText).2 = .error fault) :
      ∃ e path, fault = .answered e path := by
    unfold ensureDirectory at h
    split at h
    · cases h
    · next first hmade =>
      rcases usePath_eq_error hmade with ⟨f, -, hnot⟩ | ⟨e, rfl, -, -⟩
      · exact absurd (Path.hasBytes_toText.mpr hb) hnot
      · dsimp only at h
        split at h
        · cases h
        · exact ⟨e, _, (Except.error.inj h).symm⟩
  induction parts generalizing fault with
  | nil => exact hensure tree [] hb fault h
  | cons part above ih =>
    have hpath : ∀ p ∈ (part :: above).reverse, Text.HasBytes p :=
      fun p hp => hb p (List.mem_reverse.mp hp)
    have habove := (List.forall_mem_cons.mp hb).2
    unfold ensureDirectories at h
    dsimp only at h
    split at h
    · split at h
      · exact hensure _ _ hpath fault h
      · exact ih habove h
    · exact hensure _ _ hpath fault h

end FileTree
end EntityTable
