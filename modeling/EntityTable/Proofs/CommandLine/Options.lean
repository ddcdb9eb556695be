import EntityTable.CommandLine.Options
import EntityTable.Proofs.Outcome

/-!
What every option keeps, reading a whole command line keeps: its words stand for known options, and
the arguments come from the uses of these, one after the other.
-/

namespace EntityTable.CommandLine

variable {σ : Type} {specs : List (OptionSpec σ)} {P : σ → Prop}

/-- Whatever the option does to the arguments, they keep a property. -/
def OptionSpec.Keeps (P : σ → Prop) (spec : OptionSpec σ) : Prop :=
  match spec.action with
  | .help => True
  | .switch set => ∀ args, P args → P (set args)
  | .value set => ∀ value args next, set value args = .ok next → P args → P next

/-- The word stands for no option that is not known. -/
def Word.Known (specs : List (OptionSpec σ)) : Word σ → Prop
  | .option spec _ => spec ∈ specs
  | .operand _ | .unknown _ | .refused _ => True

/-! ### Words stand for known options -/

theorem mem_of_findOption? {name : Text} {spec : OptionSpec σ}
    (h : findOption? specs name = some spec) : spec ∈ specs :=
  List.mem_of_find?_eq_some h

theorem known_cluster {spec : OptionSpec σ} (hs : spec ∈ specs) {t : Text} {words : List (Word σ)}
    (h : cluster specs spec t = .ok words) : ∀ word ∈ words, word.Known specs := by
  induction spec, t using cluster.induct specs generalizing words with
  | case1 spec =>
    rw [cluster] at h
    cases h
    simpa [Word.Known] using hs
  | case2 spec c rest hnone =>
    rw [cluster, hnone] at h
    cases h
  | case3 spec c rest next hnext htakes =>
    rw [cluster, hnext] at h
    simp only [htakes, and_self, if_true] at h
    cases h
    simpa [Word.Known] using ⟨hs, mem_of_findOption? hnext⟩
  | case4 spec c rest next hnext htakes ih =>
    rw [cluster, hnext] at h
    simp only [htakes, if_false] at h
    obtain ⟨further, hfurther, rfl⟩ := map_eq_ok_iff.mp h
    exact List.forall_mem_cons.mpr ⟨hs, ih (mem_of_findOption? hnext) hfurther⟩

theorem known_withValue {spec : OptionSpec σ} (hs : spec ∈ specs) (name value : Text) :
    ∀ word ∈ withValue specs spec name value, word.Known specs := by
  unfold withValue
  split
  · simpa [Word.Known] using hs
  · split
    · split
      · next words hwords => exact known_cluster hs hwords
      · simp [Word.Known]
    · simp [Word.Known]

theorem mem_of_mem_candidates {word : Text} {candidate : OptionSpec σ × Text × Option Text}
    (h : candidate ∈ candidates specs word) : candidate.1 ∈ specs := by
  have hnamed : ∀ pair ∈ specs.flatMap fun spec => spec.names.map fun name => (spec, name),
      pair.1 ∈ specs := by
    intro pair hpair
    obtain ⟨spec, hspec, hp⟩ := List.mem_flatMap.mp hpair
    obtain ⟨name, -, rfl⟩ := List.mem_map.mp hp
    exact hspec
  unfold candidates at h
  split at h
  all_goals
    obtain ⟨pair, hpair, hkept⟩ := List.mem_filterMap.mp h
    have hspec := hnamed pair hpair
    grind

theorem known_classifyShortened {word : Text} {words : List (Word σ)}
    (h : classifyShortened specs word = .ok words) : ∀ w ∈ words, w.Known specs := by
  have hmem := @mem_of_mem_candidates σ specs word
  unfold classifyShortened at h
  split at h
  · split at h
    all_goals
      cases h
      simp [Word.Known]
  · next spec _ heq =>
    cases h
    rw [heq] at hmem
    simpa [Word.Known] using hmem (List.mem_singleton.mpr rfl)
  · next spec name value heq =>
    cases h
    rw [heq] at hmem
    exact known_withValue (hmem (List.mem_singleton.mpr rfl)) name value
  · cases h

theorem known_classify {word : Text} {words : List (Word σ)}
    (h : classify specs word = .ok words) : ∀ w ∈ words, w.Known specs := by
  unfold classify at h
  split at h
  · cases h
    simp [Word.Known]
  · split at h
    · next spec hspec =>
      cases h
      simpa [Word.Known] using mem_of_findOption? hspec
    · exact known_classifyShortened h
    · split at h
      · next spec hspec =>
        cases h
        exact known_withValue (mem_of_findOption? hspec) _ _
      · exact known_classifyShortened h

theorem known_classifyAll {argv : List Text} {words : List (Word σ)}
    (h : classifyAll specs argv = .ok words) : ∀ w ∈ words, w.Known specs := by
  induction argv generalizing words with
  | nil =>
    cases h
    simp
  | cons word rest ih =>
    unfold classifyAll at h
    split at h
    · cases h
      simp [Word.Known]
    · obtain ⟨first, hfirst, h⟩ := bind_eq_ok_iff.mp h
      obtain ⟨further, hfurther, h⟩ := bind_eq_ok_iff.mp h
      cases h
      exact List.forall_mem_append.mpr ⟨known_classify hfirst, ih hfurther⟩

/-! ### Performing options -/

/-- The value in the next word, if the option takes one. -/
def OptionSpec.nextValue (spec : OptionSpec σ) : List (Word σ) → Option Text
  | .operand value :: _ => if spec.takesValue then some value else none
  | _ => none

/-- The options that the words use, with what each is given. A switch is given nothing, and what is
blank is nothing too. -/
def uses : List (Word σ) → List (OptionSpec σ × Option Text)
  | [] => []
  | .operand _ :: rest | .unknown _ :: rest | .refused _ :: rest => uses rest
  | .option spec (some value) :: rest => (spec, valueInWord value) :: uses rest
  | .option spec none :: rest => (spec, spec.nextValue rest) :: uses rest

/-- What the uses of options make of the arguments, one after the other. -/
inductive Leads : List (OptionSpec σ × Option Text) → σ → σ → Prop
  | nothing (args : σ) : Leads [] args args
  | switch {spec : OptionSpec σ} {set : σ → σ} {further : List (OptionSpec σ × Option Text)}
      {args result : σ} (ha : spec.action = .switch set) (h : Leads further (set args) result) :
      Leads ((spec, none) :: further) args result
  | value {spec : OptionSpec σ} {set : Option Text → σ → Except Text σ} {value : Option Text}
      {further : List (OptionSpec σ × Option Text)} {args next result : σ}
      (ha : spec.action = .value set) (hset : set value args = .ok next)
      (h : Leads further next result) : Leads ((spec, value) :: further) args result

/-- Words that are accepted lead where their uses of options do. -/
theorem leads_perform {words : List (Word σ)} {args result : σ} {extras : List Text}
    (h : perform words args = .ok (result, extras)) : Leads (uses words) args result := by
  induction words, args using perform.induct generalizing extras with
  | case1 args =>
    cases h
    exact .nothing _
  | case2 word rest args ih =>
    obtain ⟨reached, hreached, h⟩ := bind_eq_ok_iff.mp h
    cases h
    exact ih hreached
  | case3 word rest args ih =>
    obtain ⟨reached, hreached, h⟩ := bind_eq_ok_iff.mp h
    cases h
    exact ih hreached
  | case4 e tail args => cases h
  | case5 spec value rest args set ha ih =>
    rw [perform, ha] at h
    obtain ⟨next, hnext, h⟩ := bind_eq_ok_iff.mp h
    exact .value ha (mapError_eq_ok_iff.mp hnext) (ih next h)
  | case6 spec value rest args ha =>
    rw [perform, ha] at h
    cases h
  | case7 spec value rest args set ha =>
    rw [perform, ha] at h
    cases h
  | case8 spec rest args ha =>
    rw [perform, ha] at h
    cases h
  | case9 spec rest args set ha ih =>
    rw [perform, ha] at h
    have hnothing : spec.nextValue rest = none := by
      unfold OptionSpec.nextValue
      simp only [OptionSpec.takesValue, ha, Bool.false_eq_true, if_false]
      split <;> rfl
    rw [uses, hnothing]
    exact .switch ha (ih h)
  | case10 spec args set ha value rest ih =>
    rw [perform, ha] at h
    obtain ⟨next, hnext, h⟩ := bind_eq_ok_iff.mp h
    have hvalue : spec.nextValue (.operand value :: rest) = some value := by
      simp [OptionSpec.nextValue, OptionSpec.takesValue, ha]
    rw [uses, hvalue]
    exact .value ha (mapError_eq_ok_iff.mp hnext) (ih next h)
  | case11 spec rest args set ha hrest =>
    rw [perform, ha] at h
    cases rest with
    | nil => cases h
    | cons word rest =>
      cases word with
      | operand value => exact absurd rfl (hrest value rest)
      | _ => cases h

theorem mem_of_mem_uses {words : List (Word σ)} (hw : ∀ w ∈ words, w.Known specs) :
    ∀ use ∈ uses words, use.1 ∈ specs := by
  induction words with
  | nil => simp [uses]
  | cons word rest ih =>
    obtain ⟨hword, hrest⟩ := List.forall_mem_cons.mp hw
    cases word with
    | operand text => exact ih hrest
    | unknown text => exact ih hrest
    | refused error => exact ih hrest
    | option spec value => cases value <;> exact List.forall_mem_cons.mpr ⟨hword, ih hrest⟩

/-- What comes out of a command line that is accepted. -/
theorem leads_parse {initial args : σ} {argv : List Text}
    (h : parse specs initial argv = .ok args) :
    ∃ words, classifyAll specs argv = .ok words ∧ Leads (uses words) initial args := by
  obtain ⟨words, hwords, h⟩ := bind_eq_ok_iff.mp h
  obtain ⟨⟨reached, extras⟩, hreached, h⟩ := bind_eq_ok_iff.mp h
  refine ⟨words, mapError_eq_ok_iff.mp hwords, ?_⟩
  dsimp only at h
  split at h
  · cases h
  · cases h
    exact leads_perform hreached

/-- One use after the other, the arguments keep what every option keeps. -/
theorem Leads.keeps {used : List (OptionSpec σ × Option Text)} {args result : σ}
    (h : Leads used args result) (hk : ∀ use ∈ used, use.1.Keeps P) (hp : P args) : P result := by
  induction h with
  | nothing args => exact hp
  | switch ha _ ih =>
    obtain ⟨hfirst, hrest⟩ := List.forall_mem_cons.mp hk
    rw [OptionSpec.Keeps, ha] at hfirst
    exact ih hrest (hfirst _ hp)
  | value ha hset _ ih =>
    obtain ⟨hfirst, hrest⟩ := List.forall_mem_cons.mp hk
    rw [OptionSpec.Keeps, ha] at hfirst
    exact ih hrest (hfirst _ _ _ hset hp)

theorem keeps_parse (hk : ∀ spec ∈ specs, spec.Keeps P) {initial args : σ} {argv : List Text}
    (h : parse specs initial argv = .ok args) (hp : P initial) : P args := by
  obtain ⟨words, hwords, hleads⟩ := leads_parse h
  have hused := mem_of_mem_uses (known_classifyAll hwords)
  exact hleads.keeps (fun use hu => hk use.1 (hused use hu)) hp

end EntityTable.CommandLine
