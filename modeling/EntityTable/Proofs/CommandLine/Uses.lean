import EntityTable.Proofs.CommandLine.Options

/-!
An argument that one option alone sets is what the last use of that option makes it.
-/

namespace EntityTable.CommandLine

variable {σ β : Type} {specs : List (OptionSpec σ)} {name : Text}

/-- What an option is given in the end, if it is used. -/
def lastUse (name : Text) (used : List (OptionSpec σ × Option Text)) : Option (Option Text) :=
  (used.filter fun use => use.1.names.contains name).getLast?.map (·.2)

/-- What a command line gives to an option in the end, if it uses it. -/
def given (specs : List (OptionSpec σ)) (argv : List Text) (name : Text) : Option (Option Text) :=
  (classifyAll specs argv).toOption.bind fun words => lastUse name (uses words)

theorem lastUse_cons (spec : OptionSpec σ) (value : Option Text)
    (further : List (OptionSpec σ × Option Text)) : lastUse name ((spec, value) :: further) =
      if name ∈ spec.names then (lastUse name further).or (some value)
      else lastUse name further := by
  unfold lastUse
  rw [List.filter_cons]
  by_cases hn : name ∈ spec.names
  · simp only [List.contains_eq_mem, hn, decide_true, if_true, List.getLast?_cons, Option.map_some]
    cases (List.filter _ further).getLast? <;> rfl
  · simp [hn]

/-- What an argument is in the end: as it was, or as the last use has made it. -/
def Ends (Made : Option Text → β → Prop) (before : β) (last : Option (Option Text)) (after : β) :
    Prop :=
  match last with
  | none => after = before
  | some value => Made value after

/-- Using an option makes a field of the arguments something. -/
def OptionSpec.Makes (field : σ → β) (Made : Option Text → β → Prop) (spec : OptionSpec σ) :
    Prop :=
  match spec.action with
  | .help => True
  | .switch set => ∀ args, Made none (field (set args))
  | .value set => ∀ value args next, set value args = .ok next → Made value (field next)

/-- A field that the options of a name set, and no others. -/
def OptionSpec.SetsOnly (name : Text) (field : σ → β) (Made : Option Text → β → Prop)
    (spec : OptionSpec σ) : Prop :=
  (name ∈ spec.names → spec.Makes field Made) ∧
    (name ∉ spec.names → ∀ x, spec.Keeps fun args => field args = x)

section Leads

variable {field : σ → β} {Made : Option Text → β → Prop}
  {further : List (OptionSpec σ × Option Text)} {spec : OptionSpec σ} {value : Option Text}
  {args next : σ} {after : β}

theorem OptionSpec.SetsOnly.of_switch (h : spec.SetsOnly name field Made) {set : σ → σ}
    (ha : spec.action = .switch set) (args : σ) :
    if name ∈ spec.names then Made none (field (set args)) else field (set args) = field args := by
  obtain ⟨hmakes, hkeeps⟩ := h
  simp only [Makes, Keeps, ha] at hmakes hkeeps
  by_cases hn : name ∈ spec.names
  · rw [if_pos hn]
    exact hmakes hn args
  · rw [if_neg hn]
    exact hkeeps hn _ args rfl

theorem OptionSpec.SetsOnly.of_value (h : spec.SetsOnly name field Made)
    {set : Option Text → σ → Except Text σ} (ha : spec.action = .value set)
    (hset : set value args = .ok next) :
    if name ∈ spec.names then Made value (field next) else field next = field args := by
  obtain ⟨hmakes, hkeeps⟩ := h
  simp only [Makes, Keeps, ha] at hmakes hkeeps
  by_cases hn : name ∈ spec.names
  · rw [if_pos hn]
    exact hmakes hn value args next hset
  · rw [if_neg hn]
    exact hkeeps hn _ value args next hset rfl

/-- A use in front counts if its option is not used again. -/
theorem Ends.cons (h : Ends Made (field next) (lastUse name further) after)
    (hfirst : if name ∈ spec.names then Made value (field next) else field next = field args) :
    Ends Made (field args) (lastUse name ((spec, value) :: further)) after := by
  rw [lastUse_cons]
  by_cases hn : name ∈ spec.names
  · rw [if_pos hn] at hfirst ⊢
    generalize lastUse name further = last at h
    cases last with
    | none =>
      obtain rfl : after = field next := h
      exact hfirst
    | some later => exact h
  · rw [if_neg hn] at hfirst ⊢
    rw [← hfirst]
    exact h

/-- Use by use, the field follows its own option. -/
theorem Leads.ends {used : List (OptionSpec σ × Option Text)} {args result : σ}
    (h : Leads used args result) (hf : ∀ use ∈ used, use.1.SetsOnly name field Made) :
    Ends Made (field args) (lastUse name used) (field result) := by
  induction h with
  | nothing args => rfl
  | @switch spec set further args result ha _ ih =>
    obtain ⟨hfirst, hrest⟩ := List.forall_mem_cons.mp hf
    exact (ih hrest).cons (hfirst.of_switch ha args)
  | @value spec set value further args next result ha hset _ ih =>
    obtain ⟨hfirst, hrest⟩ := List.forall_mem_cons.mp hf
    exact (ih hrest).cons (hfirst.of_value ha hset)

end Leads

theorem ends_parse {field : σ → β} {Made : Option Text → β → Prop}
    (hf : ∀ spec ∈ specs, spec.SetsOnly name field Made) {initial args : σ} {argv : List Text}
    (h : parse specs initial argv = .ok args) :
    Ends Made (field initial) (given specs argv name) (field args) := by
  obtain ⟨words, hwords, hleads⟩ := leads_parse h
  have hused := mem_of_mem_uses (known_classifyAll hwords)
  rw [given, hwords]
  exact hleads.ends fun use hu => hf use.1 (hused use hu)

end EntityTable.CommandLine
