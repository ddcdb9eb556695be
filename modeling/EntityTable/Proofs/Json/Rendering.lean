import EntityTable.Json.Reader
import EntityTable.Proofs.Json.Numbers
import EntityTable.Proofs.Json.Pieces
import EntityTable.Proofs.Json.Readable
import EntityTable.Proofs.Json.Strings

/-!
Values that are written read back. The reader goes through the text of a value from any state in
which a value is expected, and comes out with the value, whatever containers are open around it.
-/

namespace EntityTable.Json

open Lexeme Reader

namespace Reader

/-- Behind `s`, with `rest` still to come, the reader has gone from one state to another. -/
def Leads (before : State) (s : Text) (after : State) (rest : Text) : Prop :=
  ∀ offset, (tokens offset (s ++ rest)).foldlM step before =
    (tokens (offset + s.length) rest).foldlM step after

variable {before between after state : State} {s t rest : Text}

theorem Leads.append (h : Leads before s between (t ++ rest)) (h' : Leads between t after rest) :
    Leads before (s ++ t) after rest := by
  intro offset
  rw [List.append_assoc, h, h', List.length_append, Nat.add_assoc]

theorem leads_blank (hs : ∀ c ∈ s, isBlank c = true) : Leads state s state rest := by
  induction s with
  | nil => exact fun offset => rfl
  | cons c s ih =>
    obtain ⟨hc, hs⟩ := List.forall_mem_cons.mp hs
    intro offset
    rw [List.cons_append, tokens, if_pos hc, ih hs, List.length_cons]
    congr 2
    omega

theorem leads_lexeme {c : CodePoint} {lexeme : Lexeme} (hblank : isBlank c = false)
    (hscan : ∀ offset, scan offset c (t ++ rest) = (lexeme, t.length))
    (hrefused : lexeme.isRefused = false)
    (hstep : ∀ offset, step before ⟨offset, lexeme⟩ = .ok after) :
    Leads before (c :: t) after rest := by
  intro offset
  rw [List.cons_append, tokens, hblank, hscan]
  simp only [Bool.false_eq_true, if_false, hrefused, List.foldlM_cons, hstep, List.drop_left,
    List.length_cons]
  rw [show offset + 1 + t.length = offset + (t.length + 1) by omega]
  rfl

/-! ### Values without items -/

theorem scan_renderString {u : Text} (hu : u.SurrogatesApart) (offset : Nat) :
    scan offset CodePoint.doubleQuote (u.flatMap escape ++ [CodePoint.doubleQuote] ++ rest) =
      (.string u, (u.flatMap escape ++ [CodePoint.doubleQuote]).length) := by
  rw [scan, if_pos rfl, quotedString, List.append_assoc, List.singleton_append,
    stringBody_escape hu, List.length_append]
  rfl

/-- A number is read to its end. -/
theorem leads_number {frames : List Frame} {fresh : Bool} {s rest : Text} {v : Json}
    (h : number? (s ++ rest) = some (.scalar v, s.length)) :
    Leads ⟨frames, .value fresh⟩ s ⟨frames, .complete v⟩ rest := by
  cases s with
  | nil => exact absurd (length_number?_pos h) (Nat.lt_irrefl 0)
  | cons c t =>
    obtain ⟨hblank, hscan⟩ := scan_of_number? h
    exact leads_lexeme hblank hscan rfl fun _ => rfl

/-! ### Containers -/

/-- What the reader does around and between the items of a container, which it holds with the last
one first: it awaits an item, holds one more, and has the container when it is closed. -/
structure Container {α : Type} (before : State) (opening closing : CodePoint)
    (awaits : List α → State) (holds : α → List α → State) (closed : List α → State) : Prop where
  opens : ∀ rest, Leads before [opening] (awaits []) rest
  empty : ∀ rest, Leads (awaits []) [closing] (closed []) rest
  comma : ∀ x items rest, Leads (holds x items) [CodePoint.ofChar ','] (awaits (x :: items)) rest
  closes : ∀ x items rest, Leads (holds x items) [closing] (closed (x :: items)) rest
  ends : ∀ rest, EndsNumber (closing :: rest)

theorem array_container (frames : List Frame) (fresh : Bool) :
    Container ⟨frames, .value fresh⟩ (CodePoint.ofChar '[') (CodePoint.ofChar ']')
      (fun items => ⟨.array items :: frames, .value items.isEmpty⟩)
      (fun v items => ⟨.array items :: frames, .complete v⟩)
      (fun items => ⟨frames, .complete (.array items.reverse)⟩) where
  opens _ := leads_lexeme rfl (fun _ => rfl) rfl fun _ => rfl
  empty _ := leads_lexeme rfl (fun _ => rfl) rfl fun _ => rfl
  comma _ _ _ := leads_lexeme rfl (fun _ => rfl) rfl fun _ => rfl
  closes _ _ _ := leads_lexeme rfl (fun _ => rfl) rfl fun _ => rfl
  ends := endsNumber_cons (by decide)

theorem object_container (frames : List Frame) (fresh : Bool) :
    Container ⟨frames, .value fresh⟩ (CodePoint.ofNat 0x7B) (CodePoint.ofNat 0x7D)
      (fun members => ⟨frames, .name members.isEmpty members⟩)
      (fun entry members => ⟨.member members entry.1 :: frames, .complete entry.2⟩)
      (fun members => ⟨frames, .complete (object members)⟩) where
  opens _ := leads_lexeme rfl (fun _ => rfl) rfl fun _ => rfl
  empty _ := leads_lexeme rfl (fun _ => rfl) rfl fun _ => rfl
  comma _ _ _ := leads_lexeme rfl (fun _ => rfl) rfl fun _ => rfl
  closes _ _ _ := leads_lexeme rfl (fun _ => rfl) rfl fun _ => rfl
  ends := endsNumber_cons (by decide)

section Containers

variable {α : Type} {before : State} {opening closing : CodePoint} {awaits : List α → State}
  {holds : α → List α → State} {closed : List α → State} {text : α → Text} {inner ending : Text}

theorem isBlank_lineBreak (layout : Layout) (level : Nat) :
    ∀ c ∈ layout.lineBreak level, isBlank c = true := by
  cases layout with
  | compact => exact List.forall_mem_nil _
  | indented width =>
    refine List.forall_mem_cons.mpr ⟨rfl, fun c hc => ?_⟩
    rw [List.eq_of_mem_replicate hc]
    rfl

theorem endsNumber_blank {s : Text} (hs : ∀ c ∈ s, isBlank c = true) {rest : Text}
    (hr : EndsNumber rest) : EndsNumber (s ++ rest) := by
  cases s with
  | nil => exact hr
  | cons b s =>
    have hb := (List.forall_mem_cons.mp hs).1
    have hother {d : CodePoint} (hd : isBlank d = false) : ¬b = d := by
      rintro rfl
      rw [hd] at hb
      cases hb
    refine endsNumber_cons ⟨?_, hother rfl, hother rfl, hother rfl⟩ _
    simp only [isBlank, Bool.or_eq_true, beq_iff_eq] at hb
    simp only [CodePoint.isAsciiDigit, Bool.and_eq_true, decide_eq_true_eq]
    omega

/-- Items between commas, up to the end of their container. -/
theorem Container.leads_join (hk : Container before opening closing awaits holds closed)
    (hinner : ∀ c ∈ inner, isBlank c = true) (hending : ∀ c ∈ ending, isBlank c = true)
    (rest : Text) {x : α} {xs : List α} (items : List α)
    (hitem : ∀ y ∈ x :: xs, ∀ items rest, EndsNumber rest →
      Leads (awaits items) (text y) (holds y items) rest) :
    Leads (awaits items)
      (Text.join (CodePoint.ofChar ',' :: inner) ((x :: xs).map text) ++ (ending ++ [closing]))
      (closed ((x :: xs).reverse ++ items)) rest := by
  induction xs generalizing x items with
  | nil =>
    have hx := hitem x (List.mem_singleton_self x) items
    rw [List.map_singleton, Text.join_singleton, List.reverse_singleton]
    refine (hx _ ?_).append ((leads_blank hending).append (hk.closes x items rest))
    rw [List.append_assoc]
    exact endsNumber_blank hending (hk.ends rest)
  | cons y ys ih =>
    obtain ⟨hx, hrest⟩ := List.forall_mem_cons.mp hitem
    have hjoin : Text.join (CodePoint.ofChar ',' :: inner) ((x :: y :: ys).map text) =
        text x ++ ([CodePoint.ofChar ','] ++ (inner ++
          Text.join (CodePoint.ofChar ',' :: inner) ((y :: ys).map text))) := by
      simp [Text.join_cons_cons]
    rw [hjoin, List.append_assoc, List.append_assoc, List.append_assoc, List.reverse_cons,
      List.append_assoc]
    refine (hx items _ (endsNumber_cons (by decide) _)).append ?_
    exact (hk.comma x items _).append ((leads_blank hinner).append (ih (x :: items) hrest))

/-- A container is read whatever the layout. -/
theorem Container.leads_enclose (hk : Container before opening closing awaits holds closed)
    (layout : Layout) (level : Nat) (rest : Text) (xs : List α)
    (hitem : ∀ x ∈ xs, ∀ items rest, EndsNumber rest →
      Leads (awaits items) (text x) (holds x items) rest) :
    Leads before (layout.enclose level [opening] [closing] (xs.map text)) (closed xs.reverse)
      rest := by
  cases xs with
  | nil => exact (hk.opens _).append (hk.empty rest)
  | cons x xs =>
    have hall := hk.leads_join (isBlank_lineBreak layout (level + 1))
      (isBlank_lineBreak layout level) rest [] hitem
    have htext : layout.enclose level [opening] [closing] ((x :: xs).map text) =
        [opening] ++ (layout.lineBreak (level + 1) ++
          (Text.join (CodePoint.ofChar ',' :: layout.lineBreak (level + 1)) ((x :: xs).map text) ++
            (layout.lineBreak level ++ [closing]))) := by
      simp [Layout.enclose, Text.concat]
    rw [List.append_nil] at hall
    rw [htext]
    exact (hk.opens _).append ((leads_blank (isBlank_lineBreak layout (level + 1))).append hall)

end Containers

end Reader

/-! ### All values -/

/-- No string, and no key of an object, has a high surrogate right before a low one. -/
def SurrogatesApart : Json → Prop
  | .string t => t.SurrogatesApart
  | .object members => ∀ key ∈ Entries.keys members, key.SurrogatesApart
  | _ => True

/-- What can be written so that it is read back. -/
structure Legible (v : Json) : Prop where
  readable : v.Readable
  finite : v.FiniteNumber
  apart : v.SurrogatesApart

section Render

open Reader

variable (layout : Layout) (level : Nat) {frames : List Frame} {rest : Text}

theorem leads_colon (members : List (Text × Json)) (key : Text) :
    Leads ⟨frames, .colon members key⟩ layout.colon ⟨.member members key :: frames, .value false⟩
      rest := by
  cases layout with
  | compact => exact leads_lexeme rfl (fun _ => rfl) rfl fun _ => rfl
  | indented width =>
    have hcolon : Leads ⟨frames, .colon members key⟩ [CodePoint.ofChar ':']
        ⟨.member members key :: frames, .value false⟩ ([CodePoint.ofChar ' '] ++ rest) :=
      leads_lexeme rfl (fun _ => rfl) rfl fun _ => rfl
    exact hcolon.append (leads_blank (List.forall_mem_singleton.mpr rfl))

theorem leads_member {members : List (Text × Json)} {key : Text} {v : Json}
    (hkey : key.SurrogatesApart)
    (hv : Leads ⟨.member members key :: frames, .value false⟩ (v.render layout level)
      ⟨.member members key :: frames, .complete v⟩ rest) :
    Leads ⟨frames, .name members.isEmpty members⟩
      (renderString key ++ (layout.colon ++ v.render layout level))
      ⟨.member members key :: frames, .complete v⟩ rest := by
  have hname : Leads ⟨frames, .name members.isEmpty members⟩ (renderString key)
      ⟨frames, .colon members key⟩ (layout.colon ++ v.render layout level ++ rest) :=
    leads_lexeme rfl (scan_renderString hkey) rfl fun _ => rfl
  exact hname.append ((leads_colon layout members key).append hv)

end Render

open Reader in
/-- The text of a value leads from where a value is expected to where it is complete. -/
theorem leads_render {v : Json} (hv : v.Throughout Legible) (layout : Layout) (level : Nat)
    (frames : List Frame) (fresh : Bool) {rest : Text} (hr : EndsNumber rest) :
    Leads ⟨frames, .value fresh⟩ (v.render layout level) ⟨frames, .complete v⟩ rest := by
  induction hv generalizing level frames fresh rest with
  | @intro v here _ ih =>
    cases v with
    | null => exact leads_lexeme rfl (fun _ => rfl) rfl fun _ => rfl
    | bool b => cases b <;> exact leads_lexeme rfl (fun _ => rfl) rfl fun _ => rfl
    | int i => exact leads_number (number?_ofInt here.readable hr)
    | float x => exact leads_number (number?_render here.finite hr)
    | string t => exact leads_lexeme rfl (scan_renderString here.apart) rfl fun _ => rfl
    | array items =>
      have hitems := (array_container frames fresh).leads_enclose layout level rest items
        fun w hw items rest hr => ih w hw (level + 1) (.array items :: frames) items.isEmpty hr
      rw [List.reverse_reverse, ← renderItems_eq_map] at hitems
      exact hitems
    | object members =>
      have hmembers := (object_container frames fresh).leads_enclose layout level rest members
        fun entry he members rest hr => leads_member layout (level + 1)
          (here.apart entry.1 (List.mem_map_of_mem he))
          (ih entry.2 (List.mem_map_of_mem he) (level + 1) (.member members entry.1 :: frames) false
            hr)
      rw [Reader.object, List.reverse_reverse, Entries.ofList_of_nodup here.readable,
        ← renderMembers_eq_map] at hmembers
      exact hmembers

/-! ### A whole text -/

theorem printable_lineBreak (layout : Layout) (level : Nat) :
    (layout.lineBreak level).Printable := by
  cases layout with
  | compact => exact List.forall_mem_nil _
  | indented width =>
    refine Text.printable_cons.mpr ⟨by decide, fun c hc => ?_⟩
    rw [List.eq_of_mem_replicate hc]
    decide

theorem printable_enclose (layout : Layout) (level : Nat) {before after : Text}
    (hb : before.Printable) (ha : after.Printable) {items : List Text}
    (hitems : ∀ item ∈ items, Text.Printable item) :
    (layout.enclose level before after items).Printable := by
  cases items with
  | nil => exact Text.printable_append.mpr ⟨hb, ha⟩
  | cons item items =>
    have hinner := printable_lineBreak layout (level + 1)
    have hjoin := Text.printable_join (Text.printable_cons.mpr
      (show (CodePoint.ofChar ',').IsPrintable ∧ _ from ⟨by decide, hinner⟩)) hitems
    have hparts : ∀ part ∈ [before, layout.lineBreak (level + 1),
        Text.join (CodePoint.ofChar ',' :: layout.lineBreak (level + 1)) (item :: items),
        layout.lineBreak level, after], Text.Printable part := by
      simp only [List.forall_mem_cons]
      exact ⟨hb, hinner, hjoin, printable_lineBreak layout level, ha, List.forall_mem_nil _⟩
    intro c hc
    obtain ⟨part, hp, hc⟩ := List.mem_flatten.mp hc
    exact hparts part hp c hc

theorem printable_render {v : Json} (hv : v.Throughout FiniteNumber) (layout : Layout)
    (level : Nat) : (v.render layout level).Printable := by
  induction hv generalizing level with
  | @intro v here _ ih =>
    cases v with
    | null => exact (by decide : Text.Printable "null")
    | bool b =>
      cases b
      · exact (by decide : Text.Printable "false")
      · exact (by decide : Text.Printable "true")
    | int i => exact printable_ofInt i
    | float x => exact printable_renderNumber numberStyle here
    | string t => exact printable_renderString t
    | array items =>
      rw [render, renderItems_eq_map]
      refine printable_enclose layout level (by decide) (by decide) ?_
      exact List.forall_mem_map.mpr fun w hw => ih w hw (level + 1)
    | object members =>
      rw [render, renderMembers_eq_map]
      refine printable_enclose layout level (by decide) (by decide) ?_
      refine List.forall_mem_map.mpr fun entry he => ?_
      have hcolon : layout.colon.Printable := by
        cases layout
        · exact (by decide : Text.Printable ":")
        · exact (by decide : Text.Printable ": ")
      exact Text.printable_append.mpr ⟨printable_renderString entry.1, Text.printable_append.mpr
        ⟨hcolon, ih entry.2 (List.mem_map_of_mem he) (level + 1)⟩⟩

/-- What is written reads back, from the text of the file as from the text itself. -/
theorem read_render {v : Json} (hv : v.Throughout Legible) (layout : Layout) :
    Text.ofUtf8 (v.render layout 0).toUtf8 = .ok (v.render layout 0) ∧
      (v.render layout 0).unifyNewlines = v.render layout 0 ∧
      read (v.render layout 0) = .ok v := by
  have hprintable := printable_render (hv.imp fun _ h => h.finite) layout 0
  have hmark : startsWithByteOrderMark (v.render layout 0) = false := by
    unfold startsWithByteOrderMark
    split
    · rfl
    · next c rest heq =>
      have hc : c.IsPrintable := hprintable c (heq ▸ List.mem_cons_self ..)
      unfold CodePoint.IsPrintable at hc
      rw [beq_eq_false_iff_ne]
      omega
  have hend : EndsNumber [] := by simp [EndsNumber]
  have hrun := leads_render hv layout 0 [] false hend 0
  refine ⟨Text.ofUtf8_toUtf8 hprintable, Text.unifyNewlines_of_printable hprintable, ?_⟩
  rw [List.append_nil] at hrun
  rw [read, hmark, Reader.start, hrun, tokens]
  rfl

end EntityTable.Json
