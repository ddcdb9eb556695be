import EntityTable.Proofs.Authored.Faults
import EntityTable.Proofs.Json.Digits
import EntityTable.Storage.Artifact

/-!
Loading an authored table. Whatever stands in a file, loading it gives a table or reports malformed
input, unless an integer in the file has too many digits or too large a value.
-/

namespace EntityTable

namespace Storage

/-- The reports of malformed input that a file can give rise to. -/
inductive Malforms (path : Text) (bytes : List UInt8) : EntityTable.Failure → Prop
  | notText (fault : Text.Utf8Fault) (bad : Text.ofUtf8 bytes = .error fault) :
      Malforms path bytes (.malformed (.notJson path fault.message) none none)
  | notJson (text : Text) (fault : Json.Fault) (offset : Nat)
      (decoded : Text.ofUtf8 bytes = .ok text)
      (bad : Json.read text.unifyNewlines = .error (.malformed fault offset)) :
      Malforms path bytes (.malformed (.notJson path
        ((Json.ReadError.malformed fault offset).message text.unifyNewlines)) none none)
  | notTable (text : Text) (input : Json) (failure : EntityTable.Failure)
      (decoded : Text.ofUtf8 bytes = .ok text)
      (read : Json.read text.unifyNewlines = .ok input)
      (refuses : Authored.Table.Refuses input failure) : Malforms path bytes failure

/-- The integers that no report of malformed input is made of. -/
inductive Overflows (text : Text) : Failure → Prop
  | tooLong (digits : Nat) (run : text.unifyNewlines.HasLongRun digits) :
      Overflows text (.integerTooLong digits)
  | tooLarge (input : Json) (read : Json.read text.unifyNewlines = .ok input)
      (unfit : ¬Authored.Table.IntegersFit input) :
      Overflows text (.uncompiled .integerTooLarge)

theorem Malforms.exists_malformed {path : Text} {bytes : List UInt8}
    {failure : EntityTable.Failure} (h : Malforms path bytes failure) :
    ∃ offence owner field, failure = .malformed offence owner field := by
  cases h with
  | notText fault bad => exact ⟨_, _, _, rfl⟩
  | notJson text fault offset decoded bad => exact ⟨_, _, _, rfl⟩
  | notTable text input failure decoded read refuses => exact refuses.exists_malformed

variable {tree : FileTree} {path : Text} {bytes : List UInt8}

/-- A load that fails tells why. -/
theorem malforms_or_overflows_of_loadTable {failure : Failure} (hbytes : tree.read path = .ok bytes)
    (h : loadTable tree path = .error failure) :
    (∃ cause, failure = .uncompiled cause ∧ Malforms path bytes cause) ∨
      ∃ text, Text.ofUtf8 bytes = .ok text ∧ Overflows text failure := by
  -- a load reads, decodes, parses and checks, and fails with the first of these that fails
  rw [loadTable, hbytes] at h
  rcases bind_eq_error_iff.mp h with hread | ⟨_, hread, h⟩
  · cases hread
  obtain rfl : bytes = _ := Except.ok.inj hread
  rcases bind_eq_error_iff.mp h with hdecode | ⟨text, hdecode, h⟩
  · obtain ⟨fault, hfault, rfl⟩ := mapError_eq_error_iff.mp hdecode
    exact .inl ⟨_, rfl, .notText fault hfault⟩
  replace hdecode : Text.ofUtf8 bytes = .ok text := mapError_eq_ok_iff.mp hdecode
  rcases bind_eq_error_iff.mp h with hjson | ⟨input, hjson, hauthored⟩
  · obtain ⟨e, he, hfailure⟩ := mapError_eq_error_iff.mp hjson
    cases e with
    | malformed fault offset =>
      exact .inl ⟨_, hfailure.symm, .notJson text fault offset hdecode he⟩
    | integerTooLong digits =>
      obtain rfl := hfailure
      exact .inr ⟨text, hdecode, .tooLong digits (Json.hasLongRun_of_read he)⟩
  replace hjson : Json.read text.unifyNewlines = .ok input := mapError_eq_ok_iff.mp hjson
  obtain ⟨cause, hcause, rfl⟩ := mapError_eq_error_iff.mp hauthored
  rcases Authored.Table.ofJson_eq_error hcause with hrefuses | ⟨rfl, hunfit⟩
  · exact .inl ⟨cause, rfl, .notTable text input cause hdecode hjson hrefuses⟩
  · exact .inr ⟨text, hdecode, .tooLarge input hjson hunfit⟩

/-- A file that can be read is loaded, or refused as malformed for a reason that is true of it,
unless an integer is out of bounds. -/
theorem loadTable_of_read (tree : FileTree) (path : Text) (bytes : List UInt8)
    (hbytes : tree.read path = .ok bytes) :
    (∃ table, loadTable tree path = .ok table) ∨
      (∃ offence owner field,
        loadTable tree path = .error (.uncompiled (.malformed offence owner field)) ∧
          Malforms path bytes (.malformed offence owner field)) ∨
      ∃ text failure, Text.ofUtf8 bytes = .ok text ∧ loadTable tree path = .error failure ∧
        Overflows text failure := by
  cases h : loadTable tree path with
  | ok table => exact .inl ⟨table, rfl⟩
  | error failure =>
    rcases malforms_or_overflows_of_loadTable hbytes h with ⟨cause, rfl, hmalforms⟩ | hoverflows
    · obtain ⟨offence, owner, field, rfl⟩ := hmalforms.exists_malformed
      exact .inr (.inl ⟨offence, owner, field, rfl, hmalforms⟩)
    · obtain ⟨text, hdecoded, hoverflow⟩ := hoverflows
      exact .inr (.inr ⟨text, failure, hdecoded, rfl, hoverflow⟩)

/-- A template with a length that is far beyond the largest finite number. -/
def oversized : List UInt8 :=
  Text.toUtf8 (Text.concat ["\x7b\"m\":\x7b\"length\":1", List.replicate 309 '0', "\x7d\x7d"])

def drydock : FileTree := ⟨[(["raw.json"], .file oversized)], []⟩

theorem read_drydock : drydock.read "raw.json" = .ok oversized := by decide +kernel

theorem loadTable_drydock : ∃ failure, loadTable drydock "raw.json" = .error failure ∧
    failure.diagnostic? = none := by
  have h : (match loadTable drydock "raw.json" with
      | .error failure => failure.diagnostic?.isNone
      | .ok _ => false) = true := by decide +kernel
  cases hload : loadTable drydock "raw.json" with
  | error failure =>
    rw [hload] at h
    exact ⟨failure, rfl, Option.isNone_iff_eq_none.mp h⟩
  | ok table =>
    rw [hload] at h
    cases h

theorem not_loaded_drydock : ¬((∃ table, loadTable drydock "raw.json" = .ok table) ∨
    ∃ offence owner field,
      loadTable drydock "raw.json" = .error (.uncompiled (.malformed offence owner field))) := by
  obtain ⟨failure, hfails, hnone⟩ := loadTable_drydock
  intro h
  rcases h with ⟨table, hload⟩ | ⟨offence, owner, field, hload⟩
  · cases hload.symm.trans hfails
  · obtain rfl := Except.error.inj (hload.symm.trans hfails)
    cases hnone

/-- The length is an integer that no report is made of. -/
theorem loadTable_oversized : drydock.read "raw.json" = .ok oversized ∧
    ∃ text failure, Text.ofUtf8 oversized = .ok text ∧
      loadTable drydock "raw.json" = .error failure ∧ Overflows text failure := by
  refine ⟨read_drydock, ?_⟩
  rcases loadTable_of_read drydock "raw.json" oversized read_drydock with hloaded | hrest
  · exact absurd (.inl hloaded) not_loaded_drydock
  rcases hrest with ⟨offence, owner, field, hmalformed, -⟩ | hoverflows
  · exact absurd (.inr ⟨offence, owner, field, hmalformed⟩) not_loaded_drydock
  · exact hoverflows

/-- It is neither loaded nor reported as malformed. -/
theorem loadTable_escapes : ¬∀ (tree : FileTree) (path : Text) (bytes : List UInt8),
    tree.read path = .ok bytes → (∃ table, loadTable tree path = .ok table) ∨
      ∃ offence owner field,
        loadTable tree path = .error (.uncompiled (.malformed offence owner field)) := by
  intro hall
  exact not_loaded_drydock (hall drydock "raw.json" oversized read_drydock)

end Storage
end EntityTable
