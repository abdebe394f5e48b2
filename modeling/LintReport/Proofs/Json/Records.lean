import LintReport.Diagnostic.Json
import LintReport.Proofs.Json.Grammar

/-! Diagnostics as JSON. Names and texts are escaped and positions printed, so what is written for a
diagnostic is read back, and the decoder finds each of the seven fields in it. -/

namespace LintReport

open Json

@[simp] theorem Severity.ofJson?_ofString (s : String) :
    Severity.ofJson? (.ofString s) = Severity.ofLabel? s := by
  rw [ofString, Severity.ofJson?, ← ofString, text?_ofString, Option.bind_eq_bind,
    Option.bind_some]
  simp

namespace Diagnostic

theorem canonical_toJson (d : Diagnostic) : Canonical d.toJson := by
  rw [toJson]
  have hmembers : ∀ m ∈ [
      ("severity".toList, ofString d.severity.label), ("file".toList, ofString d.file),
      ("line".toList, ofNat d.line.toNat), ("column".toList, ofNat d.column.toNat),
      ("source".toList, ofString d.source), ("title".toList, ofString d.title),
      ("message".toList, ofString d.message)], m.1 = escape m.1 ∧ Canonical m.2 := by
    simp only [List.forall_mem_cons]
    exact ⟨⟨rfl, .string _⟩, ⟨rfl, .string _⟩, ⟨rfl, .number _⟩, ⟨rfl, .number _⟩,
      ⟨rfl, .string _⟩, ⟨rfl, .string _⟩, ⟨rfl, .string _⟩, nofun⟩
  exact .object (fun m hm => ⟨_, (hmembers m hm).1⟩) fun m hm => (hmembers m hm).2

/-- The decoder inverts the encoder. -/
@[simp] theorem ofJson?_toJson (d : Diagnostic) : ofJson? d.toJson = some d := by
  have hfields : ofJson? d.toJson = ofFields? (.ofString d.severity.label) (.ofString d.file)
      (.ofNat d.line.toNat) (.ofNat d.column.toNat) (.ofString d.source) (.ofString d.title)
      (.ofString d.message) := rfl
  rw [hfields]
  simp [ofFields?]

theorem mapM_ofJson?_toJson (ds : List Diagnostic) : (ds.map toJson).mapM ofJson? = some ds := by
  induction ds with
  | nil => rfl
  | cons d ds ih => simp [ih]

theorem canonical_array (ds : List Diagnostic) : Canonical (.array (ds.map toJson)) := by
  apply Canonical.array
  intro v hv
  obtain ⟨d, -, rfl⟩ := List.mem_map.1 hv
  exact d.canonical_toJson

/-- A printed list is read back, whatever texts are in it. -/
theorem listOfText?_listToText (ds : List Diagnostic) : listOfText? (listToText ds) = some ds := by
  rw [listOfText?, listToText, String.toList_ofList, parse?_pretty (canonical_array ds)]
  exact mapM_ofJson?_toJson ds

end Diagnostic

end LintReport
