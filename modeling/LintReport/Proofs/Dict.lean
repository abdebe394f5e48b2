import LintReport.Dict
import Mathlib.Data.List.Nodup

/-! Finite maps by what is found in them. An inserted entry is found under its key and hides no
other; since the entries stand in the order of their keys, the first one with some property is the
one with the least key; and a map is made anew from its entries in any order. -/

namespace LintReport.Dict

variable {α : Type}

theorem lookup_cons_eq_ite (entry : String × α) (l : List (String × α)) (key : String) :
    (entry :: l).lookup key = if key = entry.1 then some entry.2 else l.lookup key := by
  rw [List.lookup_cons]
  by_cases h : key = entry.1
  · rw [if_pos h, beq_iff_eq.2 h]
  · rw [if_neg h, beq_eq_false_iff_ne.2 h]

theorem lookup_insertEntry (key other : String) (value : α) (l : List (String × α)) :
    (insertEntry key value l).lookup other = if other = key then some value else l.lookup other := by
  induction l with
  | nil => exact lookup_cons_eq_ite (key, value) [] other
  | cons entry rest ih =>
    unfold insertEntry
    split
    · exact lookup_cons_eq_ite (key, value) (entry :: rest) other
    · split
      · rename_i hkey
        rw [lookup_cons_eq_ite, lookup_cons_eq_ite entry, hkey]
        split <;> rfl
      · rename_i hkey
        rw [lookup_cons_eq_ite, ih, lookup_cons_eq_ite entry]
        by_cases hother : other = entry.1
        · rw [if_pos hother, if_pos hother, if_neg fun h => hkey (h.symm.trans hother)]
        · rw [if_neg hother, if_neg hother]

theorem find?_insert (d : Dict α) (key other : String) (value : α) :
    (d.insert key value).find? other = if other = key then some value else d.find? other :=
  lookup_insertEntry key other value d.entries

theorem find?_foldl_insert_of_none {entries : List (String × α)} {key : String}
    (h : entries.lookup key = none) (d : Dict α) :
    (entries.foldl (fun d e => d.insert e.1 e.2) d).find? key = d.find? key := by
  induction entries generalizing d with
  | nil => rfl
  | cons entry rest ih =>
    rw [lookup_cons_eq_ite] at h
    split at h
    · cases h
    · rename_i hkey
      rw [List.foldl_cons, ih h, find?_insert, if_neg hkey]

/-- What the upper entries do not mention stays as it was. -/
theorem find?_overlay_of_none (d : Dict α) {upper : Dict α} {key : String}
    (h : upper.find? key = none) : (d.overlay upper).find? key = d.find? key :=
  find?_foldl_insert_of_none h d

/-- In a list that is sorted by some key, the first element with a property is the one whose key is
least among those with the property. -/
theorem find?_eq_some_iff_least {β : Type} {f : β → String} {p : β → Bool} {l : List β}
    (h : l.Pairwise (f · < f ·)) {b : β} :
    l.find? p = some b ↔ b ∈ l ∧ p b = true ∧ ∀ c ∈ l, p c = true → f b ≤ f c := by
  rw [List.find?_eq_some_iff_append]
  constructor
  · rintro ⟨hb, before, behind, rfl, hbefore⟩
    refine ⟨List.mem_append_right _ List.mem_cons_self, hb, fun c hc hpc => ?_⟩
    rcases List.mem_append.1 hc with hc | hc
    · have hnot := hbefore c hc
      rw [hpc] at hnot
      cases hnot
    · rcases List.mem_cons.1 hc with rfl | hc
      · exact String.le_refl _
      · have hlt := (List.pairwise_cons.1 (List.pairwise_append.1 h).2.1).1 c hc
        exact String.not_lt.1 (String.lt_asymm hlt)
  · rintro ⟨hmem, hb, hleast⟩
    obtain ⟨before, behind, rfl⟩ := List.append_of_mem hmem
    refine ⟨hb, before, behind, rfl, fun c hc => ?_⟩
    have hlt : f c < f b := (List.pairwise_append.1 h).2.2 c hc b List.mem_cons_self
    rw [Bool.not_eq_true', Bool.eq_false_iff]
    exact fun hpc => String.not_lt.2 (hleast c (List.mem_append_left _ hc) hpc) hlt

theorem sorted_keys (d : Dict α) : d.keys.Pairwise (· < ·) := List.pairwise_map.2 d.sorted

/-- Inserting under a new key adds an entry and keeps the others. -/
theorem perm_insertEntry {key : String} (value : α) {l : List (String × α)}
    (h : key ∉ l.map (·.1)) : (insertEntry key value l).Perm ((key, value) :: l) := by
  induction l with
  | nil => exact .refl _
  | cons entry rest ih =>
    rw [List.map_cons, List.mem_cons, not_or] at h
    unfold insertEntry
    split
    · exact .refl _
    · rw [if_neg h.1]
      exact ((ih h.2).cons entry).trans (.swap _ _ rest)

theorem perm_foldl_insert {l : List (String × α)} {d : Dict α}
    (h : (l.map (·.1) ++ d.keys).Nodup) :
    (l.foldl (fun d e => d.insert e.1 e.2) d).entries.Perm (l ++ d.entries) := by
  induction l generalizing d with
  | nil => exact .refl _
  | cons entry rest ih =>
    rw [List.map_cons, List.cons_append, List.nodup_cons, List.mem_append, not_or] at h
    obtain ⟨⟨hrest, hkey⟩, hdistinct⟩ := h
    have hinsert : (d.insert entry.1 entry.2).entries.Perm (entry :: d.entries) :=
      perm_insertEntry entry.2 hkey
    have hnodup : (rest.map (·.1) ++ (d.insert entry.1 entry.2).keys).Nodup := by
      have hkeys := (hinsert.map (·.1)).append_left (rest.map (·.1))
      rw [keys, hkeys.nodup_iff, List.map_cons, List.nodup_middle, List.nodup_cons,
        List.mem_append, not_or]
      exact ⟨⟨hrest, hkey⟩, hdistinct⟩
    exact (ih hnodup).trans ((hinsert.append_left rest).trans List.perm_middle)

/-- A map is the same from its entries in any order. -/
theorem ofList_of_perm {d : Dict α} {l : List (String × α)} (h : l.Perm d.entries) :
    ofList l = d := by
  have hdistinct : (l.map (·.1) ++ (empty : Dict α).keys).Nodup := by
    rw [keys, empty, List.map_nil, List.append_nil, (h.map (·.1)).nodup_iff]
    exact d.sorted_keys.imp fun hlt => String.ne_of_lt hlt
  have hperm := (perm_foldl_insert hdistinct).trans (by simpa [empty] using h)
  have hentries : (ofList l).entries = d.entries := by
    refine hperm.eq_of_pairwise (fun a b _ _ hab hba => ?_) (ofList l).sorted d.sorted
    exact absurd hba (String.lt_asymm hab)
  obtain ⟨entries, sorted⟩ := d
  exact (Dict.mk.injEq ..).mpr hentries

end LintReport.Dict
