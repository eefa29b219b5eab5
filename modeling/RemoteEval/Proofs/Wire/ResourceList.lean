import RemoteEval.Wire.ResourceList
import RemoteEval.Proofs.Text.Lines

/-!
# Lists that are read as they were written

Runs without the separator are found again between the separators (`Text.pieces_glue`), and what
stands between the separators makes up the text again (`Text.glue_pieces`). So a list of identities
is read back from the wire if none of them holds the separator (`splitIdentities_joinIdentities`) :
only the list of one empty identity is taken for the list of none. No other list is read back, but
every body is written back (`splitIdentities_joinIdentities_iff`).
-/

namespace RemoteEval

namespace Wire

variable {ids : List String}

theorem joinIdentities_eq_empty_iff : joinIdentities ids = "" ↔ ids = [] ∨ ids = [""] := by
  rw [joinIdentities, ← String.toList_inj, String.toList_ofList, String.toList_empty,
    Text.glue_eq_nil_iff, List.map_eq_nil_iff, List.map_eq_singleton_iff]
  refine or_congr_right ⟨?_, ?_⟩
  · rintro ⟨id, rfl, hid⟩
    rw [String.toList_eq_nil_iff.1 hid]
  · rintro rfl
    exact ⟨"", rfl, rfl⟩

/-- Identities without separators are read back, unless they are a single empty one. -/
theorem splitIdentities_joinIdentities (hsep : ∀ id ∈ ids, separator ∉ id.toList)
    (hempty : ids ≠ [""]) : splitIdentities (joinIdentities ids) = ids := by
  unfold splitIdentities
  split
  · next h => exact ((joinIdentities_eq_empty_iff.1 h).resolve_right hempty).symm
  · next h =>
    have hne : ids.map String.toList ≠ [] :=
      fun hnil => h (joinIdentities_eq_empty_iff.2 (.inl (List.map_eq_nil_iff.1 hnil)))
    have hruns : ∀ run ∈ ids.map String.toList, separator ∉ run := by
      intro run hrun
      obtain ⟨id, hid, rfl⟩ := List.mem_map.1 hrun
      exact hsep id hid
    rw [joinIdentities, String.toList_ofList, Text.pieces_glue hne hruns, List.map_map]
    simp [Function.comp_def]

theorem notMem_of_mem_splitIdentities {body id : String} (h : id ∈ splitIdentities body) :
    separator ∉ id.toList := by
  unfold splitIdentities at h
  split at h
  · cases h
  · obtain ⟨run, hrun, rfl⟩ := List.mem_map.1 h
    rw [String.toList_ofList]
    exact Text.notMem_of_mem_pieces hrun

theorem joinIdentities_splitIdentities (body : String) :
    joinIdentities (splitIdentities body) = body := by
  unfold splitIdentities
  split
  · next h => exact h.symm
  · have hid : String.toList ∘ String.ofList = id := funext fun _ => String.toList_ofList
    rw [joinIdentities, List.map_map, hid, List.map_id, Text.glue_pieces, String.ofList_toList]

/-- A list of identities is read back exactly if none of them holds the separator and it is not the
list of one empty identity. A body is always written back. -/
theorem splitIdentities_joinIdentities_iff :
    (∀ ids : List String, splitIdentities (joinIdentities ids) = ids ↔
      (∀ id ∈ ids, separator ∉ id.toList) ∧ ids ≠ [""]) ∧
    ∀ body : String, joinIdentities (splitIdentities body) = body := by
  refine ⟨fun ids => ⟨fun h => ⟨?_, ?_⟩, ?_⟩, joinIdentities_splitIdentities⟩
  · intro id hid
    rw [← h] at hid
    exact notMem_of_mem_splitIdentities hid
  · rintro rfl
    exact absurd h (by decide)
  · rintro ⟨hsep, hempty⟩
    exact splitIdentities_joinIdentities hsep hempty

end Wire

end RemoteEval
