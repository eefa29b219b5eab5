import Mathlib.Data.List.Dedup
import Mathlib.Data.String.Basic
import RemoteEval.Proofs.Resource.Order

/-!
# The order in which resources are loaded

Of several handles with one identity the first counts, also after they were put into the order of
their identities (`find?_byIdentity`), because that order is stable. So the identities in the order
in which they are loaded are those of the handles, each once, and an identity comes after what the
first of its handles depends on, cycles apart (`orderedIdentities_spec`).
-/

namespace RemoteEval.Resource

variable {identity previous : String} {h : Handle} {handles : List Handle}

/-! ## The first handle of an identity -/

theorem find?_cons (identity : String) (h : Handle) (handles : List Handle) :
    find? identity (h :: handles) =
      if h.identity = identity then some h else find? identity handles := by
  by_cases hid : h.identity = identity <;> simp [find?, hid]

theorem identity_of_find? (hfind : find? identity handles = some h) : h.identity = identity := by
  simpa using List.find?_some hfind

theorem mem_of_find? (hfind : find? identity handles = some h) : h ∈ handles :=
  List.mem_of_find?_eq_some hfind

theorem find?_withoutRepeats (hne : identity ≠ previous) (handles : List Handle) :
    find? identity (withoutRepeats previous handles) = find? identity handles := by
  induction handles generalizing previous with
  | nil => rfl
  | cons h rest ih =>
    rw [withoutRepeats]
    split
    · next heq =>
      have hskip : h.identity ≠ identity := fun hid => hne (hid.symm.trans heq)
      rw [ih hne, find?_cons, if_neg hskip]
    · rw [find?_cons, find?_cons]
      split
      · rfl
      · next hskip => exact ih fun hid => hskip hid.symm

theorem find?_dropRepeats (identity : String) (handles : List Handle) :
    find? identity (dropRepeats handles) = find? identity handles := by
  cases handles with
  | nil => rfl
  | cons h rest =>
    rw [dropRepeats, find?_cons, find?_cons]
    split
    · rfl
    · next hskip => exact find?_withoutRepeats (fun hid => hskip hid.symm) rest

/-! ## The order of identities -/

/-- Whether a handle may stand before another in the order of identities. -/
abbrev Handle.le (h k : Handle) : Bool := decide (h.identity ≤ k.identity)

theorem Handle.le_transitive (a b c : Handle) :
    a.le b = true → b.le c = true → a.le c = true := by
  simp only [Handle.le, decide_eq_true_eq]
  exact le_trans

theorem Handle.le_or_le (a b : Handle) : (a.le b || b.le a) = true := by
  simp only [Handle.le, Bool.or_eq_true, decide_eq_true_eq]
  exact le_total _ _

/-- Handles with one identity keep their order when all are put into the order of identities. -/
theorem filter_mergeSort (identity : String) (handles : List Handle) :
    (handles.mergeSort Handle.le).filter (fun h => h.identity = identity) =
      handles.filter fun h => h.identity = identity := by
  have hsub : (handles.filter fun h => h.identity = identity).Sublist
      (handles.mergeSort Handle.le) := by
    refine List.sublist_mergeSort Handle.le_transitive Handle.le_or_le ?_ List.filter_sublist
    refine List.pairwise_of_forall_mem_list fun a ha b hb => ?_
    obtain ⟨-, ha⟩ := List.mem_filter.1 ha
    obtain ⟨-, hb⟩ := List.mem_filter.1 hb
    simp only [decide_eq_true_eq] at ha hb
    simp [ha, hb]
  have hfiltered := hsub.filter fun h => h.identity = identity
  simp only [List.filter_filter, Bool.and_self] at hfiltered
  exact (hfiltered.eq_of_length
    ((List.mergeSort_perm handles Handle.le).filter _).length_eq.symm).symm

theorem find?_mergeSort (identity : String) (handles : List Handle) :
    find? identity (handles.mergeSort Handle.le) = find? identity handles := by
  rw [find?, find?, ← List.head?_filter, ← List.head?_filter, filter_mergeSort]

/-- The handle that is kept of an identity is its first. -/
theorem find?_byIdentity (identity : String) (handles : List Handle) :
    find? identity (byIdentity handles) = find? identity handles := by
  rw [byIdentity, find?_dropRepeats, find?_mergeSort]

theorem mem_identities_iff :
    identity ∈ handles.map Handle.identity ↔ (find? identity handles).isSome := by
  constructor
  · intro hmem
    obtain ⟨h, hh, rfl⟩ := List.mem_map.1 hmem
    exact List.find?_isSome.2 ⟨h, hh, by simp⟩
  · intro hsome
    obtain ⟨h, hfind⟩ := Option.isSome_iff_exists.1 hsome
    exact List.mem_map.2 ⟨h, mem_of_find? hfind, identity_of_find? hfind⟩

theorem mem_identities_byIdentity (handles : List Handle) (identity : String) :
    identity ∈ (byIdentity handles).map Handle.identity ↔
      identity ∈ handles.map Handle.identity := by
  rw [mem_identities_iff, mem_identities_iff, find?_byIdentity]

theorem dependenciesIn_byIdentity (handles : List Handle) :
    dependenciesIn (byIdentity handles) = dependenciesIn handles := by
  funext identity
  rw [dependenciesIn, dependenciesIn, find?_byIdentity]

/-! ## The order of loading -/

/-- Among the same items, the same dependencies count. -/
theorem dependsOn_congr {α : Type} {items items' : List α} (hmem : ∀ x, x ∈ items ↔ x ∈ items')
    (dependencies : α → List α) : DependsOn items dependencies = DependsOn items' dependencies := by
  funext x d
  simp only [DependsOn, hmem]

/-- Where cycles are tolerated, the order is that of a search for all items. -/
theorem exists_search {α : Type} [DecidableEq α] (items : List α) (dependencies : α → List α) :
    ∃ s : Search items, sort items dependencies .lenient = .ok (s.emitted.map Subtype.val) ∧
      s.Sound dependencies ∧ s.stack = [] ∧ items.attach ⊆ s.visited := by
  obtain ⟨s, hsort⟩ := Search.visitAll_lenient dependencies items.attach .start
  obtain ⟨hs, hdone, hall, -⟩ := Search.Sound.start.visitAll rfl hsort
  exact ⟨s, by rw [sort, hsort], hs, hdone, hall⟩

theorem map_identity_filterMap {ids : List String}
    (hmem : ∀ id ∈ ids, id ∈ handles.map Handle.identity) :
    (ids.filterMap fun id => find? id handles).map Handle.identity = ids := by
  induction ids with
  | nil => rfl
  | cons id ids ih =>
    obtain ⟨hid, hids⟩ := List.forall_mem_cons.1 hmem
    obtain ⟨h, hfind⟩ := Option.isSome_iff_exists.1 (mem_identities_iff.1 hid)
    simp only [List.filterMap_cons, hfind, List.map_cons, ih hids, identity_of_find? hfind]

/-- The identities of handles, in the order in which these are loaded. -/
def orderedIdentities (handles : List Handle) : List String :=
  (loadOrder handles).map Handle.identity

/-- The identities are loaded each once, and an identity after each one on which the first of its
handles depends, unless the two are in a cycle. -/
theorem orderedIdentities_spec (handles : List Handle) :
    (orderedIdentities handles).Nodup ∧
      (∀ id, id ∈ orderedIdentities handles ↔ id ∈ handles.map Handle.identity) ∧
      ∀ x d, DependsOn (handles.map Handle.identity) (dependenciesIn handles) x d →
        ¬Reaches (handles.map Handle.identity) (dependenciesIn handles) d x →
        (orderedIdentities handles).idxOf d < (orderedIdentities handles).idxOf x := by
  obtain ⟨s, hsort, hs, hdone, hall⟩ :=
    exists_search ((byIdentity handles).map Handle.identity) (dependenciesIn handles)
  have hemitted : ∀ id ∈ s.emitted.map Subtype.val,
      id ∈ (byIdentity handles).map Handle.identity := by
    intro id hid
    obtain ⟨x, -, rfl⟩ := List.mem_map.1 hid
    exact x.property
  have horder : orderedIdentities handles = s.emitted.map Subtype.val := by
    rw [orderedIdentities, loadOrder, orderHandles, dependenciesIn_byIdentity]
    simp only [hsort]
    exact map_identity_filterMap hemitted
  have hcongr := dependsOn_congr (mem_identities_byIdentity handles) (dependenciesIn handles)
  rw [horder]
  refine ⟨hs.emitted_nodup hdone, fun id => ⟨fun hid => ?_, fun hid => ?_⟩, fun x d hx hback => ?_⟩
  · exact (mem_identities_byIdentity handles id).1 (hemitted id hid)
  · have hmem := (mem_identities_byIdentity handles id).2 hid
    exact List.mem_map.2 ⟨⟨id, hmem⟩, hs.mem_emitted hdone hall ⟨id, hmem⟩, rfl⟩
  · rw [← hcongr] at hx
    rw [Reaches, ← hcongr] at hback
    exact hs.emitted_before hdone hall hx hback

theorem orderedIdentities_eq_nil_iff : orderedIdentities handles = [] ↔ handles = [] := by
  have hmem := (orderedIdentities_spec handles).2.1
  simp only [List.eq_nil_iff_forall_not_mem, hmem]
  simp [← List.eq_nil_iff_forall_not_mem]

end RemoteEval.Resource
