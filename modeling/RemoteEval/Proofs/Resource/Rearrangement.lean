import Mathlib
import RemoteEval.Proofs.Resource.LoadOrder

/-!
# The order of the list does not matter

Handles are put into the order of their identities before they are ordered by their dependencies,
and of several with one identity the first is kept. What comes of it holds each identity once and in
strict order (`sorted_byIdentity`), so it depends only on which handle is the first of each identity
(`byIdentity_congr`), and so does all that comes after. Listing the handles in another order changes
nothing, if those with one identity keep theirs, and neither does ordering them once more
(`orderHandles_rearranged`).
-/

namespace RemoteEval.Resource

variable {identity previous : String} {h : Handle} {handles handles' order : List Handle}
  {mode : CycleMode}

/-! ## The first handle of each identity -/

theorem find?_of_mem (hnodup : (handles.map Handle.identity).Nodup) (hmem : h ∈ handles) :
    find? h.identity handles = some h := by
  induction handles with
  | nil => cases hmem
  | cons k rest ih =>
    obtain ⟨hk, hrest⟩ := List.nodup_cons.1 hnodup
    rw [find?_cons]
    rcases List.mem_cons.1 hmem with rfl | hmem
    · rw [if_pos rfl]
    · have hne : k.identity ≠ h.identity := fun heq =>
        hk (List.mem_map.2 ⟨h, hmem, heq.symm⟩)
      rw [if_neg hne, ih hrest hmem]

theorem find?_of_notMem (hid : identity ∉ handles.map Handle.identity) :
    find? identity handles = none := by
  rwa [mem_identities_iff, Bool.not_eq_true, Option.isSome_eq_false_iff,
    Option.isNone_iff_eq_none] at hid

/-- Dropping what repeats the identity before leaves identities in strict order. -/
theorem sorted_withoutRepeats
    (hsorted : (previous :: handles.map Handle.identity).Pairwise (· ≤ ·)) :
    (previous :: (withoutRepeats previous handles).map Handle.identity).Pairwise (· < ·) := by
  induction handles generalizing previous with
  | nil => exact List.pairwise_singleton _ _
  | cons h rest ih =>
    rw [List.map_cons, List.pairwise_cons, List.pairwise_cons] at hsorted
    obtain ⟨hle, hsorted⟩ := hsorted
    rw [withoutRepeats]
    split
    · next heq =>
      subst heq
      exact ih (List.pairwise_cons.2 hsorted)
    · next hne =>
      have hlt : previous < h.identity := lt_of_le_of_ne (hle _ List.mem_cons_self) (Ne.symm hne)
      have hrest := ih (List.pairwise_cons.2 hsorted)
      refine List.pairwise_cons.2 ⟨fun id hid => ?_, hrest⟩
      rcases List.mem_cons.1 hid with rfl | hid
      · exact hlt
      · exact hlt.trans ((List.pairwise_cons.1 hrest).1 id hid)

theorem sorted_byIdentity (handles : List Handle) :
    ((byIdentity handles).map Handle.identity).Pairwise (· < ·) := by
  have hsorted : ((handles.mergeSort Handle.le).map Handle.identity).Pairwise (· ≤ ·) := by
    rw [List.pairwise_map]
    exact (List.pairwise_mergeSort Handle.le_transitive Handle.le_or_le handles).imp
      fun h => of_decide_eq_true h
  rw [byIdentity]
  generalize handles.mergeSort Handle.le = sorted at hsorted
  cases sorted with
  | nil => exact .nil
  | cons h rest => exact sorted_withoutRepeats hsorted

theorem mem_byIdentity_iff : h ∈ byIdentity handles ↔ find? h.identity handles = some h := by
  rw [← find?_byIdentity]
  constructor
  · exact find?_of_mem ((sorted_byIdentity handles).imp ne_of_lt)
  · exact mem_of_find?

/-- Only which handle is the first of each identity matters. -/
theorem byIdentity_congr (hfind : ∀ identity, find? identity handles = find? identity handles') :
    byIdentity handles = byIdentity handles' := by
  have hnodup (handles : List Handle) : (byIdentity handles).Nodup :=
    .of_map Handle.identity ((sorted_byIdentity handles).imp ne_of_lt)
  have hperm : (byIdentity handles).Perm (byIdentity handles') := by
    refine (List.perm_ext_iff_of_nodup (hnodup _) (hnodup _)).2 fun h => ?_
    rw [mem_byIdentity_iff, mem_byIdentity_iff, hfind]
  exact hperm.eq_of_pairwise (fun h k _ _ hlt hgt => (lt_asymm hlt hgt).elim)
    (List.pairwise_map.1 (sorted_byIdentity handles))
    (List.pairwise_map.1 (sorted_byIdentity handles'))

theorem orderHandles_congr (hfind : ∀ identity, find? identity handles = find? identity handles')
    (mode : CycleMode) : orderHandles handles mode = orderHandles handles' mode := by
  rw [orderHandles, orderHandles, byIdentity_congr hfind]

/-! ## Other lists of the same handles -/

/-- The second list has the handles of the first in an order in which those with one identity stand
as before. -/
structure Rearranged (handles handles' : List Handle) : Prop where
  /-- The handles are the same. -/
  perm : handles.Perm handles'
  /-- Those with one identity keep their order. -/
  kept : ∀ h ∈ handles, handles.filter (fun k => k.identity = h.identity) =
    handles'.filter fun k => k.identity = h.identity

theorem Rearranged.find?_eq (hr : Rearranged handles handles') (identity : String) :
    find? identity handles = find? identity handles' := by
  by_cases hid : identity ∈ handles.map Handle.identity
  · obtain ⟨h, hh, rfl⟩ := List.mem_map.1 hid
    rw [find?, find?, ← List.head?_filter, ← List.head?_filter, hr.kept h hh]
  · have hid' : identity ∉ handles'.map Handle.identity :=
      fun h => hid ((hr.perm.map Handle.identity).mem_iff.2 h)
    rw [find?_of_notMem hid, find?_of_notMem hid']

/-! ## The order -/

/-- An order holds each item once and nothing else. -/
theorem nodup_sort_and_mem_iff {α : Type} [DecidableEq α] {items ordered : List α}
    {dependencies : α → List α} (hsort : sort items dependencies mode = .ok ordered) :
    ordered.Nodup ∧ ∀ x, x ∈ ordered ↔ x ∈ items := by
  unfold sort at hsort
  split at hsort
  · next s heq =>
    cases hsort
    obtain ⟨hs, hdone, hall, -⟩ := Search.Sound.start.visitAll rfl heq
    refine ⟨hs.emitted_nodup hdone, fun x => ⟨fun hx => ?_, fun hx => ?_⟩⟩
    · obtain ⟨y, -, rfl⟩ := List.mem_map.1 hx
      exact y.property
    · exact List.mem_map.2 ⟨⟨x, hx⟩, hs.mem_emitted hdone hall ⟨x, hx⟩, rfl⟩
  · cases hsort

/-- The order of handles has each identity once. -/
theorem identities_of_orderHandles (horder : orderHandles handles mode = .ok order) :
    (order.map Handle.identity).Nodup ∧
      ∀ identity, identity ∈ order.map Handle.identity ↔
        identity ∈ handles.map Handle.identity := by
  unfold orderHandles at horder
  dsimp only at horder
  split at horder
  · next ordered hsort =>
    cases horder
    obtain ⟨hnodup, hmem⟩ := nodup_sort_and_mem_iff hsort
    rw [map_identity_filterMap fun id hid => (hmem id).1 hid]
    exact ⟨hnodup, fun id => (hmem id).trans (mem_identities_byIdentity handles id)⟩
  · cases horder

/-- The order of handles has the first handle of each identity. -/
theorem find?_of_mem_orderHandles (horder : orderHandles handles mode = .ok order)
    (hmem : h ∈ order) : find? h.identity handles = some h := by
  unfold orderHandles at horder
  dsimp only at horder
  split at horder
  · cases horder
    obtain ⟨identity, -, hfind⟩ := List.mem_filterMap.1 hmem
    rw [find?_byIdentity] at hfind
    rw [identity_of_find? hfind, hfind]
  · cases horder

theorem find?_orderHandles (horder : orderHandles handles mode = .ok order) (identity : String) :
    find? identity order = find? identity handles := by
  obtain ⟨hnodup, hmem⟩ := identities_of_orderHandles horder
  by_cases hid : identity ∈ order.map Handle.identity
  · obtain ⟨h, hh, rfl⟩ := List.mem_map.1 hid
    rw [find?_of_mem hnodup hh, find?_of_mem_orderHandles horder hh]
  · have hid' : identity ∉ handles.map Handle.identity := fun h => hid ((hmem identity).2 h)
    rw [find?_of_notMem hid, find?_of_notMem hid']

/-- The order, or the error, is the same for every list of the handles in which those with one
identity keep their order. An order holds each identity once, with the first handle of it, and
ordering it again changes nothing. -/
theorem orderHandles_rearranged (handles : List Handle) (mode : CycleMode) :
    (∀ handles', Rearranged handles handles' →
      orderHandles handles' mode = orderHandles handles mode) ∧
    ∀ order, orderHandles handles mode = .ok order →
      (order.map Handle.identity).Nodup ∧
      (∀ identity, identity ∈ order.map Handle.identity ↔
        identity ∈ handles.map Handle.identity) ∧
      (∀ h ∈ order, handles.find? (fun k => k.identity = h.identity) = some h) ∧
      orderHandles order mode = .ok order := by
  refine ⟨fun handles' hr => (orderHandles_congr hr.find?_eq mode).symm, fun order horder => ?_⟩
  obtain ⟨hnodup, hmem⟩ := identities_of_orderHandles horder
  refine ⟨hnodup, hmem, fun h hh => find?_of_mem_orderHandles horder hh, ?_⟩
  rw [orderHandles_congr (find?_orderHandles horder), horder]

/-- Two handles have the identity `b`, and the first of them closes a cycle with `a`. Listed in
another order the handles are ordered as before, and that order is its own. -/
theorem orderHandles_rearranged_two_cycle :
    orderHandles [⟨"c", []⟩, ⟨"b", ["a"]⟩, ⟨"b", []⟩, ⟨"a", ["b", "c"]⟩] .lenient =
      .ok [⟨"b", ["a"]⟩, ⟨"c", []⟩, ⟨"a", ["b", "c"]⟩] ∧
    orderHandles [⟨"b", ["a"]⟩, ⟨"c", []⟩, ⟨"a", ["b", "c"]⟩] .lenient =
      .ok [⟨"b", ["a"]⟩, ⟨"c", []⟩, ⟨"a", ["b", "c"]⟩] := by
  have horder : orderHandles [⟨"b", ["a"]⟩, ⟨"a", ["b", "c"]⟩, ⟨"b", []⟩, ⟨"c", []⟩] .lenient =
      .ok [⟨"b", ["a"]⟩, ⟨"c", []⟩, ⟨"a", ["b", "c"]⟩] := by cbv
  obtain ⟨hsame, hofOrder⟩ := orderHandles_rearranged
    [⟨"b", ["a"]⟩, ⟨"a", ["b", "c"]⟩, ⟨"b", []⟩, ⟨"c", []⟩] .lenient
  refine ⟨?_, (hofOrder _ horder).2.2.2⟩
  rw [hsame _ ⟨by decide, by decide⟩, horder]

end RemoteEval.Resource
