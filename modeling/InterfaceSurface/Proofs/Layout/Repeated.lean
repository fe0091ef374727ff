import InterfaceSurface.Proofs.Layout.Order

/-! # Laying out again

A surface that is laid out has its leading part in front already: the key does not see
marks, and it is total, so the same entries are the least ones wherever they stand.
Laying such a surface out finds them in their places and leaves all behind them there
(`InOrder.toList_layOut`).  So however often a surface is put in order, it is as if it
had been laid out once, or not at all (`foldl_order_eq`). -/
set_option autoImplicit false
namespace InterfaceSurface
namespace Surface

variable {repo : Repository} {s : Surface}

/-- The least entries stand in front, in ascending order, as many as are eligible. -/
structure InOrder (repo : Repository) (s : Surface) : Prop where
  ascending : (s.toList.take s.leadingCount).Pairwise (Exposure.Below repo)
  least : ∀ a ∈ s.toList.take s.leadingCount, ∀ b ∈ s.toList.drop s.leadingCount, a.Below repo b

theorem inOrder_layOut (distinct : s.names.Nodup) : (s.layOut repo).InOrder repo := by
  have count : (s.layOut repo).leadingCount = s.leadingCount := leadingCount_order
  constructor
  case ascending =>
    rw [count, take_layOut]
    exact List.pairwise_map.mpr (leadingPart_ascending distinct)
  case least =>
    rw [count, take_layOut, drop_layOut]
    intro a marked b rest
    obtain ⟨entry, leads, rfl⟩ := List.mem_map.mp marked
    rw [Exposure.Below, Exposure.layoutKey_markLeading]
    exact leadingPart_below_remainder distinct leads rest

namespace InOrder

/-- What leads is what stands in front. -/
theorem leadingPart_eq_take (inOrder : s.InOrder repo) (distinct : s.names.Nodup) :
    (s.leadingPart repo).map Prod.fst = s.toList.take s.leadingCount := by
  have behind : ((s.toList.drop s.leadingCount).mergeSort (Exposure.precedes repo)).Perm
      (s.toList.drop s.leadingCount) := List.mergeSort_perm _ _
  have sorted : ((s.toList.drop s.leadingCount).mergeSort (Exposure.precedes repo)).Pairwise
      (Exposure.Below repo) :=
    Exposure.mergeSort_ascending (distinct.sublist ((List.drop_sublist _ _).map Prod.fst))
  -- Sorting what stands behind completes the ranking.
  have ranking : (s.ranked repo).map Prod.fst = s.toList.take s.leadingCount ++
      (s.toList.drop s.leadingCount).mergeSort (Exposure.precedes repo) := by
    apply ranked_eq_of_ascending distinct
    · refine (behind.append_left _).trans ?_
      rw [List.take_append_drop]
    · exact List.pairwise_append.mpr ⟨inOrder.ascending, sorted,
        fun a front b member => inOrder.least a front b (behind.mem_iff.mp member)⟩
  have long : (s.toList.take s.leadingCount).length = s.leadingCount := by
    rw [List.length_take, Nat.min_eq_left leadingCount_le]
  rw [entries_leadingPart, ranking, List.take_left' long]

/-- What stands behind the leading part stays where it is. -/
theorem remainder_eq_drop (inOrder : s.InOrder repo) (distinct : s.names.Nodup) :
    s.remainder repo = s.toList.drop s.leadingCount := by
  have split := List.take_append_drop s.leadingCount s.toList
  have perm : (s.remainder repo).Perm (s.toList.drop s.leadingCount) := by
    have parts : ((s.leadingPart repo).map Prod.fst ++ s.remainder repo).Perm s.toList := parts_perm
    rw [inOrder.leadingPart_eq_take distinct] at parts
    exact (List.perm_append_left_iff _).mp (parts.trans (.of_eq split.symm))
  have nodup : (s.toList.take s.leadingCount ++ s.toList.drop s.leadingCount).Nodup := by
    rw [split]
    exact .of_map Prod.fst distinct
  have kept : (s.remainder repo).Sublist
      (s.toList.take s.leadingCount ++ s.toList.drop s.leadingCount) := by
    rw [split]
    exact remainder_sublist
  obtain ⟨front, back, parted, inFront, inBack⟩ := List.sublist_append_iff.mp kept
  have none : front = [] := by
    apply List.eq_nil_iff_forall_not_mem.mpr
    intro entry member
    have behind : entry ∈ s.toList.drop s.leadingCount :=
      perm.mem_iff.mp (parted ▸ List.mem_append_left _ member)
    exact (List.nodup_append.mp nodup).2.2 entry (inFront.mem member) entry behind rfl
  rw [none, List.nil_append] at parted
  subst parted
  exact inBack.eq_of_length perm.length_eq

theorem toList_layOut (inOrder : s.InOrder repo) (distinct : s.names.Nodup) :
    (s.layOut repo).toList = (s.toList.take s.leadingCount).map Exposure.markLeading ++
      s.toList.drop s.leadingCount := by
  rw [Surface.toList_layOut, inOrder.leadingPart_eq_take distinct,
    inOrder.remainder_eq_drop distinct]

end InOrder

/-! ## Layouts of layouts -/

/-- A layout is made from its entries. -/
theorem reorder_toList_layOut : reorder (s.layOut repo).toList = s.layOut repo := by
  rw [layOut, toList_reorder]

theorem layOut_layOut (distinct : s.names.Nodup) :
    (s.layOut repo).layOut repo = s.layOut repo := by
  have marksOnce : Exposure.markLeading ∘ Exposure.markLeading = Exposure.markLeading := rfl
  have inOrder : (s.layOut repo).InOrder repo := inOrder_layOut distinct
  have count : (s.layOut repo).leadingCount = s.leadingCount := leadingCount_order
  have kept : ((s.layOut repo).layOut repo).toList = (s.layOut repo).toList := by
    rw [inOrder.toList_layOut (names_layOut_nodup distinct), count, take_layOut,
      drop_layOut, List.map_map, marksOnce, Surface.toList_layOut]
  rw [← reorder_toList_layOut (s := s.layOut repo), kept, reorder_toList_layOut]

/-- Of two orderings in turn, one that is enabled decides. -/
theorem order_order (distinct : s.names.Nodup) (first later : Bool) :
    (s.order repo first).order repo later = s.order repo (first || later) := by
  cases first with
  | false => rfl
  | true =>
      cases later with
      | false => rfl
      | true => exact layOut_layOut distinct

theorem foldl_order_any (distinct : s.names.Nodup) (flags : List Bool) (first : Bool) :
    flags.foldl (order repo) (s.order repo first) = s.order repo (first || flags.any id) := by
  induction flags generalizing first with
  | nil => rw [List.foldl_nil, List.any_nil, Bool.or_false]
  | cons later rest ih =>
      rw [List.foldl_cons, order_order distinct, ih, List.any_cons, Bool.or_assoc]
      rfl

variable (repo) in
/-- However often a surface is put in order, and whatever it has marked before: it stays as it is
if no ordering is enabled, and is laid out once if one is. -/
theorem foldl_order_eq (distinct : s.names.Nodup) (flags : List Bool) :
    ((∀ enabled ∈ flags, enabled = false) → flags.foldl (order repo) s = s) ∧
      ((∃ enabled ∈ flags, enabled = true) →
        flags.foldl (order repo) s = s.order repo true) := by
  have all : flags.foldl (order repo) s = s.order repo (flags.any id) :=
    foldl_order_any distinct flags false
  constructor
  · intro disabled
    have none : flags.any id = false := by simpa using disabled
    rw [all, none]
    rfl
  · intro enabled
    have some : flags.any id = true := by simpa using enabled
    rw [all, some]

/-- The shelf, with the slow thing and the shared one marked by mistake. -/
def markedShelf : Surface :=
  .reorder (shelf.toList.map fun entry =>
    if entry.1 ∈ ["Demo.ISlow", "Demo.IShared"] then entry.markLeading else entry)

/-- The slow thing is left behind and keeps its mark. -/
theorem foldl_order_eq_of_markedShelf :
    markedShelf.names.Nodup ∧
      ((markedShelf.order things true).toList.map fun entry => (entry.1, entry.2.leading)) =
        [("Demo.IShared", true), ("Demo.IOpen", true), ("Demo.IFast", true),
          ("Demo.IGated", false), ("Demo.ISlow", true), ("Demo.IBase", false)] ∧
      [false, false].foldl (order things) markedShelf = markedShelf ∧
      [false, true, false, true, true].foldl (order things) markedShelf =
        markedShelf.order things true := by
  have distinct : markedShelf.names.Nodup := by decide
  refine ⟨distinct, ?_, (foldl_order_eq things distinct _).1 (by decide),
    (foldl_order_eq things distinct _).2 (by decide)⟩
  rw [order_things]
  cbv

end Surface
end InterfaceSurface
