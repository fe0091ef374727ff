import InterfaceSurface.Proofs.Layout.Eligible
import InterfaceSurface.Proofs.Layout.Reordering
import Mathlib.Data.List.Perm.Subperm

/-! # Sorting a window in its place

If the eligible entries of a surface stand in front, one might lay it out by sorting them
there and leaving all others where they are.  The layout takes the least of all entries, so
that is the same only if nothing behind the window ranks before the last of it.  Only a
default can (`toList_order_eq_sortWindow_iff`). -/
set_option autoImplicit false
namespace InterfaceSurface
namespace Surface

variable {repo : Repository} {s : Surface}

/-- The eligible entries are those in the first places. -/
def Windowed (s : Surface) : Prop :=
  ∀ place entry, s.toList[place]? = some entry →
    (entry.eligible = true ↔ place < s.leadingCount)

/-- The entries after sorting the first ones, as many as are eligible, where they stand and
marking them. -/
def sortWindow (repo : Repository) (s : Surface) : List Exposure :=
  ((s.toList.take s.leadingCount).mergeSort (Exposure.precedes repo)).map Exposure.markLeading ++
    s.toList.drop s.leadingCount

/-! ## The window -/

theorem windowed_of_zipIdx
    (checked : ∀ entry ∈ s.toList.zipIdx, entry.1.eligible = true ↔ entry.2 < s.leadingCount) :
    s.Windowed := by
  intro place entry stands
  exact checked (entry, place) (List.mk_mem_zipIdx_iff_getElem?.mpr stands)

theorem Windowed.eligible_of_take (windowed : s.Windowed) :
    ∀ entry ∈ s.toList.take s.leadingCount, entry.eligible = true := by
  intro entry first
  obtain ⟨place, stands⟩ := List.mem_iff_getElem?.mp first
  rw [List.getElem?_take] at stands
  split at stands
  · exact (windowed place entry stands).mpr ‹place < s.leadingCount›
  · cases stands

theorem Windowed.not_eligible_of_drop (windowed : s.Windowed) :
    ∀ entry ∈ s.toList.drop s.leadingCount, entry.eligible = false := by
  intro entry behind
  obtain ⟨place, stands⟩ := List.mem_iff_getElem?.mp behind
  rw [List.getElem?_drop] at stands
  have eligible := windowed _ entry stands
  apply Bool.eq_false_of_not_eq_true
  intro isEligible
  have inside := eligible.mp isEligible
  omega

theorem Windowed.mem_take_iff (windowed : s.Windowed) {entry : Exposure} :
    entry ∈ s.toList.take s.leadingCount ↔ entry ∈ s.toList ∧ entry.eligible = true := by
  constructor
  · intro first
    exact ⟨List.mem_of_mem_take first, windowed.eligible_of_take entry first⟩
  · intro ⟨member, eligible⟩
    rw [← List.take_append_drop s.leadingCount s.toList] at member
    rcases List.mem_append.mp member with first | behind
    · exact first
    · cases (windowed.not_eligible_of_drop entry behind).symm.trans eligible

theorem Windowed.filter_not_eligible (windowed : s.Windowed) :
    s.toList.filter (!·.eligible) = s.toList.drop s.leadingCount := by
  have front : (s.toList.take s.leadingCount).filter (!·.eligible) = [] := by
    apply List.filter_eq_nil_iff.mpr
    intro entry first
    simp [windowed.eligible_of_take entry first]
  have back : (s.toList.drop s.leadingCount).filter (!·.eligible) =
      s.toList.drop s.leadingCount := by
    apply List.filter_eq_self.mpr
    intro entry behind
    simp [windowed.not_eligible_of_drop entry behind]
  calc s.toList.filter (!·.eligible)
      = (s.toList.take s.leadingCount ++ s.toList.drop s.leadingCount).filter (!·.eligible) := by
        rw [List.take_append_drop]
    _ = s.toList.drop s.leadingCount := by rw [List.filter_append, front, back, List.nil_append]

/-- No own default behind the window, or none but defaults in it: then no default is in the
way of an eligible entry. -/
theorem Windowed.noneInTheWay_iff (windowed : s.Windowed) :
    ((∀ entry ∈ s.toList, entry.2.base = false → entry.2.isDefault = true →
        entry.eligible = true) ∨
      ∀ entry ∈ s.toList, entry.eligible = true → entry.2.isDefault = true) ↔
    (∀ entry ∈ s.toList.drop s.leadingCount, entry.2.base = false →
        entry.2.isDefault = false) ∨
      ∀ entry ∈ s.toList.take s.leadingCount, entry.2.isDefault = true := by
  apply or_congr
  · constructor
    · intro defaultsEligible entry behind own
      apply Bool.eq_false_of_not_eq_true
      intro isDefault
      have eligible := defaultsEligible entry (List.mem_of_mem_drop behind) own isDefault
      cases (windowed.not_eligible_of_drop entry behind).symm.trans eligible
    · intro noneBehind entry member own isDefault
      rw [← List.take_append_drop s.leadingCount s.toList] at member
      rcases List.mem_append.mp member with first | behind
      · exact windowed.eligible_of_take entry first
      · cases (noneBehind entry behind own).symm.trans isDefault
  · constructor
    · intro eligibleDefaults entry first
      obtain ⟨member, eligible⟩ := windowed.mem_take_iff.mp first
      exact eligibleDefaults entry member eligible
    · intro allDefaults entry member eligible
      exact allDefaults entry (windowed.mem_take_iff.mpr ⟨member, eligible⟩)

/-! ## The window and the leading part -/

theorem toList_nodup (distinct : s.names.Nodup) : s.toList.Nodup := .of_map Prod.fst distinct

theorem length_sortedWindow :
    ((s.toList.take s.leadingCount).mergeSort (Exposure.precedes repo)).length =
      s.leadingCount := by
  rw [List.length_mergeSort, List.length_take, Nat.min_eq_left leadingCount_le]

theorem sortedWindow_ascending (distinct : s.names.Nodup) :
    ((s.toList.take s.leadingCount).mergeSort (Exposure.precedes repo)).Pairwise
      (Exposure.Below repo) :=
  Exposure.mergeSort_ascending (distinct.sublist ((List.take_sublist _ _).map Prod.fst))

/-- If only eligible entries lead, they are those of the window, sorted. -/
theorem leadingPart_eq_sortedWindow (distinct : s.names.Nodup) (windowed : s.Windowed)
    (leading : ∀ a ∈ (s.leadingPart repo).map Prod.fst, a.eligible = true) :
    (s.leadingPart repo).map Prod.fst =
      (s.toList.take s.leadingCount).mergeSort (Exposure.precedes repo) := by
  have ascending : ((s.leadingPart repo).map Prod.fst).Pairwise (Exposure.Below repo) :=
    leadingPart_ascending distinct
  have nodup : ((s.leadingPart repo).map Prod.fst).Nodup :=
    (List.nodup_append.mp (parts_perm.nodup_iff.mpr (toList_nodup distinct))).1
  have inside : (s.leadingPart repo).map Prod.fst ⊆ s.toList.take s.leadingCount := by
    intro a leads
    exact windowed.mem_take_iff.mpr ⟨mem_parts_iff.mp (.inl leads), leading a leads⟩
  have long : (s.toList.take s.leadingCount).length ≤
      ((s.leadingPart repo).map Prod.fst).length := by
    rw [List.length_map, length_leadingPart]
    exact List.length_take_le _ _
  have perm := (List.subperm_of_subset nodup inside).perm_of_length_le long
  apply List.Perm.eq_of_pairwise _ ascending (sortedWindow_ascending distinct)
    (perm.trans (List.mergeSort_perm _ _).symm)
  intro a b _ _ ab ba
  exact absurd ba ab.asymm

/-- If only eligible entries lead, all behind the window stay where they are. -/
theorem remainder_eq_drop (windowed : s.Windowed)
    (leading : ∀ a ∈ (s.leadingPart repo).map Prod.fst, a.eligible = true) :
    s.remainder repo = s.toList.drop s.leadingCount := by
  have rest : (s.remainder repo).filter (!·.eligible) = s.remainder repo := by
    apply List.filter_eq_self.mpr
    intro entry member
    simp [not_eligible_of_remainder leading entry member]
  have kept : (s.remainder repo).Sublist (s.toList.drop s.leadingCount) := by
    rw [← rest, ← windowed.filter_not_eligible]
    exact remainder_sublist.filter _
  apply kept.eq_of_length
  rw [remainder_perm.length_eq, List.length_map, List.length_drop, List.length_drop, length_ranked]

variable (repo) in
/-- A surface whose eligible entries stand in front is laid out by sorting them there just if no
own default stands behind them or all of them are defaults. -/
theorem toList_order_eq_sortWindow_iff (distinct : s.names.Nodup) (windowed : s.Windowed) :
    (s.order repo true).toList = s.sortWindow repo ↔
      (∀ entry ∈ s.toList.drop s.leadingCount, entry.2.base = false →
          entry.2.isDefault = false) ∨
        ∀ entry ∈ s.toList.take s.leadingCount, entry.2.isDefault = true := by
  rw [← windowed.noneInTheWay_iff]
  constructor
  · intro same
    apply noneInTheWay_of_leadingPart distinct
    intro a leads
    -- The first entries of both lists are marked entries of the leading part and of the window.
    have front := congrArg (List.take s.leadingCount) same
    rw [order, if_pos rfl, take_layOut, sortWindow,
      List.take_left' (by rw [List.length_map, length_sortedWindow])] at front
    have marked : a.markLeading ∈ ((s.leadingPart repo).map Prod.fst).map Exposure.markLeading :=
      List.mem_map_of_mem leads
    rw [front] at marked
    obtain ⟨b, inWindow, looks⟩ := List.mem_map.mp marked
    rw [List.mem_mergeSort] at inWindow
    have eligible : b.markLeading.eligible = true := windowed.eligible_of_take b inWindow
    rwa [looks] at eligible
  · intro noneInTheWay
    have leading : ∀ a ∈ (s.leadingPart repo).map Prod.fst, a.eligible = true :=
      eligible_of_leadingPart distinct noneInTheWay
    rw [order, if_pos rfl, toList_layOut, sortWindow,
      leadingPart_eq_sortedWindow distinct windowed leading, remainder_eq_drop windowed leading]

/-- A panel, at handle 3, none of whose interfaces requires another. -/
def flatPanel (declared : List Edge) : Repository := .ofList [
  .interfaceNamed "Demo" "IOpen" [],
  .ofPanel "IPanel" 0x10000 [] [.ofName "Draw"],
  .ofPanel "IPanelEffects" 0x20000 [] [.ofName "Blur", .ofName "Fade"],
  ⟨⟨"Demo", "Panel"⟩, .classType, [], none, declared, [], [],
    [.metadata "FastAbiAttribute" []]⟩]

def closedPanel : Repository :=
  flatPanel [toDemo "IPanelEffects", (toDemo "IPanel").markDefault, toDemo "IOpen"]

/-- The panel's own interfaces stand in front, its default among them. -/
theorem toList_order_eq_sortWindow_of_closedPanel :
    ∃ s, ofType closedPanel .display ⟨3⟩ = .ok s ∧ s.names.Nodup ∧ s.Windowed ∧
      s.names = ["Demo.IPanelEffects", "Demo.IPanel", "Demo.IOpen"] ∧
      (∀ entry ∈ s.toList.drop s.leadingCount, entry.2.base = false →
        entry.2.isDefault = false) ∧
      (s.order closedPanel true).toList = s.sortWindow closedPanel := by
  obtain ⟨s, run, distinct, names, windowed, noneBehind⟩ :
      ∃ s, ofType closedPanel .display ⟨3⟩ = .ok s ∧ s.names.Nodup ∧
        s.names = ["Demo.IPanelEffects", "Demo.IPanel", "Demo.IOpen"] ∧
        (∀ entry ∈ s.toList.zipIdx, entry.1.eligible = true ↔ entry.2 < s.leadingCount) ∧
        ∀ entry ∈ s.toList.drop s.leadingCount, entry.2.base = false →
          entry.2.isDefault = false := ⟨_, rfl, by decide⟩
  have windowed := windowed_of_zipIdx windowed
  exact ⟨s, run, distinct, windowed, names, noneBehind,
    (toList_order_eq_sortWindow_iff closedPanel distinct windowed).mpr (.inl noneBehind)⟩

def openPanel : Repository := flatPanel [toDemo "IPanel", (toDemo "IOpen").markDefault]

/-- What the panel exposes: its own interface, and a default that is open to all. -/
def openPanelSurface : Surface :=
  .reorder [
    ("Demo.IPanel", ⟨⟨1⟩, false, false, false, false, true, false, ⟨1, 0⟩, .empty⟩),
    ("Demo.IOpen", ⟨⟨0⟩, true, true, false, false, false, false, .zero, .empty⟩)]

/-- The default stands behind the window and takes the only place in the leading part. -/
theorem toList_order_ne_sortWindow_of_openPanel :
    ofType openPanel .display ⟨3⟩ = .ok openPanelSurface ∧ openPanelSurface.names.Nodup ∧
      (∀ entry ∈ openPanelSurface.toList,
        openPanel.Issued entry.2.type ∧ entry.2.leading = false) ∧
      openPanelSurface.Windowed ∧
      (openPanelSurface.order openPanel true).names = ["Demo.IOpen", "Demo.IPanel"] ∧
      (openPanelSurface.sortWindow openPanel).map Prod.fst = ["Demo.IPanel", "Demo.IOpen"] ∧
      (openPanelSurface.order openPanel true).toList ≠ openPanelSurface.sortWindow openPanel := by
  have ordered : (openPanelSurface.order openPanel true).names =
      ["Demo.IOpen", "Demo.IPanel"] := by cbv
  have sorted : (openPanelSurface.sortWindow openPanel).map Prod.fst =
      ["Demo.IPanel", "Demo.IOpen"] := by cbv
  refine ⟨rfl, by decide, by decide, windowed_of_zipIdx (by decide), ordered, sorted, ?_⟩
  intro same
  have names := congrArg (List.map Prod.fst) same
  rw [sorted] at names
  exact absurd (ordered.symm.trans names) (by decide)

end Surface
end InterfaceSurface
