import InterfaceSurface.Proofs.Layout.Slots
import InterfaceSurface.Proofs.Layout.Window

/-! # Tear-offs are needed for marked entries other than defaults

Only the first entry that is no default is looked at.  That is enough where the marked entries
stand at the head of the surface: if one of them is no default, the first such entry is among
them, and else it stands behind them all (`needsTearOffs_iff_of_isPrefix`).  What a type
resolves to is such a surface, laid out or not (`Projection.needsTearOffs_iff_marked_other`). -/
set_option autoImplicit false
namespace InterfaceSurface
namespace Surface

variable {repo : Repository} {renderer : Renderer} {d : TypeDef} {s : Surface}

/-- Nothing behind the marked entries is marked if they stand at the head. -/
theorem unmarked_of_markedEntries_append {back : List Exposure}
    (split : s.markedEntries ++ back = s.toList) : ∀ entry ∈ back, entry.2.leading = false := by
  have front : s.markedEntries.filter (·.2.leading) = s.markedEntries :=
    List.filter_eq_self.mpr fun entry member => (List.mem_filter.mp member).2
  have all : s.markedEntries ++ back.filter (·.2.leading) = s.markedEntries := by
    calc s.markedEntries ++ back.filter (·.2.leading)
        = (s.markedEntries ++ back).filter (·.2.leading) := by rw [List.filter_append, front]
      _ = s.markedEntries := by rw [split, markedEntries]
  intro entry member
  exact Bool.eq_false_of_not_eq_true
    (List.filter_eq_nil_iff.mp (List.append_right_eq_self.mp all) entry member)

/-- The first entry that is no default decides for all that are marked. -/
theorem needsTearOffs_iff_of_isPrefix (atHead : s.markedEntries <+: s.toList) :
    s.needsTearOffs = true ↔
      ∃ entry ∈ s.toList, entry.2.leading = true ∧ entry.2.isDefault = false := by
  obtain ⟨back, split⟩ := atHead
  have plain := unmarked_of_markedEntries_append split
  cases other : s.markedEntries.find? (!·.2.isDefault) with
  | some first =>
      -- A marked entry is the first one.
      have member : first ∈ s.markedEntries := List.mem_of_find?_eq_some other
      obtain ⟨listed, leading⟩ := List.mem_filter.mp member
      have isOther : first.2.isDefault = false := by simpa using List.find?_some other
      rw [needsTearOffs, ← split, List.find?_append, other, split]
      exact iff_of_true leading ⟨first, listed, leading, isOther⟩
  | none =>
      have defaults : ∀ entry ∈ s.markedEntries, entry.2.isDefault = true := by
        simpa using List.find?_eq_none.mp other
      apply iff_of_false
      · rw [needsTearOffs, ← split, List.find?_append, other, Option.none_or]
        cases behind : back.find? (!·.2.isDefault) with
        | none => exact Bool.false_ne_true
        | some first => simp [plain first (List.mem_of_find?_eq_some behind)]
      · rintro ⟨entry, listed, leading, isOther⟩
        have member : entry ∈ s.markedEntries := List.mem_filter.mpr ⟨listed, leading⟩
        cases isOther.symm.trans (defaults entry member)

/-- The marked entries of a type stand at the head of its surface; there are none without the
fast dispatch layout. -/
theorem markedEntries_isPrefix_of_ofDefinition (run : ofDefinition repo renderer d = .ok s)
    (enabled : Bool) :
    (s.order repo enabled).markedEntries <+: (s.order repo enabled).toList := by
  cases enabled with
  | true => exact markedEntries_order_isPrefix run
  | false =>
      have plain := (indexed_and_unmarked run).2
      have none : s.markedEntries = [] := by
        apply List.filter_eq_nil_iff.mpr
        intro entry member
        simp [plain entry member]
      have same : s.order repo false = s := rfl
      rw [same, none]
      exact List.nil_prefix

end Surface

namespace Projection

variable {p : Projection} {h : Handle} {laid : Surface}

/-- A type that resolves needs tear-offs just if it has a marked entry that is no default. -/
theorem needsTearOffs_iff_marked_other (resolved : p.interfaces h = .ok laid) :
    ∃ needed, p.needsTearOffs h = .ok needed ∧
      (needed = true ↔
        ∃ entry ∈ laid.toList, entry.2.leading = true ∧ entry.2.isDefault = false) := by
  obtain ⟨d, found, _, run, isLaid⟩ := exists_of_interfaces_eq_ok resolved
  refine ⟨laid.needsTearOffs, ?_, ?_⟩
  · rw [needsTearOffs, resolved]
    rfl
  · rw [isLaid]
    exact Surface.needsTearOffs_iff_of_isPrefix
      (Surface.markedEntries_isPrefix_of_ofDefinition run _)

/-- What a panel with two own interfaces exposes; its default is one of them, and so may be what
is open to all. -/
def twoPartSurface (openToo : Bool) : Surface := .reorder [
  ("Demo.IPanelEffects", ⟨⟨2⟩, false, false, false, false, true, false, ⟨2, 0⟩, .empty⟩),
  ("Demo.IPanel", ⟨⟨1⟩, true, true, false, false, true, false, ⟨1, 0⟩, .empty⟩),
  ("Demo.IOpen", ⟨⟨0⟩, openToo, openToo, false, false, false, false, .zero, .empty⟩)]

/-- The closed panel, with a second default. -/
def crowdedPanel : Repository :=
  Surface.flatPanel
    [toDemo "IPanelEffects", (toDemo "IPanel").markDefault, (toDemo "IOpen").markDefault]

/-- There are two places.  The effects have the second one, unless a second default takes it. -/
theorem needsTearOffs_iff_marked_other_of_panels :
    (∃ laid, interfaces ⟨Surface.closedPanel, .display, fastSettings⟩ ⟨3⟩ = .ok laid ∧
      (∃ entry ∈ laid.toList, entry.2.leading = true ∧ entry.2.isDefault = false) ∧
      needsTearOffs ⟨Surface.closedPanel, .display, fastSettings⟩ ⟨3⟩ = .ok true) ∧
    ∃ laid, interfaces ⟨crowdedPanel, .display, fastSettings⟩ ⟨3⟩ = .ok laid ∧
      laid.names = ["Demo.IPanel", "Demo.IOpen", "Demo.IPanelEffects"] ∧
      (¬ ∃ entry ∈ laid.toList, entry.2.leading = true ∧ entry.2.isDefault = false) ∧
      needsTearOffs ⟨crowdedPanel, .display, fastSettings⟩ ⟨3⟩ = .ok false := by
  have closed : interfaces ⟨Surface.closedPanel, .display, fastSettings⟩ ⟨3⟩ =
      .ok ((twoPartSurface false).order Surface.closedPanel true) := rfl
  have crowded : interfaces ⟨crowdedPanel, .display, fastSettings⟩ ⟨3⟩ =
      .ok ((twoPartSurface true).order crowdedPanel true) := rfl
  have marked : (((twoPartSurface false).order Surface.closedPanel true).toList.any fun entry =>
      entry.2.leading && !entry.2.isDefault) = true := by cbv
  have unmarked : (((twoPartSurface true).order crowdedPanel true).toList.any fun entry =>
      entry.2.leading && !entry.2.isDefault) = false := by cbv
  constructor
  · have some : ∃ entry ∈ ((twoPartSurface false).order Surface.closedPanel true).toList,
        entry.2.leading = true ∧ entry.2.isDefault = false := by simpa using marked
    obtain ⟨needed, told, decides⟩ := needsTearOffs_iff_marked_other closed
    exact ⟨_, closed, some, decides.mpr some ▸ told⟩
  · have none : ¬ ∃ entry ∈ ((twoPartSurface true).order crowdedPanel true).toList,
        entry.2.leading = true ∧ entry.2.isDefault = false := by simpa using unmarked
    obtain ⟨needed, told, decides⟩ := needsTearOffs_iff_marked_other crowded
    have needless : needed = false := Bool.eq_false_of_not_eq_true (mt decides.mp none)
    exact ⟨_, crowded, by cbv, none, needless ▸ told⟩

end Projection
end InterfaceSurface
