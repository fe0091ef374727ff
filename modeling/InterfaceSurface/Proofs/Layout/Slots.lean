import InterfaceSurface.Proofs.Layout.OtherBases
import Mathlib.Algebra.GroupWithZero.Nat

/-! # Slots count every marked interface

The slots are counted along the head of a surface, up to the first entry that is not marked.
A surface that is laid out has all its marked entries there (`takeWhile_order`), as many as
are eligible (`length_markedEntries_order`); so the count is that of all marked entries,
wherever one looks for them (`Projection.slotCount_counts_marked`). -/
set_option autoImplicit false
namespace InterfaceSurface
namespace Surface

variable {repo : Repository} {s : Surface}

theorem length_markedEntries_order (plain : ∀ entry ∈ s.toList, entry.2.leading = false) :
    (s.order repo true).markedEntries.length = s.leadingCount := by
  rw [markedEntries_order plain, List.length_map, List.length_map, length_leadingPart]

/-- The methods of the head are those of all marked entries. -/
theorem leadingMethods_order_eq_sum (plain : ∀ entry ∈ s.toList, entry.2.leading = false) :
    (s.order repo true).leadingMethods repo =
      ((s.order repo true).markedEntries.map fun entry => repo.methodCount entry.2.type).sum := by
  rw [leadingMethods_order plain, List.sum_eq_foldr, List.foldr_map]

end Surface

namespace Projection

variable {p : Projection} {h : Handle} {laid : Surface}

/-- What resolves has a definition, and is laid out as that asks for. -/
theorem exists_of_interfaces_eq_ok (resolved : p.interfaces h = .ok laid) :
    ∃ d found, p.repo.get? h = some d ∧
      Surface.ofDefinition p.repo p.renderer d = .ok found ∧
      laid = found.order p.repo (d.usesFastAbi p.settings) := by
  obtain ⟨d, got, resolved⟩ := bind_eq_ok_iff.mp resolved
  obtain ⟨found, run, resolved⟩ := bind_eq_ok_iff.mp resolved
  exact ⟨d, found, Repository.get_eq_ok_iff.mp got, run, (Except.ok.inj resolved).symm⟩

theorem slotCount_of_other {d : TypeDef} (known : p.repo.get? h = some d)
    (other : d.usesFastAbi p.settings = false) : p.slotCount h = .ok 0 := by
  rw [slotCount, Repository.get_eq_ok_iff.mpr known]
  simp only [bind, Except.bind, other, Bool.false_eq_true, if_false, pure, Except.pure]

/-- A type that resolves has a slot count.  It is zero only without the fast dispatch layout; with
it, it counts the header, the base classes and the methods of all marked entries, which are as
many as are eligible and stand in front of all others. -/
theorem slotCount_counts_marked (resolved : p.interfaces h = .ok laid) :
    ∃ d slots, p.repo.get? h = some d ∧ p.slotCount h = .ok slots ∧
      (slots = 0 ↔
        p.settings.fastAbi = false ∨ Attribute.hasKnown d.attributes .fastAbi = false) ∧
      (p.settings.fastAbi = true → Attribute.hasKnown d.attributes .fastAbi = true →
        ∃ handles, d.bases p.repo = .ok handles ∧
          slots = 6 + handles.length +
            (laid.markedEntries.map fun entry => p.repo.methodCount entry.2.type).sum ∧
          laid.markedEntries.length = laid.toList.countP Exposure.eligible ∧
          laid.toList.takeWhile (·.2.leading) = laid.markedEntries) := by
  obtain ⟨d, found, known, run, rfl⟩ := exists_of_interfaces_eq_ok resolved
  obtain ⟨_, plain⟩ := Surface.indexed_and_unmarked run
  cases fast : d.usesFastAbi p.settings with
  | false =>
      have without : p.settings.fastAbi = false ∨
          Attribute.hasKnown d.attributes .fastAbi = false := Bool.and_eq_false_iff.mp fast
      refine ⟨d, 0, known, slotCount_of_other known fast, iff_of_true rfl without, ?_⟩
      intro asked marked
      rw [TypeDef.usesFastAbi, asked, marked] at fast
      cases fast
  | true =>
      obtain ⟨asked, marked⟩ : p.settings.fastAbi = true ∧
          Attribute.hasKnown d.attributes .fastAbi = true := Bool.and_eq_true_iff.mp fast
      obtain ⟨_, handles, _, climbed, _⟩ := Surface.exists_own_of_ofDefinition run
      refine ⟨d, _, known, slotCount_of_fastAbi known fast climbed run, ?_, ?_⟩
      · simp [headerSlots, asked, marked]
      · intro _ _
        refine ⟨handles, climbed, ?_, ?_, Surface.takeWhile_order plain⟩
        · rw [Surface.leadingMethods_order_eq_sum plain, headerSlots]
        · exact (Surface.length_markedEntries_order plain).trans
            Surface.leadingCount_order.symm

/-- What the panel on the board exposes: its own interfaces, and then the effects. -/
def boardSurface : Surface := .reorder <| unbasedSurface.toList ++ [
  ("Demo.IPanelEffects", ⟨⟨2⟩, true, false, false, true, true, false, ⟨1, 0⟩, .empty⟩)]

/-- The panel and the board are each other's base classes.  Two interfaces are marked, with one
method and with three.  The effects are exclusive too, but they come with the board, so they are
not marked and their methods do not count. -/
theorem slotCount_counts_marked_of_board :
    ∃ laid, interfaces ⟨panelOn (some (.handle ⟨3⟩)), .display, fastSettings⟩ ⟨4⟩ = .ok laid ∧
      laid.names = ["Demo.IPanel", "Demo.IPanelGrid", "Demo.IDrawable", "Demo.IPanelEffects"] ∧
      laid.markedEntries.map Prod.fst = ["Demo.IPanel", "Demo.IPanelGrid"] ∧
      slotCount ⟨panelOn (some (.handle ⟨3⟩)), .display, fastSettings⟩ ⟨4⟩ = .ok 12 := by
  have resolved : interfaces ⟨panelOn (some (.handle ⟨3⟩)), .display, fastSettings⟩ ⟨4⟩ =
      .ok (boardSurface.order (panelOn (some (.handle ⟨3⟩))) true) := rfl
  have names : (boardSurface.order (panelOn (some (.handle ⟨3⟩))) true).names =
      ["Demo.IPanel", "Demo.IPanelGrid", "Demo.IDrawable", "Demo.IPanelEffects"] := by cbv
  have marked : (boardSurface.order (panelOn (some (.handle ⟨3⟩))) true).markedEntries.map
      Prod.fst = ["Demo.IPanel", "Demo.IPanelGrid"] := by cbv
  have methods : (boardSurface.order (panelOn (some (.handle ⟨3⟩))) true).markedEntries.map
      (fun entry => (panelOn (some (.handle ⟨3⟩))).methodCount entry.2.type) = [1, 3] := by cbv
  obtain ⟨d, known, fast, climbed⟩ : ∃ d, (panelOn (some (.handle ⟨3⟩))).get? ⟨4⟩ = some d ∧
      Attribute.hasKnown d.attributes .fastAbi = true ∧
      d.bases (panelOn (some (.handle ⟨3⟩))) = .ok [⟨3⟩, ⟨4⟩] := ⟨_, rfl, by decide, rfl⟩
  obtain ⟨_, slots, knownToo, counted, _, all⟩ := slotCount_counts_marked resolved
  cases Option.some.inj (known.symm.trans knownToo)
  obtain ⟨handles, climbedToo, sum, _⟩ := all rfl fast
  cases Except.ok.inj (climbed.symm.trans climbedToo)
  rw [methods] at sum
  have total : slots = 12 := sum
  exact ⟨_, resolved, names, marked, total ▸ counted⟩

end Projection
end InterfaceSurface
