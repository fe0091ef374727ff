import InterfaceSurface.Proofs.Closure.OwnPart
import InterfaceSurface.Proofs.Layout.Reordering

/-! # The leading part does not depend on base classes

The entries that base classes bring are ranked along with all others.  But the walk from the
type itself does not see base classes, and no walk from a base class changes what it left; so
the own entries are the same whatever the base classes are, cyclic chains included, and with
them the leading part.  Of the dispatch slots only those for the base classes themselves
differ (`Projection.layout_of_otherBases`). -/
set_option autoImplicit false
namespace InterfaceSurface
namespace Surface

variable {repo other : Repository} {renderer : Renderer} {d e : TypeDef} {s t : Surface}

/-- The own entries are what the walk from the type itself finds. -/
theorem exists_own_of_ofDefinition (run : ofDefinition repo renderer d = .ok s) :
    ∃ own handles, walkType repo renderer false .empty d.edges = .ok own ∧
      d.bases repo = .ok handles ∧ s.ownEntries = own.toList := by
  obtain ⟨_, _, run⟩ := bind_eq_ok_iff.mp run
  obtain ⟨own, walked, run⟩ := bind_eq_ok_iff.mp run
  obtain ⟨handles, climbed, run⟩ := bind_eq_ok_iff.mp run
  obtain ⟨indexed, isOwn⟩ := own_of_walkType walked
  obtain ⟨back, split, fromBases⟩ := appended_of_bases climbed indexed run
  have front : own.toList.filter (!·.2.base) = own.toList :=
    List.filter_eq_self.mpr fun entry member => by simp [isOwn entry member]
  have behind : back.filter (!·.2.base) = [] :=
    List.filter_eq_nil_iff.mpr fun entry member => by simp [(fromBases entry member).1]
  refine ⟨own, handles, walked, climbed, ?_⟩
  rw [ownEntries, split, List.filter_append, front, behind, List.append_nil]

theorem ownEntries_eq_of_sameButBase (alike : repo.Alike TypeDef.SameButBase other)
    (prints : renderer.PrintsAlike repo other) (same : d.SameButBase e)
    (run : ofDefinition repo renderer d = .ok s) (runToo : ofDefinition other renderer e = .ok t) :
    s.ownEntries = t.ownEntries := by
  obtain ⟨own, _, walked, _, isOwn⟩ := exists_own_of_ofDefinition run
  obtain ⟨ownToo, _, walkedToo, _, isOwnToo⟩ := exists_own_of_ofDefinition runToo
  have declared : e.edges = d.edges := by rw [same]
  rw [declared, ← walkType_eq_of_sameButBase alike prints, walked] at walkedToo
  rw [isOwn, isOwnToo, Except.ok.inj walkedToo]

/-- Laid out, the marked entries stand at the head. -/
theorem markedEntries_order_isPrefix (run : ofDefinition repo renderer d = .ok s) :
    (s.order repo true).markedEntries <+: (s.order repo true).toList := by
  obtain ⟨_, plain⟩ := indexed_and_unmarked run
  rw [← takeWhile_order plain]
  exact List.takeWhile_prefix _

/-- Laid out, the leading part does not depend on base classes. -/
theorem order_of_sameButBase (alike : repo.Alike TypeDef.SameButBase other)
    (prints : renderer.PrintsAlike repo other) (same : d.SameButBase e)
    (run : ofDefinition repo renderer d = .ok s) (runToo : ofDefinition other renderer e = .ok t) :
    (s.order repo true).markedEntries = (t.order other true).markedEntries ∧
      (s.order repo true).leadingMethods repo = (t.order other true).leadingMethods other := by
  obtain ⟨indexed, plain⟩ := indexed_and_unmarked run
  obtain ⟨indexedToo, plainToo⟩ := indexed_and_unmarked runToo
  have own : (s.ownEntries.map id).Perm (t.ownEntries.map id) := by
    rw [ownEntries_eq_of_sameButBase alike prints same run runToo]
  have gates : repo.isAlwaysEnabled = other.isAlwaysEnabled := by
    apply alike.isAlwaysEnabled_eq
    intro a b both
    rw [both]
    exact ⟨rfl, rfl⟩
  have methods : repo.methodCount = other.methodCount := by
    apply alike.methodCount_eq
    intro a b both
    rw [both]
  constructor
  · have marked := markedEntries_eq_of_own_perm Exposure.showsLayout_id gates
      indexed.names_nodup indexedToo.names_nodup plain plainToo own
    rwa [List.map_id, List.map_id] at marked
  · exact leadingMethods_eq_of_own_perm Exposure.showsLayout_id gates methods
      indexed.names_nodup indexedToo.names_nodup plain plainToo own

end Surface

namespace Projection

/-- With other base classes, the marked entries at the head of a fast dispatch class are the same,
and so is the number of slots that are not for base classes. -/
theorem layout_of_otherBases {repo other : Repository} {renderer : Renderer} {settings : Settings}
    {h : Handle} {d : TypeDef} {s t : Surface} (known : repo.get? h = some d)
    (fast : d.usesFastAbi settings = true) (alike : repo.Alike TypeDef.SameButBase other)
    (prints : renderer.PrintsAlike repo other) (run : Surface.ofType repo renderer h = .ok s)
    (runToo : Surface.ofType other renderer h = .ok t) :
    ∃ laid laidToo handles handlesToo slots,
      interfaces ⟨repo, renderer, settings⟩ h = .ok laid ∧
      interfaces ⟨other, renderer, settings⟩ h = .ok laidToo ∧
      laid.markedEntries <+: laid.toList ∧ laidToo.markedEntries <+: laidToo.toList ∧
      laid.markedEntries = laidToo.markedEntries ∧
      (repo.get h >>= fun d => d.bases repo) = .ok handles ∧
      (other.get h >>= fun d => d.bases other) = .ok handlesToo ∧
      slotCount ⟨repo, renderer, settings⟩ h = .ok (slots + handles.length) ∧
      slotCount ⟨other, renderer, settings⟩ h = .ok (slots + handlesToo.length) := by
  obtain ⟨e, knownToo, _, same⟩ := alike.get? known
  rw [Surface.ofType_eq_ofDefinition known] at run
  rw [Surface.ofType_eq_ofDefinition knownToo] at runToo
  have fastToo : e.usesFastAbi settings = true := by
    rw [same]
    exact fast
  obtain ⟨_, handles, _, climbed, _⟩ := Surface.exists_own_of_ofDefinition run
  obtain ⟨_, handlesToo, _, climbedToo, _⟩ := Surface.exists_own_of_ofDefinition runToo
  obtain ⟨marked, counted⟩ := Surface.order_of_sameButBase alike prints same run runToo
  refine ⟨_, _, handles, handlesToo,
    headerSlots + (s.order repo true).leadingMethods repo, interfaces_of_fastAbi known fast run,
    interfaces_of_fastAbi knownToo fastToo runToo, Surface.markedEntries_order_isPrefix run,
    Surface.markedEntries_order_isPrefix runToo, marked, ?_, ?_, ?_, ?_⟩
  · rw [Repository.get_eq_ok_iff.mpr known]
    exact climbed
  · rw [Repository.get_eq_ok_iff.mpr knownToo]
    exact climbedToo
  · rw [slotCount_of_fastAbi known fast climbed run, Nat.add_right_comm]
  · rw [slotCount_of_fastAbi knownToo fastToo climbedToo runToo, counted, Nat.add_right_comm]

/-- A panel, at handle 4, and what it may be based on.  The board below it declares the effects
as its default. -/
def panelOn (base : Option TypeRef) : Repository := .ofList [
  .interfaceNamed "Demo" "IDrawable" [],
  .ofPanel "IPanel" 0x20000 [toDemo "IDrawable"] [.ofName "Draw"],
  .ofPanel "IPanelEffects" 0x10000 [] [.ofName "Blur", .ofName "Fade"],
  ⟨⟨"Demo", "Board"⟩, .classType, [], some (.named ⟨"Demo", "Panel"⟩),
    [(toDemo "IPanelEffects").markDefault], [], [], []⟩,
  ⟨⟨"Demo", "Panel"⟩, .classType, [], base, [(toDemo "IPanel").markDefault, toDemo "IPanelGrid"],
    [], [], [.metadata "FastAbiAttribute" []]⟩,
  .ofPanel "IPanelGrid" 0x20000 [] [.ofName "Split", .ofName "Join", .ofName "Align"]]

theorem alike_panelOn (base other : Option TypeRef) :
    (panelOn base).Alike TypeDef.SameButBase (panelOn other) := by
  rw [panelOn, panelOn, Repository.Alike, Repository.toList_ofList, Repository.toList_ofList]
  exact .cons ⟨rfl, rfl⟩ <| .cons ⟨rfl, rfl⟩ <| .cons ⟨rfl, rfl⟩ <| .cons ⟨rfl, rfl⟩ <|
    .cons ⟨rfl, rfl⟩ <| .cons ⟨rfl, rfl⟩ .nil

/-- What the panel exposes by itself. -/
def unbasedSurface : Surface := .reorder [
  ("Demo.IDrawable", ⟨⟨0⟩, false, true, false, false, false, false, .zero, .empty⟩),
  ("Demo.IPanel", ⟨⟨1⟩, true, true, false, false, true, false, ⟨2, 0⟩, .empty⟩),
  ("Demo.IPanelGrid", ⟨⟨5⟩, false, false, false, false, true, false, ⟨2, 0⟩, .empty⟩)]

/-- On the board, the panel is its own base class in the end, and the effects come with the
board.  They are a default and older than the grid, and do not get its place; all that the board
adds are two slots for the base classes. -/
theorem layout_of_panelOnBoard :
    ∃ d s t, (panelOn none).get? ⟨4⟩ = some d ∧ d.usesFastAbi fastSettings = true ∧
      Renderer.display.PrintsAlike (panelOn none) (panelOn (some (.handle ⟨3⟩))) ∧
      Surface.ofType (panelOn none) .display ⟨4⟩ = .ok s ∧
      Surface.ofType (panelOn (some (.handle ⟨3⟩))) .display ⟨4⟩ = .ok t ∧
      s.names = ["Demo.IDrawable", "Demo.IPanel", "Demo.IPanelGrid"] ∧
      t.names = ["Demo.IDrawable", "Demo.IPanel", "Demo.IPanelGrid", "Demo.IPanelEffects"] ∧
      ∃ laid laidToo,
        interfaces ⟨panelOn none, .display, fastSettings⟩ ⟨4⟩ = .ok laid ∧
        interfaces ⟨panelOn (some (.handle ⟨3⟩)), .display, fastSettings⟩ ⟨4⟩ = .ok laidToo ∧
        laid.markedEntries <+: laid.toList ∧ laidToo.markedEntries <+: laidToo.toList ∧
        laid.markedEntries = laidToo.markedEntries ∧
        laid.markedEntries.map Prod.fst = ["Demo.IPanel", "Demo.IPanelGrid"] ∧
        ((panelOn none).get ⟨4⟩ >>= fun d => d.bases (panelOn none)) = .ok [] ∧
        ((panelOn (some (.handle ⟨3⟩))).get ⟨4⟩ >>= fun d =>
          d.bases (panelOn (some (.handle ⟨3⟩)))) = .ok [⟨3⟩, ⟨4⟩] ∧
        slotCount ⟨panelOn none, .display, fastSettings⟩ ⟨4⟩ = .ok 10 ∧
        slotCount ⟨panelOn (some (.handle ⟨3⟩)), .display, fastSettings⟩ ⟨4⟩ = .ok 12 := by
  have alike := alike_panelOn none (some (.handle ⟨3⟩))
  have prints := Renderer.display_printsAlike alike
  obtain ⟨d, known, fast, climbed⟩ : ∃ d, (panelOn none).get? ⟨4⟩ = some d ∧
      d.usesFastAbi fastSettings = true ∧ d.bases (panelOn none) = .ok [] :=
    ⟨_, rfl, by decide, rfl⟩
  have run : Surface.ofType (panelOn none) .display ⟨4⟩ = .ok unbasedSurface := rfl
  obtain ⟨t, runToo, namesToo⟩ :
      ∃ t, Surface.ofType (panelOn (some (.handle ⟨3⟩))) .display ⟨4⟩ = .ok t ∧
        t.names = ["Demo.IDrawable", "Demo.IPanel", "Demo.IPanelGrid", "Demo.IPanelEffects"] :=
    ⟨_, rfl, by decide⟩
  obtain ⟨laid, laidToo, handles, handlesToo, slots, resolved, resolvedToo, front, frontToo, same,
    above, aboveToo, counted, countedToo⟩ := layout_of_otherBases known fast alike prints run runToo
  have unbased : (panelOn none).get ⟨4⟩ >>= (fun d => d.bases (panelOn none)) = .ok [] := rfl
  have based : (panelOn (some (.handle ⟨3⟩))).get ⟨4⟩ >>= (fun d =>
      d.bases (panelOn (some (.handle ⟨3⟩)))) = .ok [⟨3⟩, ⟨4⟩] := rfl
  cases above.symm.trans unbased
  cases aboveToo.symm.trans based
  rw [Surface.ofType_eq_ofDefinition known] at run
  cases resolved.symm.trans (interfaces_of_fastAbi known fast run)
  have marked : (unbasedSurface.order (panelOn none) true).markedEntries.map Prod.fst =
      ["Demo.IPanel", "Demo.IPanelGrid"] := by cbv
  have methods : (unbasedSurface.order (panelOn none) true).leadingMethods (panelOn none) = 4 := by
    cbv
  have sum := Except.ok.inj (counted.symm.trans (slotCount_of_fastAbi known fast climbed run))
  rw [methods] at sum
  have ten : slots = 10 := sum
  subst ten
  exact ⟨d, unbasedSurface, t, known, fast, prints, rfl, runToo, by decide, namesToo, _, laidToo,
    resolved, resolvedToo, front, frontToo, same, marked, unbased, based, counted, countedToo⟩

end Projection
end InterfaceSurface
