import InterfaceSurface.Projection
import InterfaceSurface.Proofs.Closure.Accounting
import InterfaceSurface.Proofs.Closure.Counterparts
import InterfaceSurface.Proofs.Closure.OwnFacets

/-! # Reordered declarations

The order of edges decides which route finds a name first, and with it the order of
the entries and which of them are upgraded.  The paths of a type do not depend on it.
So if a type is plainly marked, its own entries are the same in any order of the
edges, apart from their places and scopes (`ownEntries_perm_of_reordered`), and a class
with the fast dispatch layout has the same leading part and as many slots
(`layout_of_reordered`). -/
set_option autoImplicit false
namespace InterfaceSurface

/-- The definitions agree in everything but the order of their edges. -/
def TypeDef.SameButOrder (d other : TypeDef) : Prop :=
  d.SameButEdges other ∧ d.edges.Perm other.edges

section
variable {repo other : Repository} {renderer : Renderer} {d e : TypeDef} {base : Bool}
  {path : List Edge} {key : String}

theorem TypeDef.SameButOrder.symm (same : d.SameButOrder e) : e.SameButOrder d :=
  ⟨same.1.symm, same.2.symm⟩

theorem TypeDef.SameButOrder.seenAlike (same : d.SameButOrder e) : d.SeenAlike id e :=
  ⟨same.1, fun _ => (same.2.map id).mem_iff⟩

theorem Repository.Alike.symm_order (alike : repo.Alike TypeDef.SameButOrder other) :
    other.Alike TypeDef.SameButOrder repo :=
  alike.symm.mono fun _ _ both => both.symm

theorem Repository.Alike.seen_order (alike : repo.Alike TypeDef.SameButOrder other) :
    repo.Alike (TypeDef.SeenAlike id) other :=
  alike.mono fun _ _ both => both.seenAlike

/-- An edge shows where it leads. -/
theorem target_id (a : Edge) : Edge.target (id a) = a.target := rfl

theorem isAlwaysEnabled_eq_of_reordered (alike : repo.Alike TypeDef.SameButOrder other) :
    repo.isAlwaysEnabled = other.isAlwaysEnabled := by
  apply alike.isAlwaysEnabled_eq
  intro a b both
  rw [both.1]
  exact ⟨rfl, rfl⟩

theorem methodCount_eq_of_reordered (alike : repo.Alike TypeDef.SameButOrder other) :
    repo.methodCount = other.methodCount := by
  apply alike.methodCount_eq
  intro a b both
  rw [both.1]

/-! ## Paths do not depend on the order -/

theorem TypeDef.Reaches.reordered (alike : repo.Alike TypeDef.SameButOrder other)
    (same : d.SameButOrder e) (reaches : d.Reaches repo base path) :
    e.Reaches other base path := by
  obtain ⟨pathToo, seen, reachesToo⟩ :=
    reaches.counterpart target_id alike.seen_order same.seenAlike
  simp only [List.map_id] at seen
  exact seen ▸ reachesToo

theorem atEnd?_eq_of_reordered (alike : repo.Alike TypeDef.SameButOrder other)
    (prints : renderer.PrintsAlike repo other) :
    Facet.atEnd? repo renderer base path = Facet.atEnd? other renderer base path := by
  unfold Facet.atEnd?
  rw [scopeBehind_eq_of_printsAlike prints]
  refine congrArg _ (funext fun last => ?_)
  rw [alike.resolve_eq]
  refine congrArg _ (funext fun target => ?_)
  cases known : repo.get? target with
  | none => rw [alike.get?_eq_none known]
  | some required =>
      obtain ⟨requiredToo, knownToo, _, same, _⟩ := alike.get? known
      rw [knownToo, same]
      rfl

theorem TypeDef.MayDecide.reordered (alike : repo.Alike TypeDef.SameButOrder other)
    (prints : renderer.PrintsAlike repo other) (same : d.SameButOrder e)
    (may : d.MayDecide repo renderer path key) : e.MayDecide other renderer path key := by
  refine ⟨may.reaches.reordered alike same, keyOf?_eq_of_printsAlike prints path ▸ may.named, ?_⟩
  intro rival reaches named
  rw [← keyOf?_eq_of_printsAlike prints] at named
  exact may.marked rival (reaches.reordered alike.symm_order same.symm) named

theorem TypeDef.PlainlyMarked.reordered (alike : repo.Alike TypeDef.SameButOrder other)
    (prints : renderer.PrintsAlike repo other) (same : d.SameButOrder e)
    (plainly : d.PlainlyMarked repo renderer) : e.PlainlyMarked other renderer := by
  constructor
  case single => rw [← same.2.countP_eq, plainly.single]
  case none_behind =>
    intro path reaches last isLast target known
    obtain ⟨h, resolved, stands⟩ := (last.targetDef?_eq_some_iff other target).mp known
    obtain ⟨targetBack, standsBack, _, both⟩ := alike.symm_order.get? stands
    have knownBack : last.targetDef? repo = some targetBack :=
      (last.targetDef?_eq_some_iff repo targetBack).mpr
        ⟨h, (alike.resolve_eq last.target).trans resolved, standsBack⟩
    rw [both.2.any_eq]
    exact plainly.none_behind path (reaches.reordered alike.symm_order same.symm) last isLast
      targetBack knownBack
  case unambiguous =>
    intro path rival reaches rivals named
    refine plainly.unambiguous path rival (reaches.reordered alike.symm_order same.symm)
      (rivals.reordered alike.symm_order same.symm) ?_
    rw [keyOf?_eq_of_printsAlike prints, keyOf?_eq_of_printsAlike prints, named]

end

namespace Surface

variable {repo other : Repository} {renderer : Renderer} {d e : TypeDef} {s t : Surface}

/-- The own entries do not depend on the order of edges. -/
theorem ownEntries_perm_of_reordered (acyclic : repo.Acyclic)
    (consistent : renderer.Consistent repo d) (plainly : d.PlainlyMarked repo renderer)
    (alike : repo.Alike TypeDef.SameButOrder other) (prints : renderer.PrintsAlike repo other)
    (same : d.SameButOrder e) (run : ofDefinition repo renderer d = .ok s)
    (runToo : ofDefinition other renderer e = .ok t) :
    (s.ownEntries.map Exposure.unscoped).Perm (t.ownEntries.map Exposure.unscoped) := by
  have acyclicToo : other.Acyclic := acyclic.counterpart target_id alike.seen_order
  have consistentToo : renderer.Consistent other e :=
    consistent.counterpart target_id alike.seen_order same.seenAlike prints
  have distinct := (indexed_of_ofDefinition acyclic consistent run).names_nodup
  have distinctToo := (indexed_of_ofDefinition acyclicToo consistentToo runToo).names_nodup
  apply (List.perm_ext_iff_of_nodup (unscoped_ownEntries_nodup distinct)
    (unscoped_ownEntries_nodup distinctToo)).mpr
  intro entry
  have plainlyToo := plainly.reordered alike prints same
  rw [mem_unscoped_ownEntries_iff acyclic consistent plainly run,
    mem_unscoped_ownEntries_iff acyclicToo consistentToo plainlyToo runToo]
  constructor
  · rintro ⟨path, key, facet, may, said, rfl⟩
    rw [atEnd?_eq_of_reordered alike prints] at said
    exact ⟨path, key, facet, may.reordered alike prints same, said, rfl⟩
  · rintro ⟨path, key, facet, may, said, rfl⟩
    rw [← atEnd?_eq_of_reordered alike prints] at said
    exact ⟨path, key, facet, may.reordered alike.symm_order prints.symm same.symm, said, rfl⟩

/-- Laid out, the leading part does not depend on the order of edges. -/
theorem order_of_reordered (acyclic : repo.Acyclic)
    (consistent : renderer.Consistent repo d) (plainly : d.PlainlyMarked repo renderer)
    (alike : repo.Alike TypeDef.SameButOrder other) (prints : renderer.PrintsAlike repo other)
    (same : d.SameButOrder e) (run : ofDefinition repo renderer d = .ok s)
    (runToo : ofDefinition other renderer e = .ok t) :
    (s.order repo true).markedEntries.map Exposure.unscoped =
        (t.order other true).markedEntries.map Exposure.unscoped ∧
      (s.order repo true).leadingMethods repo = (t.order other true).leadingMethods other := by
  obtain ⟨indexed, plain⟩ := indexed_and_unmarked run
  obtain ⟨indexedToo, plainToo⟩ := indexed_and_unmarked runToo
  have own := ownEntries_perm_of_reordered acyclic consistent plainly alike prints same run runToo
  have gates := isAlwaysEnabled_eq_of_reordered alike
  constructor
  · exact markedEntries_eq_of_own_perm Exposure.showsLayout_unscoped gates indexed.names_nodup
      indexedToo.names_nodup plain plainToo own
  · exact leadingMethods_eq_of_own_perm Exposure.showsLayout_unscoped gates
      (methodCount_eq_of_reordered alike) indexed.names_nodup indexedToo.names_nodup plain plainToo
      own

end Surface

namespace Projection

variable {p : Projection} {h : Handle} {d : TypeDef} {s : Surface}

theorem interfaces_of_fastAbi (known : p.repo.get? h = some d)
    (fast : d.usesFastAbi p.settings = true)
    (run : Surface.ofDefinition p.repo p.renderer d = .ok s) :
    p.interfaces h = .ok (s.order p.repo true) := by
  rw [interfaces, Repository.get_eq_ok_iff.mpr known]
  simp only [bind, Except.bind, run, fast, pure, Except.pure]

theorem slotCount_of_fastAbi {handles : List Handle} (known : p.repo.get? h = some d)
    (fast : d.usesFastAbi p.settings = true) (climbed : d.bases p.repo = .ok handles)
    (run : Surface.ofDefinition p.repo p.renderer d = .ok s) :
    p.slotCount h =
      .ok (headerSlots + handles.length + (s.order p.repo true).leadingMethods p.repo) := by
  rw [slotCount, Repository.get_eq_ok_iff.mpr known, interfaces_of_fastAbi known fast run]
  simp only [bind, Except.bind, fast, if_true, TypeDef.slotCount, climbed, pure, Except.pure]

/-- Where declarations are in another order, the own entries, the leading part and the
number of slots are what they were. -/
theorem layout_of_reordered {repo other : Repository} {renderer : Renderer} {settings : Settings}
    {t : Surface} (known : repo.get? h = some d) (fast : d.usesFastAbi settings = true)
    (acyclic : repo.Acyclic) (consistent : renderer.Consistent repo d)
    (plainly : d.PlainlyMarked repo renderer) (alike : repo.Alike TypeDef.SameButOrder other)
    (prints : renderer.PrintsAlike repo other) (run : Surface.ofType repo renderer h = .ok s)
    (runToo : Surface.ofType other renderer h = .ok t) :
    (s.ownEntries.map Exposure.unscoped).Perm (t.ownEntries.map Exposure.unscoped) ∧
      ∃ laid laidToo slots, interfaces ⟨repo, renderer, settings⟩ h = .ok laid ∧
        interfaces ⟨other, renderer, settings⟩ h = .ok laidToo ∧
        laid.markedEntries.map Exposure.unscoped = laidToo.markedEntries.map Exposure.unscoped ∧
        slotCount ⟨repo, renderer, settings⟩ h = .ok slots ∧
        slotCount ⟨other, renderer, settings⟩ h = .ok slots := by
  obtain ⟨e, knownToo, _, same⟩ := alike.get? known
  rw [Surface.ofType_eq_ofDefinition known] at run
  rw [Surface.ofType_eq_ofDefinition knownToo] at runToo
  have fastToo : e.usesFastAbi settings = true := by
    rw [same.1]
    exact fast
  have own := Surface.ownEntries_perm_of_reordered acyclic consistent plainly alike prints same run
    runToo
  obtain ⟨marked, counted⟩ := Surface.order_of_reordered acyclic consistent plainly alike prints
    same run runToo
  obtain ⟨handles, climbed⟩ : ∃ handles, d.bases repo = .ok handles := by
    obtain ⟨handles, _, climbed, _⟩ := Surface.walked_of_ofDefinition acyclic consistent run
    exact ⟨handles, climbed⟩
  have climbedToo : e.bases other = .ok handles := by
    rw [← alike.bases_eq (fun _ _ both => both.1.base_eq) same.1.base_eq, climbed]
  refine ⟨own, _, _, _, interfaces_of_fastAbi known fast run,
    interfaces_of_fastAbi knownToo fastToo runToo, marked,
    slotCount_of_fastAbi known fast climbed run, ?_⟩
  rw [slotCount_of_fastAbi knownToo fastToo climbedToo runToo, counted]

end Projection

/-! ## A panel with its declarations in two orders -/

def fastSettings : Settings := { Settings.off with fastAbi := true }

def toDemo (name : String) : Edge := ⟨.named ⟨"Demo", name⟩, []⟩

/-- An interface of the panel alone. -/
def TypeDef.ofPanel (name : String) (version : UInt32) (edges : List Edge)
    (methods : List Method) : TypeDef :=
  ⟨⟨"Demo", name⟩, .interfaceType, [], none, edges, methods, [],
    [.metadata "ExclusiveToAttribute" [.type ⟨"Demo", "Panel"⟩],
      .metadata "VersionAttribute" [.word version]]⟩

/-- A class with the fast dispatch layout, at handle 4. -/
def panelWith (declared required : List Edge) : Repository := .ofList [
  .interfaceNamed "Demo" "IDrawable" [],
  ⟨⟨"Demo", "IColored"⟩, .interfaceType, [], none, [], [], [],
    [.metadata "VersionAttribute" [.word 0x10000]]⟩,
  .ofPanel "IPanel" 0x10000 required [.ofName "Draw"],
  .ofPanel "IPanelEffects" 0x20000 [toDemo "IDrawable"] [.ofName "Blur", .ofName "Fade"],
  ⟨⟨"Demo", "Panel"⟩, .classType, [], none, declared, [], [],
    [.metadata "FastAbiAttribute" []]⟩]

/-- The default interface comes first and brings all it requires. -/
def panel : Repository :=
  panelWith [(toDemo "IPanel").markDefault, toDemo "IPanelEffects"]
    [toDemo "IDrawable", toDemo "IColored"]

/-- The effects come first, and what they require is upgraded later. -/
def turnedPanel : Repository :=
  panelWith [toDemo "IPanelEffects", (toDemo "IPanel").markDefault]
    [toDemo "IColored", toDemo "IDrawable"]

theorem alike_turnedPanel : panel.Alike TypeDef.SameButOrder turnedPanel := by
  rw [panel, turnedPanel, panelWith, panelWith, Repository.Alike, Repository.toList_ofList,
    Repository.toList_ofList]
  have same : ∀ d : TypeDef, d.name = d.name ∧ d.SameButOrder d := fun d => ⟨rfl, rfl, .refl _⟩
  exact .cons (same _) <| .cons (same _) <| .cons ⟨rfl, rfl, .swap _ _ _⟩ <| .cons (same _) <|
    .cons ⟨rfl, rfl, .swap _ _ _⟩ .nil

theorem acyclic_panel : panel.Acyclic := Repository.acyclic_of_descending (by decide)

/-- What the panel exposes: the default with all it requires, and then the effects. -/
def panelSurface : Surface := .reorder [
  ("Demo.IDrawable", ⟨⟨0⟩, false, true, false, false, false, false, .zero, .empty⟩),
  ("Demo.IColored", ⟨⟨1⟩, false, true, false, false, false, false, ⟨1, 0⟩, .empty⟩),
  ("Demo.IPanel", ⟨⟨2⟩, true, true, false, false, true, false, ⟨1, 0⟩, .empty⟩),
  ("Demo.IPanelEffects", ⟨⟨3⟩, false, false, false, false, true, false, ⟨2, 0⟩, .empty⟩)]

/-- Both panels have the same two interfaces in front, with three methods behind the header. -/
theorem Projection.layout_of_turnedPanel :
    ∃ d s t, panel.get? ⟨4⟩ = some d ∧ d.usesFastAbi fastSettings = true ∧
      panel.Acyclic ∧ Renderer.display.Consistent panel d ∧ d.PlainlyMarked panel .display ∧
      panel.Alike TypeDef.SameButOrder turnedPanel ∧
      Renderer.display.PrintsAlike panel turnedPanel ∧
      Surface.ofType panel .display ⟨4⟩ = .ok s ∧ Surface.ofType turnedPanel .display ⟨4⟩ = .ok t ∧
      s.names = ["Demo.IDrawable", "Demo.IColored", "Demo.IPanel", "Demo.IPanelEffects"] ∧
      t.names = ["Demo.IDrawable", "Demo.IPanelEffects", "Demo.IColored", "Demo.IPanel"] ∧
      (s.ownEntries.map Exposure.unscoped).Perm (t.ownEntries.map Exposure.unscoped) ∧
      ∃ laid laidToo,
        interfaces ⟨panel, .display, fastSettings⟩ ⟨4⟩ = .ok laid ∧
        interfaces ⟨turnedPanel, .display, fastSettings⟩ ⟨4⟩ = .ok laidToo ∧
        laid.markedEntries.map Exposure.unscoped = laidToo.markedEntries.map Exposure.unscoped ∧
        laid.markedEntries.map Prod.fst = ["Demo.IPanel", "Demo.IPanelEffects"] ∧
        laidToo.markedEntries.map Prod.fst = ["Demo.IPanel", "Demo.IPanelEffects"] ∧
        slotCount ⟨panel, .display, fastSettings⟩ ⟨4⟩ = .ok 9 ∧
        slotCount ⟨turnedPanel, .display, fastSettings⟩ ⟨4⟩ = .ok 9 := by
  obtain ⟨d, known, fast, climbed, consistent, plainly⟩ : ∃ d, panel.get? ⟨4⟩ = some d ∧
      d.usesFastAbi fastSettings = true ∧ d.bases panel = .ok [] ∧
      Renderer.display.Consistent panel d ∧ d.PlainlyMarked panel .display :=
    ⟨_, rfl, by decide, rfl, Renderer.consistent_of_routes acyclic_panel (by decide),
      TypeDef.plainlyMarked_of_routes acyclic_panel (by decide) (by decide)⟩
  have run : Surface.ofType panel .display ⟨4⟩ = .ok panelSurface := rfl
  obtain ⟨t, runToo, namesToo⟩ : ∃ t, Surface.ofType turnedPanel .display ⟨4⟩ = .ok t ∧
      t.names = ["Demo.IDrawable", "Demo.IPanelEffects", "Demo.IColored", "Demo.IPanel"] :=
    ⟨_, rfl, by decide⟩
  have prints := Renderer.display_printsAlike alike_turnedPanel
  obtain ⟨own, laid, laidToo, slots, resolved, resolvedToo, same, counted, countedToo⟩ :=
    layout_of_reordered known fast acyclic_panel consistent plainly alike_turnedPanel prints run
      runToo
  rw [Surface.ofType_eq_ofDefinition known] at run
  cases resolved.symm.trans (interfaces_of_fastAbi known fast run)
  cases counted.symm.trans (slotCount_of_fastAbi known fast climbed run)
  have marked : (panelSurface.order panel true).markedEntries.map Prod.fst =
      ["Demo.IPanel", "Demo.IPanelEffects"] := by cbv
  have methods : (panelSurface.order panel true).leadingMethods panel = 3 := by cbv
  -- The names stand in front on the other side too, since both show the same without scopes.
  have markedToo : laidToo.markedEntries.map Prod.fst = ["Demo.IPanel", "Demo.IPanelEffects"] := by
    have names := congrArg (List.map Prod.fst) same
    rw [List.map_map, List.map_map] at names
    exact names.symm.trans marked
  rw [methods] at counted countedToo
  exact ⟨d, panelSurface, t, known, fast, acyclic_panel, consistent, plainly, alike_turnedPanel,
    prints, rfl, runToo, by decide, namesToo, own, _, laidToo, resolved, resolvedToo, same, marked,
    markedToo, counted, countedToo⟩

end InterfaceSurface
