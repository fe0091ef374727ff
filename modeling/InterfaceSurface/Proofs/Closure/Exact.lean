import InterfaceSurface.Proofs.Closure.Resolution

/-! # The surface is exact

The names of a surface are the printed names at the ends of the type's routes,
each once: nothing that can be reached is lost to an edge that was passed over,
and nothing else is present. -/
set_option autoImplicit false
namespace InterfaceSurface
/-! ## A widget that is a list -/

def TypeDef.interfaceNamed (space name : String) (edges : List Edge) : TypeDef :=
  ⟨⟨space, name⟩, .interfaceType, [], none, edges, [], [], []⟩

def iterableOf (item : TypeSig) : Edge := ⟨.inst (.named ⟨"Coll", "IIterable`1"⟩) [item], []⟩

def listOf (item : TypeSig) : Edge := ⟨.inst (.named ⟨"Coll", "IList`1"⟩) [item], []⟩

/-- A list can be iterated.  The widget, at handle 4, declares iteration as
overridable, and a list as its default; its base class is a thing. -/
def gadgets : Repository := .ofList [
  .interfaceNamed "Coll" "IIterable`1" [],
  .interfaceNamed "Coll" "IList`1" [iterableOf (.param 0)],
  .interfaceNamed "Demo" "IThing" [],
  ⟨⟨"Demo", "Base"⟩, .classType, [], none,
    [.markDefault ⟨.named ⟨"Demo", "IThing"⟩, []⟩], [], [], []⟩,
  ⟨⟨"Demo", "Widget"⟩, .classType, [], some (.named ⟨"Demo", "Base"⟩),
    [.markOverridable (iterableOf (.element .int32)), .markDefault (listOf (.element .int32))],
    [], [], []⟩]

theorem acyclic_gadgets : gadgets.Acyclic := Repository.acyclic_of_descending (by decide)

theorem consistent_gadgets :
    ∃ d, gadgets.get? ⟨4⟩ = some d ∧ Renderer.display.Consistent gadgets d :=
  ⟨_, rfl, Renderer.consistent_of_routes acyclic_gadgets (by decide)⟩

namespace Surface

variable {repo : Repository} {renderer : Renderer} {d : TypeDef} {s : Surface}

theorem ofType_eq_ofDefinition {h : Handle} (known : repo.get? h = some d) :
    ofType repo renderer h = ofDefinition repo renderer d := by
  rw [ofType, Repository.get_eq_ok_iff.mpr known]
  rfl

theorem indexed_of_ofDefinition (acyclic : repo.Acyclic) (consistent : renderer.Consistent repo d)
    (run : ofDefinition repo renderer d = .ok s) : s.Indexed :=
  ofDefinition_eq_mergeAll acyclic consistent run ▸ indexed_empty.mergeAll _

theorem exists_route_of_mem (acyclic : repo.Acyclic) (consistent : renderer.Consistent repo d)
    (run : ofDefinition repo renderer d = .ok s) {key : String} (listed : key ∈ s.names) :
    ∃ route path, d.Leads repo renderer route path key := by
  rw [ofDefinition_eq_mergeAll acyclic consistent run, mem_names_mergeAll] at listed
  obtain ⟨found, member, rfl⟩ := List.mem_map.mp listed
  obtain ⟨⟨route, path⟩, walked, finds⟩ := List.mem_filterMap.mp member
  exact ⟨route, path, (mem_routes_iff acyclic d route path).mp walked,
    (Exposure.atEnd?_eq_some finds).1⟩

theorem mem_names_of_leads (acyclic : repo.Acyclic) (consistent : renderer.Consistent repo d)
    (run : ofDefinition repo renderer d = .ok s) {route : Route} {path : List Edge} {key : String}
    (leads : d.Leads repo renderer route path key) : key ∈ s.names := by
  have reaches : d.Reaches repo route.isBase path :=
    TypeDef.Reaches.iff_route.mpr ⟨route, rfl, leads.1⟩
  obtain ⟨name, printed, settled⟩ := settled_of_ofDefinition acyclic consistent run reaches
  cases Option.some.inj (printed.symm.trans leads.2)
  obtain ⟨facet, known, _⟩ := (settles_iff _ _).mp settled
  have indexed := indexed_of_ofDefinition acyclic consistent run
  exact List.mem_map.mpr ⟨(key, facet), (indexed.get?_eq_some_iff key facet).mp known, rfl⟩

/-- The names of the surface are the names that routes lead to, each once. -/
theorem names_ofType_exact {h : Handle} (known : repo.get? h = some d) (acyclic : repo.Acyclic)
    (consistent : renderer.Consistent repo d) (run : ofType repo renderer h = .ok s) :
    s.names.Nodup ∧
      ∀ key, key ∈ s.names ↔ ∃ route path, d.Leads repo renderer route path key := by
  rw [ofType_eq_ofDefinition known] at run
  refine ⟨(indexed_of_ofDefinition acyclic consistent run).names_nodup, fun key => ⟨?_, ?_⟩⟩
  · exact exists_route_of_mem acyclic consistent run
  · rintro ⟨route, path, leads⟩
    exact mem_names_of_leads acyclic consistent run leads

theorem names_ofType_exact_of_gadgets :
    ∃ d s, gadgets.get? ⟨4⟩ = some d ∧ gadgets.Acyclic ∧ Renderer.display.Consistent gadgets d ∧
      ofType gadgets .display ⟨4⟩ = .ok s ∧
      s.names = ["Coll.IIterable`1<Int32>", "Coll.IList`1<Int32>", "Demo.IThing"] ∧
      s.names.Nodup ∧
        ∀ key, key ∈ s.names ↔ ∃ route path, d.Leads gadgets .display route path key := by
  obtain ⟨d, known, consistent⟩ := consistent_gadgets
  have run : ∃ s, ofType gadgets .display ⟨4⟩ = .ok s ∧
      s.names = ["Coll.IIterable`1<Int32>", "Coll.IList`1<Int32>", "Demo.IThing"] :=
    ⟨_, rfl, by decide⟩
  obtain ⟨s, run, names⟩ := run
  exact ⟨d, s, known, acyclic_gadgets, consistent, run, names,
    names_ofType_exact known acyclic_gadgets consistent run⟩

end Surface
end InterfaceSurface
