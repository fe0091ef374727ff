import InterfaceSurface.Projection
import InterfaceSurface.Proofs.Closure.Grounded
import InterfaceSurface.Proofs.Closure.OwnPart

/-! # What is declared is on the surface

Whether a type declares an interface, itself or through its base classes, is told from single
edges: each is printed by itself, the first one printed as asked for ends the search, and what
an interface requires is not looked at.  The surface comes of a walk that may pass an edge
over or overwrite what it finds there.

A walk that succeeds has printed each edge it was given and listed it, and loses no name
(`Surface.Covers`).  So where a type has a surface, the search comes to an answer for every
text, and what it finds is on the surface (`Projection.declared_on_surface`). -/
set_option autoImplicit false
namespace InterfaceSurface

/-! ## The search -/

/-- The edge is printed so and is not an instantiation. -/
def Edge.isPrinted (e : Edge) (repo : Repository) (renderer : Renderer) (text : String) : Bool :=
  !e.target.isInst && renderer.type repo e.target .empty == text

theorem Edge.isPrinted_iff {e : Edge} {repo : Repository} {renderer : Renderer} {text : String} :
    e.isPrinted repo renderer text = true ↔
      e.target.isInst = false ∧ renderer.type repo e.target .empty = text := by
  simp [isPrinted]

/-- All of the edges can be printed by themselves. -/
def Edge.AllPrint (edges : List Edge) (repo : Repository) (renderer : Renderer) : Prop :=
  ∀ e ∈ edges, renderer.name repo e.target .empty = .ok (renderer.type repo e.target .empty)

namespace TypeDef

variable {repo : Repository} {renderer : Renderer} {d : TypeDef}

theorem declares_of_allPrint (print : Edge.AllPrint d.edges repo renderer) (text : String) :
    d.declares repo renderer text = .ok (d.edges.any (·.isPrinted repo renderer text)) :=
  anyM_of_ok fun e listed => Edge.targets_of_printed (print e listed) text

/-- The search goes through the own edges and then through those of the base classes. -/
theorem implements_of_allPrint {handles : List Handle} (climbed : d.bases repo = .ok handles)
    (known : ∀ h ∈ handles, ∃ base, repo.get? h = some base)
    (print : Edge.AllPrint (d.edges ++ Surface.edgesOfBases repo handles) repo renderer)
    (text : String) :
    d.implements repo renderer text =
      .ok ((d.edges ++ Surface.edgesOfBases repo handles).any (·.isPrinted repo renderer text)) := by
  have own := declares_of_allPrint (fun e listed => print e (List.mem_append_left _ listed)) text
  have each : ∀ h ∈ handles, (do (← repo.get h).declares repo renderer text) =
      .ok (((repo.get? h).map TypeDef.edges).any (·.any (·.isPrinted repo renderer text))) := by
    intro h member
    obtain ⟨base, stored⟩ := known h member
    have fromBase : Edge.AllPrint base.edges repo renderer := by
      intro e listed
      refine print e (List.mem_append_right _ (List.mem_flatten.mpr ⟨base.edges, ?_, listed⟩))
      exact List.mem_filterMap.mpr ⟨h, member, by rw [stored]; rfl⟩
    rw [Repository.get_eq_ok_iff.mpr stored, stored]
    exact declares_of_allPrint fromBase text
  rw [implements, own, climbed, List.any_append, Surface.edgesOfBases, List.any_flatten,
    List.any_filterMap]
  cases d.edges.any (·.isPrinted repo renderer text) with
  | true => rfl
  | false => exact anyM_of_ok each

end TypeDef

namespace Surface

variable {repo : Repository} {renderer : Renderer} {d : TypeDef} {s middle result : Surface}

/-! ## The walk -/

/-- What a walk of some edges does to the surface it starts on: it keeps the names, and has
printed each edge and listed it. -/
structure Covers (repo : Repository) (renderer : Renderer) (edges : List Edge)
    (s result : Surface) : Prop where
  indexed : result.Indexed
  keeps : s.names ⊆ result.names
  prints : Edge.AllPrint edges repo renderer
  lists : ∀ e ∈ edges, renderer.type repo e.target .empty ∈ result.names

theorem Covers.nil (indexed : s.Indexed) : Covers repo renderer [] s s where
  indexed := indexed
  keeps := List.Subset.refl _
  prints := nofun
  lists := nofun

theorem Covers.append {edges rest : List Edge} (first : Covers repo renderer edges s middle)
    (later : Covers repo renderer rest middle result) :
    Covers repo renderer (edges ++ rest) s result where
  indexed := later.indexed
  keeps := List.Subset.trans first.keeps later.keeps
  prints := List.forall_mem_append.mpr ⟨first.prints, later.prints⟩
  lists := List.forall_mem_append.mpr
    ⟨fun e listed => later.keeps (first.lists e listed), later.lists⟩

theorem covers_of_walkType {base : Bool} {edges : List Edge} (indexed : s.Indexed)
    (run : walkType repo renderer base s edges = .ok result) :
    Covers repo renderer edges s result := by
  have logged : (walkLogged repo renderer (repo.size + 1) (.along repo renderer base []) s
      edges).outcome = .ok result := by
    rw [outcome_walkLogged]
    exact run
  have tracked := tracked_walkLogged repo renderer base (repo.size + 1) [] edges s
  constructor
  · exact tracked.indexed indexed logged
  · intro name listed
    rw [tracked.rebuilds result logged]
    exact indexed.mem_names_replay.mpr (.inl listed)
  · intro e listed
    rw [walkType, walk] at run
    obtain ⟨_, _, visited⟩ := exists_step_of_foldlM_eq_ok run listed
    obtain ⟨text, printed, _⟩ := bind_eq_ok_iff.mp visited
    exact Renderer.eq_type_of_name printed ▸ printed
  · intro e listed
    exact lists_concat_iff.mp (lists_of_walkLogged indexed logged e listed)

theorem covers_of_bases {handles : List Handle} (indexed : s.Indexed)
    (run : handles.foldlM (addBase repo renderer) s = .ok result) :
    (∀ h ∈ handles, ∃ base, repo.get? h = some base) ∧
      Covers repo renderer (edgesOfBases repo handles) s result := by
  induction handles generalizing s with
  | nil =>
      cases run
      exact ⟨nofun, .nil indexed⟩
  | cons h rest ih =>
      obtain ⟨middle, added, onward⟩ := foldlM_cons_eq_ok_iff.mp run
      obtain ⟨base, got, walked⟩ := bind_eq_ok_iff.mp added
      have known := Repository.get_eq_ok_iff.mp got
      have head := covers_of_walkType indexed walked
      obtain ⟨others, tail⟩ := ih head.indexed onward
      refine ⟨List.forall_mem_cons.mpr ⟨⟨base, known⟩, others⟩, ?_⟩
      simpa [edgesOfBases, known] using head.append tail

/-- The surface of a type covers its own edges and those of its base classes. -/
theorem covers_of_ofDefinition (run : ofDefinition repo renderer d = .ok s) :
    ∃ handles, d.bases repo = .ok handles ∧ (∀ h ∈ handles, ∃ base, repo.get? h = some base) ∧
      Covers repo renderer (d.edges ++ edgesOfBases repo handles) .empty s := by
  obtain ⟨_, _, run⟩ := bind_eq_ok_iff.mp run
  obtain ⟨own, walked, run⟩ := bind_eq_ok_iff.mp run
  obtain ⟨handles, climbed, run⟩ := bind_eq_ok_iff.mp run
  have first := covers_of_walkType indexed_empty walked
  obtain ⟨known, later⟩ := covers_of_bases first.indexed run
  exact ⟨handles, climbed, known, first.append later⟩

end Surface

namespace Projection

variable {p : Projection} {h : Handle} {s : Surface}

/-- Where a type has a surface, it can be asked for every text whether the type declares what is
printed so.  The answer is yes for just the texts of the edges, of the type or of a base class,
that are no instantiations, and each of those is on the surface. -/
theorem declared_on_surface (run : Surface.ofType p.repo p.renderer h = .ok s) (text : String) :
    ∃ d found, p.repo.get? h = some d ∧ p.implements h text = .ok found ∧
      (found = true ↔ ∃ declared ∈ d.origins p.repo, ∃ e ∈ declared, e.target.isInst = false ∧
        p.renderer.type p.repo e.target .empty = text) ∧
      (found = true → s.contains text = true) := by
  obtain ⟨d, got, run⟩ := bind_eq_ok_iff.mp run
  obtain ⟨handles, climbed, known, covers⟩ := Surface.covers_of_ofDefinition run
  have answer := TypeDef.implements_of_allPrint climbed known covers.prints text
  have edges : d.edges ++ Surface.edgesOfBases p.repo handles = (d.origins p.repo).flatten := by
    rw [Surface.origins_of_bases climbed, List.flatten_cons, Surface.edgesOfBases]
  rw [edges] at answer covers
  have asked : p.implements h text = d.implements p.repo p.renderer text := by
    rw [implements, got]
    rfl
  refine ⟨d, _, Repository.get_eq_ok_iff.mp got, asked.trans answer, ?_, ?_⟩
  · simp only [List.any_flatten, List.any_eq_true, Edge.isPrinted_iff]
  · intro found
    obtain ⟨e, listed, printed⟩ := List.any_eq_true.mp found
    obtain ⟨_, rfl⟩ := Edge.isPrinted_iff.mp printed
    exact (covers.indexed.contains_iff _).mpr (covers.lists e listed)

/-- The walk passes over what the base class declares, as the type's own interface requires it; the
search finds it there. -/
theorem declared_on_surface_of_ring :
    ∃ s, Surface.ofType Surface.ring .display ⟨3⟩ = .ok s ∧
      Projection.implements ⟨Surface.ring, .display, .off⟩ ⟨3⟩ "Demo.IThing" = .ok true ∧
      s.contains "Demo.IThing" = true := by
  have run : ∃ s, Surface.ofType Surface.ring .display ⟨3⟩ = .ok s := ⟨_, rfl⟩
  obtain ⟨s, run⟩ := run
  obtain ⟨d, found, known, answer, meaning, within⟩ :=
    declared_on_surface (p := ⟨Surface.ring, .display, .off⟩) run "Demo.IThing"
  cases known
  have inBase : found = true :=
    meaning.mpr ⟨_, .tail _ (.head _), _, .head _, rfl, rfl⟩
  exact ⟨s, run, inBase ▸ answer, within inBase⟩

end Projection
end InterfaceSurface
