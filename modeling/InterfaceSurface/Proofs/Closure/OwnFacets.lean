import InterfaceSurface.Proofs.Closure.Deciding
import InterfaceSurface.Proofs.Closure.OneDefault
import InterfaceSurface.Proofs.Layout.OwnRanking

/-! # What own entries say, whatever the order of routes

Which of the own routes to a name decides about it depends on the order of edges.
What it says does not, apart from the scope, if the type marks a single default edge,
nothing behind its edges marks another, and a name is reached through an overridable
edge on all own paths or on none (`TypeDef.PlainlyMarked`).  Then all own paths that
may decide agree (`unscoped_eq_of_mayDecide`), and the own entries are what these
paths say (`mem_unscoped_ownEntries_iff`). -/
set_option autoImplicit false
namespace InterfaceSurface

/-- The type marks one edge default, what its edges reach marks none, and own paths to
one name agree on whether they go through an overridable edge. -/
structure TypeDef.PlainlyMarked (d : TypeDef) (repo : Repository) (renderer : Renderer) :
    Prop where
  single : d.edges.countP Edge.isDefault = 1
  none_behind : ∀ path, d.Reaches repo false path → ∀ last ∈ path.getLast?,
    ∀ target ∈ last.targetDef? repo, target.edges.any Edge.isDefault = false
  unambiguous : ∀ path rival, d.Reaches repo false path → d.Reaches repo false rival →
    keyOf? repo renderer path = keyOf? repo renderer rival →
    path.any Edge.isOverridable = rival.any Edge.isOverridable

/-- The path leads from the type itself to the name, and goes through a default edge if
any such path does. -/
structure TypeDef.MayDecide (d : TypeDef) (repo : Repository) (renderer : Renderer)
    (path : List Edge) (key : String) : Prop where
  reaches : d.Reaches repo false path
  named : keyOf? repo renderer path = some key
  marked : ∀ rival, d.Reaches repo false rival → keyOf? repo renderer rival = some key →
    rival.any Edge.isDefault = true → path.any Edge.isDefault = true

section
variable {repo : Repository} {renderer : Renderer} {d : TypeDef} {route : Route}
  {path rival : List Edge} {key : String}

theorem TypeDef.plainlyMarked_of_routes (acyclic : repo.Acyclic)
    (single : d.edges.countP Edge.isDefault = 1)
    (checked : ∀ p ∈ d.routes repo, p.1.isBase = false →
      (∀ last ∈ p.2.getLast?, ∀ target ∈ last.targetDef? repo,
        target.edges.any Edge.isDefault = false) ∧
      ∀ q ∈ d.routes repo, q.1.isBase = false →
        keyOf? repo renderer p.2 = keyOf? repo renderer q.2 →
        p.2.any Edge.isOverridable = q.2.any Edge.isOverridable) :
    d.PlainlyMarked repo renderer := by
  have marks : d.MarksOneDefault repo :=
    TypeDef.marksOneDefault_of_routes acyclic single fun p member isOwn =>
      (checked p member isOwn).1
  refine ⟨single, marks.none_behind, ?_⟩
  intro path rival reaches rivals same
  obtain ⟨p, member, isOwn, rfl⟩ := exists_route_of_own acyclic reaches
  obtain ⟨q, memberToo, isOwnToo, rfl⟩ := exists_route_of_own acyclic rivals
  exact (checked p member isOwn).2 q memberToo isOwnToo same

namespace TypeDef.PlainlyMarked

theorem marksOneDefault (plainly : d.PlainlyMarked repo renderer) : d.MarksOneDefault repo :=
  ⟨plainly.single, plainly.none_behind⟩

/-- If a path that may decide ends with the default edge, no other path may decide. -/
theorem eq_of_default_last (plainly : d.PlainlyMarked repo renderer) (acyclic : repo.Acyclic)
    (consistent : renderer.Consistent repo d) (may : d.MayDecide repo renderer path key)
    (mayToo : d.MayDecide repo renderer rival key) {last : Edge}
    (isLast : path.getLast? = some last) (isDefault : last.isDefault = true) : path = rival := by
  obtain ⟨front, rfl⟩ := List.getLast?_eq_some_iff.mp isLast
  have marks := plainly.marksOneDefault
  obtain ⟨rfl, declared⟩ := marks.first_of_default may.reaches isDefault
  have marked := mayToo.marked _ may.reaches may.named (by simp [isDefault])
  obtain ⟨e, listed, isDefaultToo⟩ := List.any_eq_true.mp marked
  obtain ⟨front, back, rfl⟩ := List.append_of_mem listed
  obtain ⟨rfl, declaredToo⟩ := marks.first_of_default mayToo.reaches isDefaultToo
  cases marks.default_unique declared declaredToo isDefault isDefaultToo
  -- What lies behind the default edge has another name.
  have alone : back = [] := by
    apply Decidable.byContradiction
    intro more
    have reaches : d.Reaches repo false ([last] ++ back) := mayToo.reaches
    exact consistent.keyOf?_ne acyclic (by simp) more reaches (mayToo.named.trans may.named.symm)
  rw [alone]

end TypeDef.PlainlyMarked

/-- All paths that may decide about a name say the same of it, apart from the scope. -/
theorem unscoped_eq_of_mayDecide (acyclic : repo.Acyclic) (consistent : renderer.Consistent repo d)
    (plainly : d.PlainlyMarked repo renderer) (may : d.MayDecide repo renderer path key)
    (mayToo : d.MayDecide repo renderer rival key) {facet facetToo : Facet}
    (said : Facet.atEnd? repo renderer false path = some facet)
    (saidToo : Facet.atEnd? repo renderer false rival = some facetToo) :
    Exposure.unscoped (key, facet) = Exposure.unscoped (key, facetToo) := by
  obtain ⟨last, target, definition, isLast, resolved, known, rfl⟩ := Facet.exists_of_atEnd? said
  obtain ⟨finish, targetToo, definitionToo, isFinish, resolvedToo, knownToo, rfl⟩ :=
    Facet.exists_of_atEnd? saidToo
  have sameTarget : target = targetToo := by
    have alike := (consistent.of_reaches may.reaches mayToo.reaches may.named mayToo.named last
      isLast finish isFinish).1
    rw [resolved, resolvedToo] at alike
    exact Option.some.inj alike
  subst sameTarget
  cases known.symm.trans knownToo
  have sameLast : last.isDefault = finish.isDefault := by
    rw [Bool.eq_iff_iff]
    constructor
    · intro isDefault
      cases plainly.eq_of_default_last acyclic consistent may mayToo isLast isDefault
      cases isLast.symm.trans isFinish
      exact isDefault
    · intro isDefault
      cases plainly.eq_of_default_last acyclic consistent mayToo may isFinish isDefault
      cases isLast.symm.trans isFinish
      exact isDefault
  have sameDefaulted : path.any Edge.isDefault = rival.any Edge.isDefault := by
    rw [Bool.eq_iff_iff]
    exact ⟨mayToo.marked path may.reaches may.named, may.marked rival mayToo.reaches mayToo.named⟩
  have sameOverridable : path.any Edge.isOverridable = rival.any Edge.isOverridable :=
    plainly.unambiguous path rival may.reaches mayToo.reaches (may.named.trans mayToo.named.symm)
  simp only [Exposure.unscoped, sameLast, sameDefaulted, sameOverridable]

/-! ## The own entries -/

theorem TypeDef.Decides.own (decides : d.Decides repo renderer route path key)
    (reaches : d.Reaches repo false rival) (named : keyOf? repo renderer rival = some key) :
    route.isBase = false := by
  obtain ⟨own, isOwn, leads⟩ := TypeDef.Reaches.iff_route.mp reaches
  rcases decides with ⟨strong, _⟩ | ⟨_, _, first⟩
  · exact strong.2.1
  · have earlier := first own rival ⟨leads, named⟩
    simp only [Route.isBase, bne_eq_false_iff_eq, Route.Before, not_or] at isOwn earlier ⊢
    omega

theorem TypeDef.Decides.mayDecide (decides : d.Decides repo renderer route path key)
    (isOwn : route.isBase = false) : d.MayDecide repo renderer path key := by
  have leads := decides.leads
  refine ⟨isOwn ▸ leads.reaches, leads.2, ?_⟩
  intro rival reaches named isDefault
  rcases decides with ⟨strong, _⟩ | ⟨none, _⟩
  · exact strong.2.2
  · obtain ⟨other, isOwnToo, leadsToo⟩ := TypeDef.Reaches.iff_route.mp reaches
    exact absurd ⟨⟨leadsToo, named⟩, isOwnToo, isDefault⟩ (none other rival)

end

namespace Surface

variable {repo : Repository} {renderer : Renderer} {d : TypeDef} {s : Surface}

theorem exists_decides_of_mem (acyclic : repo.Acyclic) (consistent : renderer.Consistent repo d)
    (run : ofDefinition repo renderer d = .ok s) {entry : Exposure} (member : entry ∈ s.toList) :
    ∃ route path, d.Decides repo renderer route path entry.1 ∧
      Facet.atEnd? repo renderer route.isBase path = some entry.2 := by
  have stands : s.get? entry.1 = some entry.2 :=
    ((indexed_of_ofDefinition acyclic consistent run).get?_eq_some_iff _ _).mpr member
  rw [ofDefinition_eq_mergeAll acyclic consistent run, get?_mergeAll] at stands
  obtain ⟨found, picked, same⟩ := Option.map_eq_some_iff.mp stands
  obtain ⟨route, path, decides, finds⟩ := exists_decides_of_pick acyclic consistent picked
  exact ⟨route, path, decides, same ▸ (Exposure.atEnd?_eq_some finds).2⟩

/-- The own entries are what the paths that may decide say, apart from the scope. -/
theorem mem_unscoped_ownEntries_iff (acyclic : repo.Acyclic)
    (consistent : renderer.Consistent repo d) (plainly : d.PlainlyMarked repo renderer)
    (run : ofDefinition repo renderer d = .ok s) {entry : Exposure} :
    entry ∈ s.ownEntries.map Exposure.unscoped ↔
      ∃ path key facet, d.MayDecide repo renderer path key ∧
        Facet.atEnd? repo renderer false path = some facet ∧
        Exposure.unscoped (key, facet) = entry := by
  constructor
  · intro member
    obtain ⟨⟨key, facet⟩, listed, rfl⟩ := List.mem_map.mp member
    obtain ⟨present, isOwn⟩ := mem_ownEntries_iff.mp listed
    obtain ⟨route, path, decides, said⟩ := exists_decides_of_mem acyclic consistent run present
    have ownRoute : route.isBase = false := (Facet.base_of_atEnd? said).symm.trans isOwn
    exact ⟨path, key, facet, decides.mayDecide ownRoute, ownRoute ▸ said, rfl⟩
  · rintro ⟨path, key, facet, may, said, rfl⟩
    obtain ⟨route, isOwn, leads⟩ := TypeDef.Reaches.iff_route.mp may.reaches
    have named : key ∈ s.names := mem_names_of_leads acyclic consistent run ⟨leads, may.named⟩
    obtain ⟨⟨_, stored⟩, present, rfl⟩ := List.mem_map.mp named
    obtain ⟨other, rival, decides, saidToo⟩ := exists_decides_of_mem acyclic consistent run present
    have ownRoute := decides.own may.reaches may.named
    have ownEntry : stored.base = false := (Facet.base_of_atEnd? saidToo).trans ownRoute
    rw [ownRoute] at saidToo
    rw [unscoped_eq_of_mayDecide acyclic consistent plainly may (decides.mayDecide ownRoute) said
      saidToo]
    exact List.mem_map_of_mem (mem_ownEntries_iff.mpr ⟨present, ownEntry⟩)

end Surface
end InterfaceSurface
