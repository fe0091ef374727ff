import InterfaceSurface.Proofs.Closure.Exact

/-! # The route that decides about a name

Many routes may lead to one name; the surface reports one of them.  It is the
first own route through an edge marked default, if there is one, and the first
route of all otherwise (`TypeDef.Decides`), and the entry of the name is what that
route says about its end.

The findings are merged in the order of a full walk, where a route stands behind
those that go on from it.  For routes to one name this order and the order of
routes agree, since none of them goes on from another. -/
set_option autoImplicit false
namespace InterfaceSurface

namespace TypeDef

/-- The route starts at the type itself and picks an edge marked default. -/
def LeadsByDefault (d : TypeDef) (repo : Repository) (renderer : Renderer) (route : Route)
    (path : List Edge) (key : String) : Prop :=
  d.Leads repo renderer route path key ∧ route.isBase = false ∧ path.any Edge.isDefault = true

/-- The first own route through a default edge or, if there is none, the first
route. -/
def Decides (d : TypeDef) (repo : Repository) (renderer : Renderer) (route : Route)
    (path : List Edge) (key : String) : Prop :=
  (d.LeadsByDefault repo renderer route path key ∧
    ∀ other rival, d.LeadsByDefault repo renderer other rival key → ¬ other.Before route) ∨
  ((∀ other rival, ¬ d.LeadsByDefault repo renderer other rival key) ∧
    d.Leads repo renderer route path key ∧
    ∀ other rival, d.Leads repo renderer other rival key → ¬ other.Before route)

end TypeDef

/-! ## The order of routes -/

theorem Route.eq_of_not_before {a b : Route} (ab : ¬ a.Before b) (ba : ¬ b.Before a) : a = b := by
  obtain ⟨origin, positions⟩ := a
  obtain ⟨other, rivals⟩ := b
  simp only [Route.Before, not_or, not_and, Nat.not_lt] at ab ba
  have same : origin = other := Nat.le_antisymm ba.1 ab.1
  subst same
  rcases lt_trichotomy positions rivals with less | equal | less
  · exact absurd less (ab.2 rfl)
  · rw [equal]
  · exact absurd less (ba.2 rfl)

theorem edgesAlong?_append {repo : Repository} {front back : List Nat}
    {declared path whole : List Edge}
    (along : edgesAlong? repo declared front = some path)
    (onward : edgesAlong? repo declared (front ++ back) = some whole) :
    ∃ rest, whole = path ++ rest := by
  induction front generalizing declared path whole with
  | nil => simp [edgesAlong?] at along
  | cons position front ih =>
      cases front with
      | nil =>
          obtain ⟨e, stands, rfl⟩ := Option.map_eq_some_iff.mp along
          cases back with
          | nil => exact ⟨[], by simpa [edgesAlong?, stands] using onward.symm⟩
          | cons next back =>
              obtain ⟨other, d, rest, standsToo, _, _, rfl⟩ :=
                edgesAlong?_cons_cons_eq_some_iff.mp onward
              cases Option.some.inj (stands.symm.trans standsToo)
              exact ⟨rest, rfl⟩
      | cons next front =>
          obtain ⟨e, d, tail, stands, target, alongTail, rfl⟩ :=
            edgesAlong?_cons_cons_eq_some_iff.mp along
          obtain ⟨other, dToo, long, standsToo, targetToo, onwardTail, rfl⟩ :=
            edgesAlong?_cons_cons_eq_some_iff.mp onward
          cases Option.some.inj (stands.symm.trans standsToo)
          cases Option.some.inj (target.symm.trans targetToo)
          obtain ⟨rest, split⟩ := ih alongTail onwardTail
          exact ⟨rest, by simp [split]⟩

section
variable {repo : Repository} {renderer : Renderer} {d : TypeDef} {route other : Route}
  {path rival : List Edge} {key : String}

theorem TypeDef.Leads.reaches (leads : d.Leads repo renderer route path key) :
    d.Reaches repo route.isBase path :=
  TypeDef.Reaches.iff_route.mpr ⟨route, rfl, leads.1⟩

/-- Of two routes to one name, the one that a full walk takes first comes first. -/
theorem not_before_of_walkedBefore (acyclic : repo.Acyclic)
    (consistent : renderer.Consistent repo d)
    (leads : d.Leads repo renderer route path key) (rivals : d.Leads repo renderer other rival key)
    (walked : route.origin < other.origin ∨
      (route.origin = other.origin ∧ WalkedBefore route.positions other.positions)) :
    ¬ other.Before route := by
  rcases walked with greater | ⟨same, ⟨back, goesOn⟩ | earlier⟩
  · rintro (less | ⟨same, _⟩)
    · omega
    · omega
  · -- The route would go on from its rival, and come back to the same name.
    rintro (less | ⟨_, less⟩)
    · omega
    obtain ⟨declared, starts, along⟩ := Option.bind_eq_some_iff.mp leads.1
    obtain ⟨declaredToo, startsToo, alongToo⟩ := Option.bind_eq_some_iff.mp rivals.1
    rw [same] at starts
    cases Option.some.inj (starts.symm.trans startsToo)
    rw [← goesOn] at along
    obtain ⟨rest, split⟩ := edgesAlong?_append alongToo along
    have hback : back ≠ [] := by
      rintro rfl
      rw [← goesOn, List.append_nil] at less
      exact lt_irrefl _ less
    have hrest : rest ≠ [] := by
      rintro rfl
      have long := edgesAlong?_length along
      have short := edgesAlong?_length alongToo
      rw [split] at long
      simp only [List.length_append, List.append_nil] at long
      exact hback (List.length_eq_zero_iff.mp (by omega))
    have reaches := leads.reaches
    rw [split] at reaches
    refine consistent.keyOf?_ne acyclic rivals.reaches.ne_nil hrest reaches ?_
    rw [← split, leads.2, rivals.2]
  · rintro (less | ⟨_, less⟩)
    · omega
    · exact lt_asymm less earlier

/-! ## The finding that counts -/

/-- If one route to a name finds something, so do all. -/
theorem exists_finding_of_leads (consistent : renderer.Consistent repo d) {found : Exposure}
    (leads : d.Leads repo renderer route path key)
    (finds : Exposure.atEnd? repo renderer route.isBase path = some found)
    (rivals : d.Leads repo renderer other rival key) :
    ∃ facet, Exposure.atEnd? repo renderer other.isBase rival = some (key, facet) ∧
      facet.defaulted = (!other.isBase && rival.any Edge.isDefault) := by
  have present : (Facet.atEnd? repo renderer route.isBase path).isSome = true := by
    rw [(Exposure.atEnd?_eq_some finds).2]
    rfl
  obtain ⟨last, isLast, target⟩ := Facet.atEnd?_isSome_iff.mp present
  obtain ⟨finish, isFinish⟩ := rivals.reaches.exists_last
  have alike := (consistent.of_reaches leads.reaches rivals.reaches leads.2 rivals.2 last isLast
    finish (by simp [isFinish])).1
  rw [Edge.targetDef?_congr alike] at target
  have presentToo : (Facet.atEnd? repo renderer other.isBase rival).isSome = true :=
    Facet.atEnd?_isSome_iff.mpr ⟨finish, isFinish, target⟩
  obtain ⟨facet, said⟩ := Option.isSome_iff_exists.mp presentToo
  exact ⟨facet, by simp [Exposure.atEnd?, rivals.2, said], Facet.defaulted_of_atEnd? said⟩

/-- The first finding of some kind comes from the first route that finds one. -/
theorem findings_find? {kind : Exposure → Bool} {found : Exposure}
    (first : (d.findings repo renderer).find? kind = some found) :
    ∃ route path, (route, path) ∈ d.routes repo ∧
      Exposure.atEnd? repo renderer route.isBase path = some found ∧ kind found = true ∧
      ∀ other rival found', (other, rival) ∈ d.routes repo →
        Exposure.atEnd? repo renderer other.isBase rival = some found' → kind found' = true →
        route.origin < other.origin ∨
          (route.origin = other.origin ∧ WalkedBefore route.positions other.positions) := by
  have isKind := List.find?_some first
  rw [TypeDef.findings, List.find?_filterMap] at first
  obtain ⟨⟨route, path⟩, firstRoute, finds⟩ := Option.bind_eq_some_iff.mp first
  obtain ⟨_, early, late, split, unlike⟩ := List.find?_eq_some_iff_append.mp firstRoute
  have ordered := routes_pairwise repo d
  rw [split] at ordered
  have after := (List.pairwise_cons.mp (List.pairwise_append.mp ordered).2.1).1
  refine ⟨route, path, by simp [split], finds, isKind, ?_⟩
  intro other rival found' listed findsToo isKindToo
  rw [split] at listed
  rcases List.mem_append.mp listed with inEarly | listed
  · have excluded := unlike _ inEarly
    simp [findsToo, isKindToo] at excluded
  · rcases List.mem_cons.mp listed with same | inLate
    · cases same
      exact .inr ⟨rfl, .inl List.prefix_rfl⟩
    · exact after _ inLate

end

namespace Surface

variable {repo : Repository} {renderer : Renderer} {d : TypeDef} {s : Surface}

/-- The finding that counts for a name comes from the route that decides. -/
theorem exists_decides_of_pick (acyclic : repo.Acyclic) (consistent : renderer.Consistent repo d)
    {key : String} {found : Exposure} (picked : pick key (d.findings repo renderer) = some found) :
    ∃ route path, d.Decides repo renderer route path key ∧
      Exposure.atEnd? repo renderer route.isBase path = some found := by
  rcases Option.or_eq_some_iff.mp picked with strong | ⟨noStrong, weak⟩
  · obtain ⟨route, path, listed, finds, isKind, first⟩ := findings_find? strong
    simp only [Bool.and_eq_true, beq_iff_eq] at isKind
    obtain ⟨rfl, marked⟩ := isKind
    obtain ⟨named, said⟩ := Exposure.atEnd?_eq_some finds
    have leads : d.Leads repo renderer route path found.1 :=
      ⟨(mem_routes_iff acyclic d route path).mp listed, named⟩
    rw [Facet.defaulted_of_atEnd? said] at marked
    simp only [Bool.and_eq_true, Bool.not_eq_true'] at marked
    refine ⟨route, path, .inl ⟨⟨leads, marked⟩, ?_⟩, finds⟩
    rintro other rival ⟨rivals, isOwn, isDefault⟩
    obtain ⟨facet, findsToo, defaulted⟩ := exists_finding_of_leads consistent leads finds rivals
    refine not_before_of_walkedBefore acyclic consistent leads rivals ?_
    refine first other rival _ ((mem_routes_iff acyclic d other rival).mpr rivals.1) findsToo ?_
    simp [defaulted, isOwn, isDefault]
  · obtain ⟨route, path, listed, finds, isKind, first⟩ := findings_find? weak
    rw [beq_iff_eq] at isKind
    subst isKind
    have leads : d.Leads repo renderer route path found.1 :=
      ⟨(mem_routes_iff acyclic d route path).mp listed, (Exposure.atEnd?_eq_some finds).1⟩
    refine ⟨route, path, .inr ⟨?_, leads, ?_⟩, finds⟩
    · rintro other rival ⟨rivals, isOwn, isDefault⟩
      obtain ⟨facet, findsToo, defaulted⟩ := exists_finding_of_leads consistent leads finds rivals
      have member : (found.1, facet) ∈ d.findings repo renderer :=
        List.mem_filterMap.mpr
          ⟨(other, rival), (mem_routes_iff acyclic d other rival).mpr rivals.1, findsToo⟩
      have excluded := List.find?_eq_none.mp noStrong _ member
      simp [defaulted, isOwn, isDefault] at excluded
    · intro other rival rivals
      obtain ⟨facet, findsToo, _⟩ := exists_finding_of_leads consistent leads finds rivals
      refine not_before_of_walkedBefore acyclic consistent leads rivals ?_
      refine first other rival _ ((mem_routes_iff acyclic d other rival).mpr rivals.1) findsToo ?_
      simp

end Surface

theorem TypeDef.Decides.leads {repo : Repository} {renderer : Renderer} {d : TypeDef}
    {route : Route} {path : List Edge} {key : String}
    (decides : d.Decides repo renderer route path key) : d.Leads repo renderer route path key := by
  rcases decides with ⟨strong, _⟩ | ⟨_, weak, _⟩
  · exact strong.1
  · exact weak

theorem TypeDef.Decides.unique {repo : Repository} {renderer : Renderer} {d : TypeDef}
    {route other : Route} {path rival : List Edge} {key : String}
    (decides : d.Decides repo renderer route path key)
    (decidesToo : d.Decides repo renderer other rival key) : other = route ∧ rival = path := by
  have same : other = route := by
    rcases decides with ⟨strong, first⟩ | ⟨none, weak, first⟩
    · rcases decidesToo with ⟨strongToo, firstToo⟩ | ⟨none, _, _⟩
      · exact Route.eq_of_not_before (first other rival strongToo) (firstToo route path strong)
      · exact absurd strong (none route path)
    · rcases decidesToo with ⟨strong, _⟩ | ⟨_, weakToo, firstToo⟩
      · exact absurd strong (none other rival)
      · exact Route.eq_of_not_before (first other rival weakToo) (firstToo route path weak)
  subst same
  exact ⟨rfl, Option.some.inj (decidesToo.leads.1.symm.trans decides.leads.1)⟩

namespace Surface

variable {repo : Repository} {renderer : Renderer} {d : TypeDef} {s : Surface}

/-- What the surface says about a name is what the one route that decides about it
says. -/
theorem facet_ofType_decided {h : Handle} (known : repo.get? h = some d) (acyclic : repo.Acyclic)
    (consistent : renderer.Consistent repo d) (run : ofType repo renderer h = .ok s) :
    ∀ key facet, (key, facet) ∈ s.toList →
      s.get? key = some facet ∧
      ∃ route path, d.Decides repo renderer route path key ∧
        Facet.atEnd? repo renderer route.isBase path = some facet ∧
        ∀ other rival, d.Decides repo renderer other rival key → other = route ∧ rival = path := by
  rw [ofType_eq_ofDefinition known] at run
  intro key facet member
  have entry : s.get? key = some facet :=
    ((indexed_of_ofDefinition acyclic consistent run).get?_eq_some_iff key facet).mpr member
  refine ⟨entry, ?_⟩
  rw [ofDefinition_eq_mergeAll acyclic consistent run, get?_mergeAll] at entry
  obtain ⟨found, picked, rfl⟩ := Option.map_eq_some_iff.mp entry
  obtain ⟨route, path, decides, finds⟩ := exists_decides_of_pick acyclic consistent picked
  exact ⟨route, path, decides, (Exposure.atEnd?_eq_some finds).2,
    fun other rival decidesToo => decides.unique decidesToo⟩

/-- The widget's list brings iteration again, by default, so that it is no longer
overridable. -/
theorem facet_ofType_decided_of_gadgets :
    ∃ d s facet, gadgets.get? ⟨4⟩ = some d ∧ gadgets.Acyclic ∧
      Renderer.display.Consistent gadgets d ∧ ofType gadgets .display ⟨4⟩ = .ok s ∧
      ("Coll.IIterable`1<Int32>", facet) ∈ s.toList ∧
      (facet.defaulted = true ∧ facet.overridable = false) ∧
      s.get? "Coll.IIterable`1<Int32>" = some facet ∧
      ∃ route path, d.Decides gadgets .display route path "Coll.IIterable`1<Int32>" ∧
        Facet.atEnd? gadgets .display route.isBase path = some facet ∧
        ∀ other rival, d.Decides gadgets .display other rival "Coll.IIterable`1<Int32>" →
          other = route ∧ rival = path := by
  obtain ⟨d, known, consistent⟩ := consistent_gadgets
  have run : ∃ s facet, ofType gadgets .display ⟨4⟩ = .ok s ∧
      s.get? "Coll.IIterable`1<Int32>" = some facet ∧
      ("Coll.IIterable`1<Int32>", facet) ∈ s.toList ∧
      facet.defaulted = true ∧ facet.overridable = false :=
    ⟨_, _, rfl, rfl, by decide, by decide, by decide⟩
  obtain ⟨s, facet, run, _, member, flags⟩ := run
  exact ⟨d, s, facet, known, acyclic_gadgets, consistent, run, member, flags,
    facet_ofType_decided known acyclic_gadgets consistent run _ _ member⟩

end Surface
end InterfaceSurface
