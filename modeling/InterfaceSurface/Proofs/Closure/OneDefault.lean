import InterfaceSurface.Proofs.Closure.Accounting

/-! # A single default edge

If a type marks one default edge, and nothing that its own edges reach marks another, its
own edges may come in any order and reach the target of that edge in any other way.  What
is found before the default edge says of no name that it was reached through a default
edge, so the visit of the default edge is not passed over; it writes the name after the
walk below it, whatever that walk has written; and from there on the name is settled
(`Accounted.get?_kept`).  So the entry is there in the end (`get?_of_default`). -/
set_option autoImplicit false
namespace InterfaceSurface

/-- The type marks one edge default, and what its own edges reach marks none. -/
structure TypeDef.MarksOneDefault (d : TypeDef) (repo : Repository) : Prop where
  single : d.edges.countP Edge.isDefault = 1
  none_behind : ∀ path, d.Reaches repo false path → ∀ last ∈ path.getLast?,
    ∀ target ∈ last.targetDef? repo, target.edges.any Edge.isDefault = false

/-- An own path is one of the routes that start at the type itself. -/
theorem exists_route_of_own {repo : Repository} {d : TypeDef} (acyclic : repo.Acyclic)
    {path : List Edge} (reaches : d.Reaches repo false path) :
    ∃ p ∈ d.routes repo, p.1.isBase = false ∧ p.2 = path := by
  obtain ⟨route, isOwn, leads⟩ := TypeDef.Reaches.iff_route.mp reaches
  exact ⟨(route, path), (mem_routes_iff acyclic d route path).mpr leads, isOwn, rfl⟩

theorem TypeDef.marksOneDefault_of_routes {repo : Repository} {d : TypeDef} (acyclic : repo.Acyclic)
    (single : d.edges.countP Edge.isDefault = 1)
    (checked : ∀ p ∈ d.routes repo, p.1.isBase = false → ∀ last ∈ p.2.getLast?,
      ∀ target ∈ last.targetDef? repo, target.edges.any Edge.isDefault = false) :
    d.MarksOneDefault repo := by
  refine ⟨single, fun path reaches => ?_⟩
  obtain ⟨p, member, isOwn, rfl⟩ := exists_route_of_own acyclic reaches
  exact checked p member isOwn

namespace TypeDef.MarksOneDefault

variable {repo : Repository} {d : TypeDef}

/-- Only the first edge of an own path can be a default one. -/
theorem first_of_default (marks : d.MarksOneDefault repo) {front back : List Edge} {e : Edge}
    (reaches : d.Reaches repo false (front ++ e :: back)) (isDefault : e.isDefault = true) :
    front = [] ∧ e ∈ d.edges := by
  cases front with
  | nil => exact ⟨rfl, (TypeDef.Reaches.own_iff.mp reaches).head_mem⟩
  | cons first front =>
      -- The edge is declared by what the edges before it lead to.
      obtain ⟨last, isLast, target, known, follows⟩ := reaches.rest_of_append (by simp) (by simp)
      have before := reaches.prefix_of_append (by simp)
      have none := marks.none_behind _ before last isLast target known
      rw [List.any_eq_false] at none
      exact absurd isDefault (none e follows.head_mem)

theorem default_unique (marks : d.MarksOneDefault repo) {a b : Edge} (aListed : a ∈ d.edges)
    (bListed : b ∈ d.edges) (aDefault : a.isDefault = true) (bDefault : b.isDefault = true) :
    a = b := by
  have single := marks.single
  rw [List.countP_eq_length_filter, List.length_eq_one_iff] at single
  obtain ⟨only, defaults⟩ := single
  have isOnly : ∀ e ∈ d.edges, e.isDefault = true → e = only := by
    intro e listed isDefault
    have member : e ∈ d.edges.filter Edge.isDefault := List.mem_filter.mpr ⟨listed, isDefault⟩
    rwa [defaults, List.mem_singleton] at member
  rw [isOnly a aListed aDefault, isOnly b bListed bDefault]

/-- None of the edges in front of the default one is a default as well. -/
theorem not_default_of_front (marks : d.MarksOneDefault repo) {front back : List Edge} {e : Edge}
    (split : d.edges = front ++ e :: back) (isDefault : e.isDefault = true) :
    ∀ other ∈ front, other.isDefault = false := by
  have single := marks.single
  rw [split, List.countP_append, List.countP_cons_of_pos isDefault] at single
  have none : front.countP Edge.isDefault = 0 := by omega
  simpa using List.countP_eq_zero.mp none

/-- No path along edges that are no defaults goes through a default edge. -/
theorem not_default_along (marks : d.MarksOneDefault repo) {edges path : List Edge}
    (own : ∀ e ∈ edges, e ∈ d.edges ∧ e.isDefault = false) (follows : PathFrom repo edges path) :
    path.any Edge.isDefault = false := by
  apply Bool.eq_false_of_not_eq_true
  intro through
  obtain ⟨e, listed, isDefault⟩ := List.any_eq_true.mp through
  obtain ⟨front, back, rfl⟩ := List.append_of_mem listed
  have reaches : d.Reaches repo false (front ++ e :: back) :=
    TypeDef.Reaches.own_iff.mpr (follows.mono fun other member => (own other member).1)
  obtain ⟨rfl, _⟩ := marks.first_of_default reaches isDefault
  cases (own e follows.head_mem).2.symm.trans isDefault

end TypeDef.MarksOneDefault

section
variable {repo : Repository} {renderer : Renderer} {leads : Bool → List Edge → Prop} {s : Surface}

/-- Whatever the renderer prints, what was found through a default edge stays as it is. -/
theorem Accounted.get?_kept {log : List Write} (accounted : Accounted repo renderer leads s log)
    (indexed : s.Indexed) {key : String} {facet : Facet} (known : s.get? key = some facet)
    (marked : facet.defaulted = true) : (s.replay log).get? key = some facet := by
  -- A visit decides on what was there when it opened, so all earlier moments are needed.
  have moments : ∀ front, front <+: log → ∀ earlier, earlier <+: front →
      (s.replay earlier).get? key = some facet := by
    intro front
    induction front using List.reverseRecOn with
    | nil =>
        intro _ earlier first
        rw [List.prefix_nil.mp first]
        exact known
    | append_singleton front w ih =>
        intro within earlier first
        have before := ih ((List.prefix_append front [w]).trans within)
        rcases List.prefix_concat_iff.mp first with rfl | first
        · rw [Surface.replay_concat, (indexed.replay front).get?_write]
          by_cases same : w.entry.1 = key
          · obtain ⟨base, path, start, inner, _, rfl, opened, visits⟩ := accounted front w within
            have settled : w.opened.settles w.entry.1 w.entry.2.defaulted = true := by
              rw [opened, same]
              exact (Surface.settles_iff _ _).mpr
                ⟨facet, before start (List.prefix_append start inner), by simp [marked]⟩
            cases visits.unsettled.symm.trans settled
          · rw [if_neg same]
            exact before front List.prefix_rfl
        · exact before earlier first
  exact moments log List.prefix_rfl log List.prefix_rfl

end

namespace Surface

variable {repo : Repository} {renderer : Renderer} {d : TypeDef} {s result : Surface}

/-! ## Parts of a walk -/

theorem exists_log_of_walk (base : Bool) (path : List Edge) {depth : Nat} {edges : List Edge}
    (run : walk repo renderer depth (.along repo renderer base path) s edges = .ok result) :
    ∃ log, result = s.replay log ∧
      Accounted repo renderer (Onward repo base path edges) s log := by
  have tracked := tracked_walkLogged repo renderer base depth path edges s
  exact ⟨_, tracked.rebuilds result (by rw [outcome_walkLogged, run]), tracked.accounted⟩

theorem walk_split {depth : Nat} {approach : Approach} {front back : List Edge} {e : Edge}
    (run : walk repo renderer (depth + 1) approach s (front ++ e :: back) = .ok result) :
    ∃ before after, walk repo renderer (depth + 1) approach s front = .ok before ∧
      visit repo renderer (walk repo renderer depth) approach before e = .ok after ∧
      walk repo renderer (depth + 1) approach after back = .ok result := by
  rw [walk, List.foldlM_append] at run
  obtain ⟨before, first, run⟩ := bind_eq_ok_iff.mp run
  obtain ⟨after, visited, rest⟩ := foldlM_cons_eq_ok_iff.mp run
  exact ⟨before, after, first, visited, rest⟩

/-! ## The walk from the type itself -/

/-- Nothing that is found before the default edge says that it was reached through one. -/
theorem not_defaulted_of_front (marks : d.MarksOneDefault repo) {depth : Nat} {front : List Edge}
    (own : ∀ e ∈ front, e ∈ d.edges ∧ e.isDefault = false)
    (run : walk repo renderer depth (.start false) empty front = .ok s) :
    s.Indexed ∧ ∀ key, s.settles key true = false := by
  obtain ⟨log, rfl, accounted⟩ := exists_log_of_walk false [] run
  refine ⟨indexed_empty.replay log, fun key => Bool.eq_false_of_not_eq_true fun settled => ?_⟩
  obtain ⟨facet, known, marked⟩ := (settles_iff _ _).mp settled
  have member := ((indexed_empty.replay log).get?_eq_some_iff key facet).mp known
  obtain ⟨_, _, ⟨_, rest, follows, whole⟩, finds⟩ := accounted.exists_path_of_mem member
  have weak : facet.defaulted = false := by
    rw [Facet.defaulted_of_atEnd? (Exposure.atEnd?_eq_some finds).2, whole, List.nil_append,
      marks.not_default_along own follows, Bool.and_false]
  simp [weak] at marked

/-- The default edge is followed, and its entry is there when all own edges are walked. -/
theorem get?_of_default (marks : d.MarksOneDefault repo) {e : Edge} (declared : e ∈ d.edges)
    (isDefault : e.isDefault = true)
    (run : walkType repo renderer false empty d.edges = .ok s) :
    ∃ facet, s.get? (renderer.type repo e.target .empty) = some facet ∧
      facet.isDefault = true ∧ facet.defaulted = true := by
  obtain ⟨front, back, split⟩ := List.append_of_mem declared
  rw [walkType, split] at run
  obtain ⟨before, after, first, visited, rest⟩ := walk_split run
  have own : ∀ other ∈ front, other ∈ d.edges ∧ other.isDefault = false := fun other listed =>
    ⟨split ▸ List.mem_append_left _ listed, marks.not_default_of_front split isDefault other listed⟩
  obtain ⟨indexed, unsettled⟩ := not_defaulted_of_front marks own first
  have through : ((Approach.start false).follow repo renderer e).defaulted = true := by
    simp [Approach.follow, Approach.start, isDefault]
  rcases visit_eq_ok visited with ⟨passed, _⟩ | ⟨_, target, required, below, _, _, walked, rfl⟩
  · rw [through, unsettled] at passed
    cases passed
  · -- The entry is written over whatever the walk below has left under its name.
    obtain ⟨inner, rfl, _⟩ := exists_log_of_walk false [e] walked
    have indexedBelow := indexed.replay inner
    have entered := indexedBelow.get?_insertOrAssign (renderer.type repo e.target .empty)
      (renderer.type repo e.target .empty)
      (.ofEdge e ((Approach.start false).follow repo renderer e) target required)
    rw [if_pos rfl] at entered
    obtain ⟨log, rfl, accounted⟩ := exists_log_of_walk false [] rest
    exact ⟨_, accounted.get?_kept (indexedBelow.insertOrAssign _ _) entered through, isDefault,
      through⟩

end Surface
end InterfaceSurface
