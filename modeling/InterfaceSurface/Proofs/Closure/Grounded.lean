import InterfaceSurface.Proofs.Closure.Upgrades

/-! # What a listed interface requires is listed

A walk that succeeds has listed every edge it was given (`lists_of_walkLogged`).  A
name is entered after the walk below it, so at every moment of a run all that a
listed interface requires is listed too (`grounded_of_accounted`).

An upgrade walks the part below a listed name once more.  Since all of that is
listed, it adds no name and moves none (`names_of_upgrade`). -/
set_option autoImplicit false
namespace InterfaceSurface
namespace Surface

variable {repo : Repository} {renderer : Renderer} {d : TypeDef} {s : Surface}

/-- The name at the end of the path is listed. -/
def Lists (s : Surface) (repo : Repository) (renderer : Renderer) (path : List Edge) : Prop :=
  ∃ key, keyOf? repo renderer path = some key ∧ key ∈ s.names

/-- Whatever lies right behind a listed end of a path is listed. -/
def Grounded (s : Surface) (repo : Repository) (renderer : Renderer) (d : TypeDef) : Prop :=
  ∀ base path e, path ≠ [] → d.Reaches repo base (path ++ [e]) →
    s.Lists repo renderer path → s.Lists repo renderer (path ++ [e])

theorem lists_concat_iff {path : List Edge} {e : Edge} :
    s.Lists repo renderer (path ++ [e]) ↔
      renderer.type repo e.target (scopeBehind repo renderer path) ∈ s.names := by
  simp [Lists, keyOf?_concat]

theorem Indexed.lists_replay (indexed : s.Indexed) (log : List Write) {path : List Edge}
    (lists : s.Lists repo renderer path) : (s.replay log).Lists repo renderer path := by
  obtain ⟨key, printed, listed⟩ := lists
  exact ⟨key, printed, indexed.mem_names_replay.mpr (.inl listed)⟩

theorem Grounded.behind (grounded : s.Grounded repo renderer d) {base : Bool}
    {path rest : List Edge} (hpath : path ≠ []) (reaches : d.Reaches repo base (path ++ rest))
    (lists : s.Lists repo renderer path) : s.Lists repo renderer (path ++ rest) := by
  induction rest generalizing path with
  | nil => simpa using lists
  | cons e rest ih =>
      have regrouped : path ++ e :: rest = (path ++ [e]) ++ rest := by simp
      rw [regrouped] at reaches ⊢
      have next : d.Reaches repo base (path ++ [e]) := reaches.prefix_of_append (by simp)
      exact ih (by simp) reaches (grounded base path e hpath next lists)

/-! ## Walks list what they are given -/

theorem lists_of_visitLogged {base : Bool} {depth : Nat} {path : List Edge} {e : Edge}
    {result : Surface} (indexed : s.Indexed)
    (done : (visitLogged repo renderer (walkLogged repo renderer depth)
      (.along repo renderer base path) s e).outcome = .ok result) :
    result.Lists repo renderer (path ++ [e]) := by
  rw [lists_concat_iff]
  rcases visitLogged_cases repo renderer base depth path s e
    with ⟨fault, failed⟩ | ⟨_, ⟨settled, passed⟩ | ⟨target, required, _, _, _, visit⟩⟩
  · rw [failed] at done
    cases done
  · rw [passed] at done
    cases done
    obtain ⟨facet, present, _⟩ := (settles_iff _ _).mp settled
    exact (indexed.mem_names_iff _).mpr ⟨facet, present⟩
  · rw [visit] at done
    obtain ⟨under, walked, done⟩ := Logged.bind_outcome_eq_ok_iff.mp done
    cases done
    have tracked := tracked_walkLogged repo renderer base depth (path ++ [e]) required.edges s
    have indexedUnder := tracked.indexed indexed walked
    exact indexedUnder.mem_names_insertOrAssign.mpr (.inl rfl)

theorem lists_of_walkLogged {base : Bool} {depth : Nat} {path edges : List Edge} {result : Surface}
    (indexed : s.Indexed)
    (done : (walkLogged repo renderer depth (.along repo renderer base path) s edges).outcome =
      .ok result) : ∀ e ∈ edges, result.Lists repo renderer (path ++ [e]) := by
  cases depth with
  | zero => cases done
  | succ depth =>
      induction edges generalizing s with
      | nil => simp
      | cons first rest ih =>
          rw [walkLogged, List.foldlM_cons] at done
          obtain ⟨middle, visited, onward⟩ := Logged.bind_outcome_eq_ok_iff.mp done
          have head := lists_of_visitLogged indexed visited
          have tracked := tracked_visitLogged repo renderer fun required _ =>
            tracked_walkLogged repo renderer base depth (path ++ [first]) required.edges s
          have indexedMiddle := tracked.indexed indexed visited
          intro e listed
          rcases List.mem_cons.mp listed with rfl | later
          · have later := tracked_walkLogged repo renderer base (depth + 1) path rest middle
            rw [later.rebuilds result onward]
            exact indexedMiddle.lists_replay _ head
          · exact ih indexedMiddle onward e later

/-! ## Every moment of a run is grounded -/

/-- By the time a visit writes, what lies right behind its path is listed. -/
theorem lists_behind_of_visits {w : Write} {base : Bool} {path : List Edge} {inner : List Write}
    {before : Surface} {e : Edge} (visits : w.Visits repo renderer base path inner before)
    (indexed : w.opened.Indexed) (onward : d.Reaches repo base (path ++ [w.edge] ++ [e])) :
    before.Lists repo renderer (path ++ [w.edge] ++ [e]) := by
  obtain ⟨required, depth, leads, walked⟩ := visits.walked
  obtain ⟨last, isLast, target, leadsToo, follows⟩ := onward.rest_of_append (by simp) (by simp)
  have same : w.edge = last := by simpa using isLast
  rw [← same, leads] at leadsToo
  cases leadsToo
  exact lists_of_walkLogged indexed (by rw [walked]) e follows.head_mem

theorem grounded_of_accounted (consistent : renderer.Consistent repo d) {log : List Write}
    (accounted : Accounted repo renderer (d.Reaches repo) empty log) {front : List Write}
    (within : front <+: log) : (empty.replay front).Grounded repo renderer d := by
  induction front using List.reverseRecOn with
  | nil =>
      rintro base path e _ _ ⟨key, _, listed⟩
      simp [Surface.replay, names, toList, empty] at listed
  | append_singleton front w ih =>
      have before := ih ((List.prefix_append front [w]).trans within)
      have indexed := indexed_empty.replay front
      intro kind rival e hrival onward lists
      obtain ⟨key, printed, listed⟩ := lists
      rw [replay_concat, write, indexed.mem_names_insertOrAssign] at listed
      by_cases earlier : key ∈ (empty.replay front).names
      · rw [replay_append]
        exact indexed.lists_replay [w] (before kind rival e hrival onward ⟨key, printed, earlier⟩)
      · -- The rival path ends at the name just entered, so it goes on as the write's path does.
        have entered : key = w.entry.1 := listed.resolve_right earlier
        subst entered
        obtain ⟨base, path, start, inner, reaches, rfl, opened, visits⟩ := accounted front w within
        obtain ⟨goesOn, alike⟩ := consistent.goes_on_alike hrival reaches onward
          (Exposure.atEnd?_eq_some visits.finds).1 printed
        have indexedOpened : w.opened.Indexed := opened ▸ indexed_empty.replay start
        obtain ⟨name, printedBelow, there⟩ := lists_behind_of_visits visits indexedOpened goesOn
        refine ⟨name, alike.trans printedBelow, ?_⟩
        rw [replay_append, (indexed_empty.replay _).mem_names_replay]
        exact .inl there

/-- The walk of an upgrade, and the write that ends it, leave the names as they were
when the upgrade began. -/
theorem names_of_upgrade (consistent : renderer.Consistent repo d) {log : List Write}
    (accounted : Accounted repo renderer (d.Reaches repo) empty log) {front : List Write}
    {w : Write} (within : front ++ [w] <+: log) (present : w.entry.1 ∈ w.opened.names) :
    (empty.replay (front ++ [w])).names = w.opened.names := by
  obtain ⟨base, path, start, inner, reaches, rfl, opened, visits⟩ := accounted front w within
  have indexed : w.opened.Indexed := opened ▸ indexed_empty.replay start
  have grounded : w.opened.Grounded repo renderer d := by
    rw [opened]
    refine grounded_of_accounted consistent accounted (List.IsPrefix.trans ?_ within)
    exact ⟨inner ++ [w], by simp⟩
  have lists : w.opened.Lists repo renderer (path ++ [w.edge]) :=
    ⟨w.entry.1, (Exposure.atEnd?_eq_some visits.finds).1, present⟩
  have all : ∀ other ∈ inner ++ [w], other.entry.1 ∈ w.opened.names := by
    intro other listed
    rcases List.mem_append.mp listed with below | last
    · obtain ⟨rest, _, onward, printed⟩ := visits.inner_onward reaches other below
      obtain ⟨key, printedToo, there⟩ := grounded.behind (by simp) onward lists
      rwa [Option.some.inj (printed.symm.trans printedToo)]
    · rwa [List.mem_singleton.mp last]
  rw [List.append_assoc, replay_append, ← opened]
  exact indexed.names_replay_of_present all

end Surface
end InterfaceSurface
