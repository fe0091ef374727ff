import InterfaceSurface.Proofs.Closure.Counterparts
import InterfaceSurface.Proofs.Closure.Grounded

/-! # The listing of a type

A listing knows references and printed names, and no marks of edges.  It goes
through what a type declares and then through what its base classes declare,
closest first; a name that is listed is passed over, and any other is listed behind
what its target requires.

The surface of a type has the names of the listing, in its order
(`names_ofType_listing`): upgrades neither add nor move a name. -/
set_option autoImplicit false
namespace InterfaceSurface

/-- Lists what a reference leads to; `listRequired` lists what that requires. -/
def listVisit (repo : Repository) (renderer : Renderer)
    (listRequired : Scope → List String → List TypeRef → Except Fault (List String))
    (scope : Scope) (names : List String) (ref : TypeRef) : Except Fault (List String) := do
  let name ← renderer.name repo ref scope
  if name ∈ names then
    return names
  else
    let d ← repo.get (← repo.resolve ref)
    let below ← listRequired (scope.enter repo renderer ref) names (d.edges.map Edge.target)
    return below ++ [name]

/-- Follows references in order, and no more than `depth` of them in a row. -/
def listWalk (repo : Repository) (renderer : Renderer) :
    Nat → Scope → List String → List TypeRef → Except Fault (List String)
  | 0, _, _, _ => .error .interfaceCycle
  | depth + 1, scope, names, refs =>
    refs.foldlM (listVisit repo renderer (listWalk repo renderer depth) scope) names

def listDeclared (repo : Repository) (renderer : Renderer) (names : List String) (d : TypeDef) :
    Except Fault (List String) :=
  listWalk repo renderer (repo.size + 1) .empty names (d.edges.map Edge.target)

/-- The names of what a type and its base classes declare and require. -/
def TypeDef.listing (d : TypeDef) (repo : Repository) (renderer : Renderer) :
    Except Fault (List String) := do
  let own ← listDeclared repo renderer [] d
  (← d.bases repo).foldlM
    (fun names h => do listDeclared repo renderer names (← repo.get h)) own

/-- The definitions agree in everything but the attributes of their edges. -/
def TypeDef.SameButMarks (d other : TypeDef) : Prop :=
  d.SameButEdges other ∧ d.edges.map Edge.target = other.edges.map Edge.target

theorem TypeDef.SameButMarks.seenAlike {d other : TypeDef} (same : d.SameButMarks other) :
    d.SeenAlike Edge.target other :=
  ⟨same.1, fun seen => by rw [same.2]⟩

namespace Surface

variable {repo other : Repository} {renderer : Renderer} {d : TypeDef} {s : Surface}

/-! ## Walks list as the listing does -/

/-- An upgrade leaves the names as its visit found them, and a name that was new when
its visit began is so still when it is entered. -/
def InPlace (s : Surface) (log : List Write) : Prop :=
  ∀ front w, front ++ [w] <+: log →
    (w.entry.1 ∈ w.opened.names → (s.replay (front ++ [w])).names = w.opened.names) ∧
      (w.entry.1 ∉ w.opened.names → w.entry.1 ∉ (s.replay front).names)

theorem InPlace.of_prefix {first log : List Write} (inPlace : InPlace s log)
    (within : first <+: log) : InPlace s first :=
  fun front w early => inPlace front w (early.trans within)

theorem InPlace.of_append {first later : List Write} (inPlace : InPlace s (first ++ later)) :
    InPlace (s.replay first) later := by
  intro front w within
  have whole : (first ++ front) ++ [w] <+: first ++ later := by
    rwa [List.append_assoc, List.prefix_append_right_inj]
  have both := inPlace (first ++ front) w whole
  simpa only [List.append_assoc, replay_append] using both

theorem inPlace_of_accounted (acyclic : repo.Acyclic) (consistent : renderer.Consistent repo d)
    {log : List Write} (accounted : Accounted repo renderer (d.Reaches repo) empty log) :
    InPlace empty log := by
  intro front w within
  refine ⟨names_of_upgrade consistent accounted within, fun absent present => ?_⟩
  obtain ⟨base, path, earlier, inner, reaches, rfl, opened, visits⟩ := accounted front w within
  have indexed : w.opened.Indexed := opened ▸ indexed_empty.replay earlier
  rw [(indexed_empty.replay _).mem_names_iff,
    visits.get?_before acyclic consistent reaches indexed, ← indexed.mem_names_iff] at present
  exact absent present

/-- Successful walks of some depth list as the listing of their references does. -/
def ListsAlike (repo : Repository) (renderer : Renderer) (base : Bool) (depth : Nat) : Prop :=
  ∀ (path edges : List Edge) (s result : Surface), s.Indexed →
    (walkLogged repo renderer depth (.along repo renderer base path) s edges).outcome =
      .ok result →
    InPlace s (walkLogged repo renderer depth (.along repo renderer base path) s edges).writes →
    listWalk repo renderer depth (scopeBehind repo renderer path) s.names
      (edges.map Edge.target) = .ok result.names

theorem listVisit_of_visitLogged {base : Bool} {depth : Nat} {path : List Edge} {e : Edge}
    {result : Surface} (below : ListsAlike repo renderer base depth) (indexed : s.Indexed)
    (done : (visitLogged repo renderer (walkLogged repo renderer depth)
      (.along repo renderer base path) s e).outcome = .ok result)
    (inPlace : InPlace s (visitLogged repo renderer (walkLogged repo renderer depth)
      (.along repo renderer base path) s e).writes) :
    listVisit repo renderer (listWalk repo renderer depth) (scopeBehind repo renderer path) s.names
      e.target = .ok result.names := by
  rcases visitLogged_cases repo renderer base depth path s e
    with ⟨fault, failed⟩ | ⟨printed, ⟨settled, passed⟩ |
      ⟨target, required, resolved, known, _, visit⟩⟩
  · rw [failed] at done
    cases done
  · rw [passed] at done
    cases done
    obtain ⟨facet, present, _⟩ := (settles_iff _ _).mp settled
    have listed := (indexed.mem_names_iff _).mpr ⟨facet, present⟩
    simp [listVisit, printed, listed, bind, Except.bind, pure, Except.pure]
  · rw [visit] at done inPlace
    obtain ⟨under, walked, finished⟩ := Logged.bind_outcome_eq_ok_iff.mp done
    cases finished
    have tracked := tracked_walkLogged repo renderer base depth (path ++ [e]) required.edges s
    have reached := tracked.rebuilds under walked
    have indexedUnder := tracked.indexed indexed walked
    rw [Logged.bind_of_ok walked] at inPlace
    have last := inPlace _ _ List.prefix_rfl
    rw [replay_concat, ← reached] at last
    by_cases listed : renderer.type repo e.target (scopeBehind repo renderer path) ∈ s.names
    · -- The listing passes the edge over, and the upgrade leaves the names as they were.
      have same := last.1 listed
      simp [listVisit, printed, listed, bind, Except.bind, pure, Except.pure, same]
    · have fresh := last.2 listed
      have inner := below (path ++ [e]) required.edges s under indexed walked
        (inPlace.of_prefix (List.prefix_append _ _))
      rw [scopeBehind_concat] at inner
      have names := indexedUnder.names_insertOrAssign_of_absent fresh
      simp [listVisit, printed, listed, bind, Except.bind, pure, Except.pure, resolved,
        Repository.get_eq_ok_iff.mpr known, inner, Surface.write, names]

theorem listWalk_of_walkLogged (base : Bool) (depth : Nat) :
    ListsAlike repo renderer base depth := by
  induction depth with
  | zero =>
      intro path edges s result _ done
      cases done
  | succ depth ih =>
      intro path edges
      induction edges with
      | nil =>
          intro s result _ done _
          cases done
          rfl
      | cons e rest ihRest =>
          intro s result indexed done inPlace
          rw [walkLogged, List.foldlM_cons] at done inPlace
          obtain ⟨middle, visited, onward⟩ := Logged.bind_outcome_eq_ok_iff.mp done
          rw [Logged.bind_of_ok visited] at inPlace
          have tracked := tracked_visitLogged repo renderer fun required _ =>
            tracked_walkLogged repo renderer base depth (path ++ [e]) required.edges s
          have reached := tracked.rebuilds middle visited
          have head := listVisit_of_visitLogged ih indexed visited
            (inPlace.of_prefix (List.prefix_append _ _))
          have tail := ihRest middle result (tracked.indexed indexed visited) onward
            (reached ▸ inPlace.of_append)
          rw [List.map_cons, listWalk, List.foldlM_cons, head]
          exact tail

/-! ## Listing a type -/

theorem listDeclared_of_walkTypeLogged {base : Bool} {result : Surface} (indexed : s.Indexed)
    (done : (walkTypeLogged repo renderer base s d.edges).outcome = .ok result)
    (inPlace : InPlace s (walkTypeLogged repo renderer base s d.edges).writes) :
    listDeclared repo renderer s.names d = .ok result.names :=
  listWalk_of_walkLogged base (repo.size + 1) [] d.edges s result indexed done inPlace

theorem listBases_of_basesLogged {handles : List Handle} {result : Surface} (indexed : s.Indexed)
    (done : (handles.foldlM (addBaseLogged repo renderer) s).outcome = .ok result)
    (inPlace : InPlace s (handles.foldlM (addBaseLogged repo renderer) s).writes) :
    handles.foldlM (fun names h => do listDeclared repo renderer names (← repo.get h)) s.names =
      .ok result.names := by
  induction handles generalizing s with
  | nil =>
      cases done
      rfl
  | cons h rest ih =>
      rw [List.foldlM_cons] at done inPlace
      obtain ⟨middle, added, onward⟩ := Logged.bind_outcome_eq_ok_iff.mp done
      rw [Logged.bind_of_ok added] at inPlace
      obtain ⟨baseDef, got, _⟩ := Logged.bind_outcome_eq_ok_iff.mp added
      rw [Logged.outcome_quietly] at got
      rw [addBaseLogged_eq got] at added inPlace
      have tracked := tracked_walkLogged repo renderer true (repo.size + 1) [] baseDef.edges s
      have reached := tracked.rebuilds middle added
      have head := listDeclared_of_walkTypeLogged indexed added
        (inPlace.of_prefix (List.prefix_append _ _))
      have tail := ih (tracked.indexed indexed added) onward (reached ▸ inPlace.of_append)
      rw [List.foldlM_cons, got]
      exact (congrArg (· >>= _) head).trans tail

theorem listing_of_ofDefinition (acyclic : repo.Acyclic) (consistent : renderer.Consistent repo d)
    (run : ofDefinition repo renderer d = .ok s) : d.listing repo renderer = .ok s.names := by
  have inPlace : InPlace empty (ofDefinitionLogged repo renderer d).writes :=
    inPlace_of_accounted acyclic consistent (tracked_ofDefinitionLogged d).accounted
  rw [← outcome_ofDefinitionLogged] at run
  obtain ⟨checked, hasDefault, run⟩ := Logged.bind_outcome_eq_ok_iff.mp run
  obtain ⟨own, walked, run⟩ := Logged.bind_outcome_eq_ok_iff.mp run
  obtain ⟨handles, climbed, run⟩ := Logged.bind_outcome_eq_ok_iff.mp run
  rw [Logged.outcome_quietly] at hasDefault climbed
  rw [ofDefinitionLogged, hasDefault, Logged.quietly_ok_bind, Logged.bind_of_ok walked, climbed,
    Logged.quietly_ok_bind] at inPlace
  have tracked := tracked_walkLogged repo renderer false (repo.size + 1) [] d.edges empty
  have reached : own = empty.replay (walkTypeLogged repo renderer false empty d.edges).writes :=
    tracked.rebuilds own walked
  have first := listDeclared_of_walkTypeLogged indexed_empty walked
    (inPlace.of_prefix (List.prefix_append _ _))
  have rest := listBases_of_basesLogged (tracked.indexed indexed_empty walked) run
    (reached ▸ inPlace.of_append)
  have noNames : empty.names = [] := rfl
  rw [noNames] at first
  simp only [TypeDef.listing, first, climbed, bind, Except.bind]
  exact rest

/-! ## The listing does not see marks -/

theorem listVisit_eq_of_sameButMarks (alike : repo.Alike TypeDef.SameButMarks other)
    (prints : renderer.PrintsAlike repo other)
    (listRequired : Scope → List String → List TypeRef → Except Fault (List String)) :
    listVisit repo renderer listRequired = listVisit other renderer listRequired := by
  funext scope names ref
  unfold listVisit
  rw [Renderer.name_eq_of_alike prints alike, Scope.enter_eq_of_printsAlike prints,
    alike.resolve_eq]
  refine congrArg _ (funext fun name => ?_)
  split
  · rfl
  · refine congrArg _ (funext fun target => ?_)
    refine alike.get_bind_congr target fun a b _ same => ?_
    rw [same.2]

theorem listWalk_eq_of_sameButMarks (alike : repo.Alike TypeDef.SameButMarks other)
    (prints : renderer.PrintsAlike repo other) (depth : Nat) :
    listWalk repo renderer depth = listWalk other renderer depth := by
  induction depth with
  | zero => rfl
  | succ depth ih =>
      funext scope names refs
      rw [listWalk, listWalk, ih, listVisit_eq_of_sameButMarks alike prints]

theorem listDeclared_eq_of_sameButMarks (alike : repo.Alike TypeDef.SameButMarks other)
    (prints : renderer.PrintsAlike repo other) {e : TypeDef} (same : d.SameButMarks e)
    (names : List String) :
    listDeclared repo renderer names d = listDeclared other renderer names e := by
  rw [listDeclared, listDeclared, alike.size_eq, listWalk_eq_of_sameButMarks alike prints, same.2]

theorem listing_eq_of_sameButMarks (alike : repo.Alike TypeDef.SameButMarks other)
    (prints : renderer.PrintsAlike repo other) {e : TypeDef} (same : d.SameButMarks e) :
    d.listing repo renderer = e.listing other renderer := by
  unfold TypeDef.listing
  rw [listDeclared_eq_of_sameButMarks alike prints same,
    alike.bases_eq (fun _ _ both => both.1.base_eq) same.1.base_eq]
  refine congrArg _ (funext fun own => congrArg _ (funext fun handles => ?_))
  congr 1
  funext names h
  exact alike.get_bind_congr h fun a b _ both =>
    listDeclared_eq_of_sameButMarks alike prints both names

/-- The names of a surface are those of the listing.  An upgrade leaves them as they
were, and what is marked default or overridable does not change them. -/
theorem names_ofType_listing {h : Handle} (known : repo.get? h = some d) (acyclic : repo.Acyclic)
    (consistent : renderer.Consistent repo d) (run : ofType repo renderer h = .ok s) :
    d.listing repo renderer = .ok s.names ∧
      (∀ front w, front ++ [w] <+: (ofTypeLogged repo renderer h).writes →
        w.entry.1 ∈ w.opened.names → (empty.replay (front ++ [w])).names = w.opened.names) ∧
      ∀ other t, repo.Alike TypeDef.SameButMarks other → renderer.PrintsAlike repo other →
        ofType other renderer h = .ok t → t.names = s.names := by
  have listed : d.listing repo renderer = .ok s.names :=
    listing_of_ofDefinition acyclic consistent (by rwa [← ofType_eq_ofDefinition known])
  refine ⟨listed, ?_, ?_⟩
  · intro front w within present
    exact names_of_upgrade consistent (tracked_ofTypeLogged known).accounted within present
  · intro other t alike prints runToo
    obtain ⟨e, knownToo, _, same⟩ := alike.get? known
    have seen : repo.Alike (TypeDef.SeenAlike Edge.target) other :=
      alike.mono fun _ _ both => both.seenAlike
    have leads : ∀ a : Edge, id (Edge.target a) = a.target := fun _ => rfl
    have listedToo : e.listing other renderer = .ok t.names :=
      listing_of_ofDefinition (acyclic.counterpart leads seen)
        (consistent.counterpart leads seen same.seenAlike prints)
        (by rwa [← ofType_eq_ofDefinition knownToo])
    rw [← listing_eq_of_sameButMarks alike prints same, listed] at listedToo
    exact (Except.ok.inj listedToo).symm

theorem names_ofType_listing_of_gadgets :
    ∃ d s, gadgets.get? ⟨4⟩ = some d ∧ gadgets.Acyclic ∧ Renderer.display.Consistent gadgets d ∧
      ofType gadgets .display ⟨4⟩ = .ok s ∧
      s.names = ["Coll.IIterable`1<Int32>", "Coll.IList`1<Int32>", "Demo.IThing"] ∧
      d.listing gadgets .display = .ok s.names ∧
      (∀ front w, front ++ [w] <+: (ofTypeLogged gadgets .display ⟨4⟩).writes →
        w.entry.1 ∈ w.opened.names → (empty.replay (front ++ [w])).names = w.opened.names) ∧
      ∀ other t, gadgets.Alike TypeDef.SameButMarks other →
        Renderer.display.PrintsAlike gadgets other → ofType other .display ⟨4⟩ = .ok t →
        t.names = s.names := by
  obtain ⟨d, known, consistent⟩ := consistent_gadgets
  have run : ∃ s, ofType gadgets .display ⟨4⟩ = .ok s ∧
      s.names = ["Coll.IIterable`1<Int32>", "Coll.IList`1<Int32>", "Demo.IThing"] :=
    ⟨_, rfl, by decide⟩
  obtain ⟨s, run, names⟩ := run
  exact ⟨d, s, known, acyclic_gadgets, consistent, run, names,
    names_ofType_listing known acyclic_gadgets consistent run⟩

end Surface
end InterfaceSurface
