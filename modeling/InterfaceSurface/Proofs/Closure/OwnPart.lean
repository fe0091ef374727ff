import InterfaceSurface.Proofs.Closure.Accounting
import InterfaceSurface.Proofs.Closure.Exact
import InterfaceSurface.Proofs.Metadata.Alike

/-! # The own part of a surface

What a type brings itself stands in front of what its base classes bring, and is
what it would be without them (`ofType_own_first`).  Base classes only append: an
edge of theirs that is not passed over found its name absent when its visit began,
so nothing of the own part is ever written again. -/
set_option autoImplicit false
namespace InterfaceSurface

namespace Repository

/-- The repository with the base class of one definition taken away. -/
def withoutBase (repo : Repository) (h : Handle) : Repository where
  types := repo.types.modify h.index fun d => { d with base := none }
  index := repo.index
  index_agrees := by
    intro name
    rw [repo.index_agrees]
    refine congrArg _ (lastNamed?_congr name ?_)
    apply List.ext_getElem?
    intro place
    simp only [List.getElem?_map, Array.getElem?_toList, Array.getElem?_modify]
    by_cases same : h.index = place <;> simp [same, Function.comp_def]

theorem alike_withoutBase (repo : Repository) (h : Handle) :
    repo.Alike TypeDef.SameButBase (repo.withoutBase h) := by
  refine List.forall₂_iff_get.mpr ⟨by simp [Repository.toList, Repository.withoutBase], ?_⟩
  intro place inside insideToo
  simp only [Repository.toList, Repository.withoutBase, List.get_eq_getElem, Array.getElem_toList,
    Array.getElem_modify]
  split
  · exact ⟨rfl, rfl⟩
  · exact ⟨rfl, rfl⟩

theorem get?_withoutBase {repo : Repository} {h : Handle} {d : TypeDef}
    (known : repo.get? h = some d) :
    (repo.withoutBase h).get? h = some { d with base := none } := by
  have stands : repo.types[h.index]? = some d := known
  simp [Repository.get?, Repository.withoutBase, Array.getElem?_modify, stands]

end Repository

namespace Surface

variable {repo other : Repository} {renderer : Renderer} {d : TypeDef} {s : Surface}

/-! ## Walks do not see base classes -/

theorem visit_eq_of_sameButBase (alike : repo.Alike TypeDef.SameButBase other)
    (prints : renderer.PrintsAlike repo other)
    (walkRequired : Approach → Surface → List Edge → Except Fault Surface) :
    visit repo renderer walkRequired = visit other renderer walkRequired := by
  funext approach s e
  unfold visit
  rw [Renderer.name_eq_of_alike prints alike, Approach.follow_eq_of_printsAlike prints,
    alike.resolve_eq]
  refine congrArg _ (funext fun name => ?_)
  dsimp only
  split
  · rfl
  · refine congrArg _ (funext fun target => ?_)
    refine alike.get_bind_congr target fun a b _ same => ?_
    rw [same]
    rfl

theorem walk_eq_of_sameButBase (alike : repo.Alike TypeDef.SameButBase other)
    (prints : renderer.PrintsAlike repo other) (depth : Nat) :
    walk repo renderer depth = walk other renderer depth := by
  induction depth with
  | zero => rfl
  | succ depth ih =>
      funext approach s edges
      rw [walk, walk, ih, visit_eq_of_sameButBase alike prints]

theorem walkType_eq_of_sameButBase (alike : repo.Alike TypeDef.SameButBase other)
    (prints : renderer.PrintsAlike repo other) :
    walkType repo renderer = walkType other renderer := by
  funext base s edges
  rw [walkType, walkType, alike.size_eq, walk_eq_of_sameButBase alike prints]

/-! ## The two parts -/

theorem own_of_walkType {own : Surface}
    (run : walkType repo renderer false empty d.edges = .ok own) :
    own.Indexed ∧ ∀ entry ∈ own.toList, entry.2.base = false := by
  have tracked : (walkTypeLogged repo renderer false empty d.edges).Tracked repo renderer _ empty :=
    tracked_walkTypeLogged empty fun e listed => reaches_own listed
  have rebuilt := tracked.rebuilds own (by rw [walkTypeLogged, outcome_walkLogged]; exact run)
  rw [rebuilt]
  refine ⟨indexed_empty.replay _, fun entry member => ?_⟩
  obtain ⟨_, _, ⟨isOwn, _⟩, finds⟩ := tracked.accounted.exists_path_of_mem member
  rw [Facet.base_of_atEnd? (Exposure.atEnd?_eq_some finds).2, isOwn]

/-- Base classes only append. -/
theorem appended_of_bases {handles : List Handle} (climbed : d.bases repo = .ok handles)
    (indexed : s.Indexed) {result : Surface}
    (run : handles.foldlM (addBase repo renderer) s = .ok result) :
    ∃ back, result.toList = s.toList ++ back ∧
      ∀ entry ∈ back, entry.2.base = true ∧ entry.2.defaulted = false := by
  have tracked : (handles.foldlM (addBaseLogged repo renderer) s).Tracked repo renderer _ s :=
    tracked_bases fun h member baseDef known e listed => reaches_base climbed member known listed
  have rebuilt := tracked.rebuilds result
    (by simpa only [Logged.outcome_foldlM, outcome_addBaseLogged] using run)
  have apart : ∀ w ∈ (handles.foldlM (addBaseLogged repo renderer) s).writes,
      w.entry.1 ∉ s.names := by
    intro w listed present
    obtain ⟨base, _, earlier, _, _, ⟨isBase, _⟩, _, opened, visits⟩ :=
      tracked.accounted.of_mem listed
    subst isBase
    -- What was there at the start was there when the visit opened.
    refine visits.absent_of_base (opened ▸ indexed.replay earlier) ?_
    rw [opened, indexed.mem_names_replay]
    exact .inl present
  obtain ⟨back, split, written⟩ := indexed.toList_replay_of_apart apart
  refine ⟨back, by rw [rebuilt, split], fun entry member => ?_⟩
  obtain ⟨w, listed, rfl⟩ := written entry member
  obtain ⟨base, _, _, _, _, ⟨isBase, _⟩, _, _, visits⟩ := tracked.accounted.of_mem listed
  rw [visits.base_eq.1, visits.defaulted_eq, isBase]
  exact ⟨rfl, rfl⟩

theorem ofDefinition_of_noBase (noBase : d.base = none) :
    ofDefinition repo renderer d =
      (do d.checkDefault; walkType repo renderer false .empty d.edges) := by
  have none : d.bases repo = .ok [] := by
    simp [TypeDef.bases, Repository.climb, TypeDef.baseClass?, noBase]
    rfl
  unfold ofDefinition
  refine congrArg _ (funext fun _ => ?_)
  rw [none]
  cases walkType repo renderer false .empty d.edges <;> rfl

/-- The surface of a type starts with what it would be without base classes, and
goes on with what they bring. -/
theorem ofType_own_first {h : Handle} (prints : renderer.PrintsAlike repo (repo.withoutBase h))
    (run : ofType repo renderer h = .ok s) :
    ∃ own back, ofType (repo.withoutBase h) renderer h = .ok own ∧
      s.toList = own.toList ++ back ∧ (∀ entry ∈ own.toList, entry.2.base = false) ∧
      ∀ entry ∈ back, entry.2.base = true ∧ entry.2.defaulted = false := by
  obtain ⟨d, got, run⟩ := bind_eq_ok_iff.mp run
  obtain ⟨checked, hasDefault, run⟩ := bind_eq_ok_iff.mp run
  obtain ⟨own, walked, run⟩ := bind_eq_ok_iff.mp run
  obtain ⟨handles, climbed, run⟩ := bind_eq_ok_iff.mp run
  obtain ⟨indexed, isOwn⟩ := own_of_walkType walked
  obtain ⟨back, split, fromBases⟩ := appended_of_bases climbed indexed run
  refine ⟨own, back, ?_, split, isOwn, fromBases⟩
  have known := Repository.get?_withoutBase (Repository.get_eq_ok_iff.mp got)
  have alone : ({ d with base := none } : TypeDef).checkDefault = .ok checked := hasDefault
  rw [ofType, Repository.get_eq_ok_iff.mpr known]
  refine (ofDefinition_of_noBase rfl).trans ?_
  rw [alone, ← walkType_eq_of_sameButBase (repo.alike_withoutBase h) prints]
  exact walked

/-- Two classes, at handles 2 and 3, that are each other's base class.  What the second
one declares requires what the first one declares. -/
def ring : Repository := .ofList [
  .interfaceNamed "Demo" "IThing" [],
  .interfaceNamed "Demo" "IGadget" [⟨.named ⟨"Demo", "IThing"⟩, []⟩],
  ⟨⟨"Demo", "First"⟩, .classType, [], some (.named ⟨"Demo", "Second"⟩),
    [.markDefault ⟨.named ⟨"Demo", "IThing"⟩, []⟩], [], [], []⟩,
  ⟨⟨"Demo", "Second"⟩, .classType, [], some (.named ⟨"Demo", "First"⟩),
    [.markDefault ⟨.named ⟨"Demo", "IGadget"⟩, []⟩], [], [], []⟩]

theorem ofType_own_first_of_ring :
    ∃ s own back, ofType ring .display ⟨2⟩ = .ok s ∧
      Renderer.display.PrintsAlike ring (ring.withoutBase ⟨2⟩) ∧
      s.names = ["Demo.IThing", "Demo.IGadget"] ∧
      ofType (ring.withoutBase ⟨2⟩) .display ⟨2⟩ = .ok own ∧ s.toList = own.toList ++ back ∧
      (∀ entry ∈ own.toList, entry.2.base = false) ∧
      ∀ entry ∈ back, entry.2.base = true ∧ entry.2.defaulted = false := by
  have run : ∃ s, ofType ring .display ⟨2⟩ = .ok s ∧ s.names = ["Demo.IThing", "Demo.IGadget"] :=
    ⟨_, rfl, by decide⟩
  obtain ⟨s, run, names⟩ := run
  have prints := Renderer.display_printsAlike (ring.alike_withoutBase ⟨2⟩)
  obtain ⟨own, back, alone, split, isOwn, fromBases⟩ := ofType_own_first prints run
  exact ⟨s, own, back, run, prints, names, alone, split, isOwn, fromBases⟩

end Surface
end InterfaceSurface
