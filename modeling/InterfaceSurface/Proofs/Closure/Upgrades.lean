import InterfaceSurface.Proofs.Closure.Accounting
import InterfaceSurface.Proofs.Closure.Exact

/-! # A run writes a name once, and once more to upgrade it

Whether a visit writes is decided before the walk below its edge, and the write
comes after that walk.  Under a consistent renderer, and where nothing requires
itself, the walk leaves the name alone (`Write.Visits.get?_before`), so at the time
of the write the decision still holds: a write is never one that the surface in
place settles (`Effective`).

All else follows from the log alone: no name is written more than twice
(`Effective.count_le_two`), and what was found through a default edge stays
(`Effective.get?_kept`). -/
set_option autoImplicit false
namespace InterfaceSurface

/-- No write is settled by the writes before it. -/
def Effective (log : List Write) : Prop :=
  ∀ front w, front ++ [w] <+: log →
    (Surface.empty.replay front).settles w.entry.1 w.entry.2.defaulted = false

/-- What the writes of a run do: each name is written at most twice, the second time
in its place and only to say that it was found through a default edge; what says so
already is not written again; and a base class writes no name that was present when
its edge was visited. -/
structure Orderly (log : List Write) : Prop where
  twice : ∀ key, (log.map fun w => w.entry.1).count key ≤ 2
  upgrades : ∀ front w old, front ++ [w] <+: log →
    (Surface.empty.replay front).get? w.entry.1 = some old →
    old.defaulted = false ∧ w.entry.2.defaulted = true ∧
      (Surface.empty.replay (front ++ [w])).names = (Surface.empty.replay front).names
  kept : ∀ front later key facet, front <+: later → later <+: log →
    (Surface.empty.replay front).get? key = some facet → facet.defaulted = true →
    (Surface.empty.replay later).get? key = some facet
  bases : ∀ front w, front ++ [w] <+: log → w.approach.base = true →
    ∃ earlier, earlier <+: front ∧ w.opened = Surface.empty.replay earlier ∧
      w.entry.1 ∉ w.opened.names

/-- How often a name has been written, told from the surface. -/
def Surface.writesOf (s : Surface) (key : String) : Nat :=
  match s.get? key with
  | none => 0
  | some facet => if facet.defaulted then 2 else 1

namespace Effective

open Surface

variable {log : List Write}

theorem of_prefix {front : List Write} (effective : Effective log) (within : front <+: log) :
    Effective front :=
  fun earlier w first => effective earlier w (first.trans within)

theorem upgrade (effective : Effective log) {front : List Write} {w : Write} {old : Facet}
    (within : front ++ [w] <+: log) (known : (empty.replay front).get? w.entry.1 = some old) :
    old.defaulted = false ∧ w.entry.2.defaulted = true := by
  have fresh := effective front w within
  simp only [settles, known, Bool.or_eq_false_iff, Bool.not_eq_false'] at fresh
  exact fresh

theorem names_upgrade {front : List Write} {w : Write} {old : Facet}
    (known : (empty.replay front).get? w.entry.1 = some old) :
    (empty.replay (front ++ [w])).names = (empty.replay front).names := by
  have indexed := indexed_empty.replay front
  rw [replay_concat]
  exact indexed.names_insertOrAssign_of_present ((indexed.mem_names_iff _).mpr ⟨old, known⟩) _

theorem count_le_writesOf (effective : Effective log) (key : String) :
    (log.map fun w => w.entry.1).count key ≤ (empty.replay log).writesOf key := by
  induction log using List.reverseRecOn with
  | nil => simp
  | append_singleton log w ih =>
      have before := ih (effective.of_prefix (List.prefix_append log [w]))
      have indexed := indexed_empty.replay log
      rw [List.map_append, List.count_append, replay_concat, writesOf, indexed.get?_write]
      by_cases same : w.entry.1 = key
      · subst same
        simp only [if_true, List.map_cons, List.map_nil, List.count_singleton_self]
        cases known : (empty.replay log).get? w.entry.1 with
        | none =>
            simp only [writesOf, known] at before
            split <;> omega
        | some old =>
            obtain ⟨weak, strong⟩ := effective.upgrade List.prefix_rfl known
            simp only [writesOf, known, weak, Bool.false_eq_true, if_false] at before
            simp only [strong, if_true]
            omega
      · rw [if_neg same]
        simpa [List.count_cons, same, writesOf] using before

theorem count_le_two (effective : Effective log) (key : String) :
    (log.map fun w => w.entry.1).count key ≤ 2 := by
  have bound := effective.count_le_writesOf key
  unfold writesOf at bound
  split at bound
  · omega
  · split at bound <;> omega

theorem get?_kept (effective : Effective log) {front : List Write} {key : String} {facet : Facet}
    (within : front <+: log) (known : (empty.replay front).get? key = some facet)
    (marked : facet.defaulted = true) : (empty.replay log).get? key = some facet := by
  induction log using List.reverseRecOn with
  | nil => rwa [List.prefix_nil.mp within] at known
  | append_singleton log w ih =>
      rcases List.prefix_concat_iff.mp within with rfl | earlier
      · exact known
      · have before := ih (effective.of_prefix (List.prefix_append log [w])) earlier
        rw [replay_concat, (indexed_empty.replay log).get?_write]
        by_cases same : w.entry.1 = key
        · subst same
          have weak := (effective.upgrade List.prefix_rfl before).1
          rw [marked] at weak
          cases weak
        · rwa [if_neg same]

end Effective

section
variable {repo : Repository} {renderer : Renderer} {d : TypeDef}

/-! ## The walk below an edge -/

namespace Write.Visits

variable {w : Write} {base : Bool} {path : List Edge} {inner : List Write} {before : Surface}

theorem tracked_inner (visits : w.Visits repo renderer base path inner before) :
    ∃ required, w.edge.targetDef? repo = some required ∧ before = w.opened.replay inner ∧
      Accounted repo renderer (Onward repo base (path ++ [w.edge]) required.edges) w.opened
        inner := by
  obtain ⟨required, depth, leads, walked⟩ := visits.walked
  have tracked := Surface.tracked_walkLogged repo renderer base depth (path ++ [w.edge])
    required.edges w.opened
  rw [walked] at tracked
  exact ⟨required, leads, tracked.rebuilds before rfl, tracked.accounted⟩

/-- The writes of the walk below an edge go to ends of paths that go on from it. -/
theorem inner_onward (visits : w.Visits repo renderer base path inner before)
    (reaches : d.Reaches repo base (path ++ [w.edge])) :
    ∀ other ∈ inner, ∃ rest, rest ≠ [] ∧ d.Reaches repo base (path ++ [w.edge] ++ rest) ∧
      keyOf? repo renderer (path ++ [w.edge] ++ rest) = some other.entry.1 := by
  intro other listed
  obtain ⟨required, leads, _, accounted⟩ := visits.tracked_inner
  obtain ⟨_, behind, _, _, _, ⟨_, rest, follows, whole⟩, _, _, visitsToo⟩ :=
    accounted.of_mem listed
  refine ⟨rest, follows.ne_nil, reaches.extend (by simp) leads follows, ?_⟩
  rw [← whole]
  exact (Exposure.atEnd?_eq_some visitsToo.finds).1

/-- The walk below an edge does not touch the name of the edge. -/
theorem get?_before (visits : w.Visits repo renderer base path inner before)
    (acyclic : repo.Acyclic) (consistent : renderer.Consistent repo d)
    (reaches : d.Reaches repo base (path ++ [w.edge])) (indexed : w.opened.Indexed) :
    before.get? w.entry.1 = w.opened.get? w.entry.1 := by
  obtain ⟨_, _, reached, _⟩ := visits.tracked_inner
  rw [reached]
  apply indexed.get?_replay_of_apart
  intro other listed same
  obtain ⟨rest, hrest, onward, printed⟩ := visits.inner_onward reaches other listed
  refine consistent.keyOf?_ne acyclic reaches.ne_nil hrest onward ?_
  rw [printed, same, (Exposure.atEnd?_eq_some visits.finds).1]

end Write.Visits

namespace Surface

theorem effective_of_accounted (acyclic : repo.Acyclic) (consistent : renderer.Consistent repo d)
    {log : List Write} (accounted : Accounted repo renderer (d.Reaches repo) empty log) :
    Effective log := by
  intro front w within
  obtain ⟨base, path, earlier, inner, reaches, rfl, opened, visits⟩ := accounted front w within
  have indexed : w.opened.Indexed := opened ▸ indexed_empty.replay earlier
  -- The visit decided on what was there when it opened, and this is there still.
  have unsettled := visits.unsettled
  unfold settles at unsettled ⊢
  rwa [visits.get?_before acyclic consistent reaches indexed]

theorem tracked_ofTypeLogged {h : Handle} (known : repo.get? h = some d) :
    (ofTypeLogged repo renderer h).Tracked repo renderer (d.Reaches repo) empty := by
  rw [ofTypeLogged, Repository.get_eq_ok_iff.mpr known, Logged.quietly_ok_bind]
  exact tracked_ofDefinitionLogged d

/-- However a run ends, its writes are orderly, and they are what it returns. -/
theorem writes_ofType_orderly {h : Handle} (known : repo.get? h = some d) (acyclic : repo.Acyclic)
    (consistent : renderer.Consistent repo d) :
    (ofTypeLogged repo renderer h).outcome = ofType repo renderer h ∧
      (∀ s, ofType repo renderer h = .ok s →
        s = empty.replay (ofTypeLogged repo renderer h).writes) ∧
      Orderly (ofTypeLogged repo renderer h).writes := by
  have tracked : (ofTypeLogged repo renderer h).Tracked repo renderer _ empty :=
    tracked_ofTypeLogged known
  have effective := effective_of_accounted acyclic consistent tracked.accounted
  refine ⟨outcome_ofTypeLogged h, ?_, ?_⟩
  · intro s run
    exact tracked.rebuilds s (by rw [outcome_ofTypeLogged, run])
  · constructor
    case twice => exact effective.count_le_two
    case upgrades =>
      intro front w old within present
      obtain ⟨weak, strong⟩ := effective.upgrade within present
      exact ⟨weak, strong, Effective.names_upgrade present⟩
    case kept =>
      intro front later key facet first within present marked
      exact (effective.of_prefix within).get?_kept first present marked
    case bases =>
      intro front w within isBase
      obtain ⟨base, path, earlier, inner, _, rfl, opened, visits⟩ :=
        tracked.accounted front w within
      have fromBase : base = true := visits.base_eq.2.symm.trans isBase
      subst fromBase
      exact ⟨earlier, List.prefix_append earlier inner, opened,
        visits.absent_of_base (opened ▸ indexed_empty.replay earlier)⟩

/-- The gadgets and one more widget, at handle 5, whose last edge leads nowhere. -/
def tornGadgets : Repository := gadgets.insert
  ⟨⟨"Demo", "TornWidget"⟩, .classType, [], some (.named ⟨"Demo", "Base"⟩),
    [.markOverridable (iterableOf (.element .int32)), .markDefault (listOf (.element .int32)),
      ⟨.named ⟨"Demo", "IGone"⟩, []⟩], [], [], []⟩

/-- The default edge of either widget upgrades what its first edge has found.  The torn one does
not get to its base class, and what it has written is orderly all the same. -/
theorem writes_ofType_orderly_of_gadgets :
    (∃ d, gadgets.get? ⟨4⟩ = some d ∧ gadgets.Acyclic ∧ Renderer.display.Consistent gadgets d ∧
      ((ofTypeLogged gadgets .display ⟨4⟩).writes.map fun w => (w.entry.1, w.entry.2.defaulted)) =
        [("Coll.IIterable`1<Int32>", false), ("Coll.IIterable`1<Int32>", true),
          ("Coll.IList`1<Int32>", true), ("Demo.IThing", false)] ∧
      (ofTypeLogged gadgets .display ⟨4⟩).outcome = ofType gadgets .display ⟨4⟩ ∧
      (∀ s, ofType gadgets .display ⟨4⟩ = .ok s →
        s = empty.replay (ofTypeLogged gadgets .display ⟨4⟩).writes) ∧
      Orderly (ofTypeLogged gadgets .display ⟨4⟩).writes) ∧
    ∃ d, tornGadgets.get? ⟨5⟩ = some d ∧ tornGadgets.Acyclic ∧
      Renderer.display.Consistent tornGadgets d ∧
      ofType tornGadgets .display ⟨5⟩ = .error (.unresolved ⟨"Demo", "IGone"⟩) ∧
      (ofTypeLogged tornGadgets .display ⟨5⟩).outcome = ofType tornGadgets .display ⟨5⟩ ∧
      ((ofTypeLogged tornGadgets .display ⟨5⟩).writes.map fun w =>
          (w.entry.1, w.entry.2.defaulted)) =
        [("Coll.IIterable`1<Int32>", false), ("Coll.IIterable`1<Int32>", true),
          ("Coll.IList`1<Int32>", true)] ∧
      Orderly (ofTypeLogged tornGadgets .display ⟨5⟩).writes := by
  constructor
  · obtain ⟨d, known, consistent⟩ := consistent_gadgets
    exact ⟨d, known, acyclic_gadgets, consistent, by decide,
      writes_ofType_orderly known acyclic_gadgets consistent⟩
  · have acyclic : tornGadgets.Acyclic := Repository.acyclic_of_descending (by decide)
    obtain ⟨d, known, consistent⟩ : ∃ d, tornGadgets.get? ⟨5⟩ = some d ∧
        Renderer.display.Consistent tornGadgets d :=
      ⟨_, rfl, Renderer.consistent_of_routes acyclic (by decide)⟩
    obtain ⟨logged, _, orderly⟩ := writes_ofType_orderly known acyclic consistent
    exact ⟨d, known, acyclic, consistent, rfl, logged, by decide, orderly⟩

end Surface
end
end InterfaceSurface
