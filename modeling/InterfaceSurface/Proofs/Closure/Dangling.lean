import InterfaceSurface.Proofs.Closure.Exact
import InterfaceSurface.Proofs.Metadata.BaseChain

/-! # Where a resolution stops

The surface of a type rests on the references along its base chain and on the last
reference of each of its paths.  If all of these resolve the type has a surface, and
if one does not it has none: an edge that is passed over leads to the definition that
an earlier edge of the same name was resolved to, so passing it over hides nothing.

A walk stops at a reference it could not resolve (`exists_dangling_of_walk`).  It never
runs out of depth, because a path whose end is there is no longer than the repository. -/
set_option autoImplicit false
namespace InterfaceSurface

/-- A class that declares interfaces and marks none of them default. -/
def TypeDef.LacksDefault (d : TypeDef) : Prop :=
  d.kind = .classType ∧ d.edges ≠ [] ∧ ∀ e ∈ d.edges, e.isDefault = false

/-- What has to resolve for the type to have a surface.  A reference that names the root of all
classes is no base reference: `baseRef?` leaves it out, and it need not resolve. -/
inductive TypeDef.RestsOn (d : TypeDef) (repo : Repository) : TypeRef → Prop
  | base {base : TypeDef} {ref : TypeRef} (above : d.OnBaseChain repo base)
      (follows : base.baseRef? repo = some ref) : RestsOn d repo ref
  | path {base : Bool} {path : List Edge} {last : Edge} (reaches : d.Reaches repo base path)
      (isLast : path.getLast? = some last) : RestsOn d repo last.target

theorem TypeDef.checkDefault_cases (d : TypeDef) :
    (d.LacksDefault ∧ d.checkDefault = .error (.missingDefaultInterface d.name)) ∨
      (¬ d.LacksDefault ∧ d.checkDefault = .ok ()) := by
  unfold LacksDefault checkDefault defaultInterface?
  by_cases isClass : d.kind = .classType
  · rw [if_pos isClass]
    cases found : d.edges.find? Edge.isDefault with
    | some e =>
        have marked := List.find?_some found
        have listed := List.mem_of_find?_eq_some found
        exact .inr ⟨fun lacks => by simp [lacks.2.2 e listed] at marked, rfl⟩
    | none =>
        have unmarked := List.find?_eq_none.mp found
        cases edges : d.edges with
        | nil => exact .inr ⟨by simp, rfl⟩
        | cons e rest =>
            refine .inl ⟨⟨isClass, by simp, ?_⟩, rfl⟩
            simpa [edges] using unmarked
  · rw [if_neg isClass]
    exact .inr ⟨fun lacks => isClass lacks.1, rfl⟩

namespace Surface

variable {repo : Repository} {renderer : Renderer} {d : TypeDef} {s : Surface} {fault : Fault}

/-! ## Walks that stop -/

/-- All that can make a visit fail. -/
theorem visit_eq_error
    {walkRequired : Approach → Surface → List Edge → Except Fault Surface} {approach : Approach}
    {e : Edge} (visited : visit repo renderer walkRequired approach s e = .error fault) :
    renderer.name repo e.target approach.scope = .error fault ∨
      repo.resolve e.target = .error fault ∨
      ∃ target, repo.resolve e.target = .ok target ∧
        (repo.get target = .error fault ∨
          ∃ required, repo.get? target = some required ∧
            walkRequired (approach.follow repo renderer e) s required.edges = .error fault) := by
  rcases bind_eq_error_iff.mp visited with unprinted | ⟨name, _, visited⟩
  · exact .inl unprinted
  · dsimp only at visited
    split at visited
    · cases visited
    · rcases bind_eq_error_iff.mp visited with unresolved | ⟨target, resolved, visited⟩
      · exact .inr (.inl unresolved)
      · refine .inr (.inr ⟨target, resolved, ?_⟩)
        rcases bind_eq_error_iff.mp visited with unissued | ⟨required, got, visited⟩
        · exact .inl unissued
        · rcases bind_eq_error_iff.mp visited with below | ⟨under, _, visited⟩
          · exact .inr ⟨required, Repository.get_eq_ok_iff.mp got, below⟩
          · cases visited

theorem exists_dangling_of_walk (closed : repo.Closed) (acyclic : repo.Acyclic) (base : Bool)
    (depth : Nat) (path : List Edge) {edges : List Edge}
    (short : path.length ≤ repo.size) (enough : repo.size < depth + path.length)
    (issued : ∀ e ∈ edges, ∀ h ∈ e.target.handles, repo.Issued h)
    (reaches : ∀ e ∈ edges, d.Reaches repo base (path ++ [e]))
    (failed : walk repo renderer depth (.along repo renderer base path) s edges = .error fault) :
    ∃ ref, d.RestsOn repo ref ∧ repo.resolve ref = .error fault := by
  induction depth generalizing path edges s with
  | zero => omega
  | succ depth ih =>
      obtain ⟨e, listed, middle, visited⟩ := exists_of_foldlM_eq_error failed
      have here := reaches e listed
      have issuedHere := issued e listed
      rcases visit_eq_error visited
        with unprinted | unresolved | ⟨target, resolved, unissued | ⟨required, known, below⟩⟩
      · cases (Renderer.name_of_issued renderer _ issuedHere).symm.trans unprinted
      · exact ⟨e.target, .path here List.getLast?_concat, unresolved⟩
      · have inside := Repository.issued_of_resolve
          (fun h root => issuedHere h (TypeRef.rootHandles_subset _ root)) resolved
        obtain ⟨required, known⟩ := Repository.issued_iff.mp inside
        cases (Repository.get_eq_ok_iff.mpr known).symm.trans unissued
      · have leads : e.targetDef? repo = some required :=
          (e.targetDef?_eq_some_iff repo required).mpr ⟨target, resolved, known⟩
        have bound := here.length_le_of_target acyclic List.getLast?_concat leads
        rw [← Approach.along_concat] at below
        refine ih (path ++ [e]) bound ?_ ?_ ?_ below
        · simp only [List.length_append, List.length_singleton]
          omega
        · exact fun next declared h inside =>
            closed.issued known h (TypeDef.mem_handles_of_edge declared inside)
        · exact fun next declared => here.extend List.getLast?_concat leads (.stop declared)

theorem exists_dangling_of_walkType (closed : repo.Closed) (acyclic : repo.Acyclic) {base : Bool}
    {edges : List Edge} (issued : ∀ e ∈ edges, ∀ h ∈ e.target.handles, repo.Issued h)
    (reaches : ∀ e ∈ edges, d.Reaches repo base [e])
    (failed : walkType repo renderer base s edges = .error fault) :
    ∃ ref, d.RestsOn repo ref ∧ repo.resolve ref = .error fault :=
  exists_dangling_of_walk closed acyclic base (repo.size + 1) [] (by simp) (by simp) issued reaches
    failed

/-! ## The surface of a type -/

/-- A type that marks its default interface has a surface, unless something it rests
on cannot be resolved. -/
theorem exists_dangling_of_ofDefinition (closed : repo.Closed) (acyclic : repo.Acyclic)
    (issued : ∀ h ∈ d.handles, repo.Issued h) (hasDefault : d.checkDefault = .ok ())
    (failed : ofDefinition repo renderer d = .error fault) :
    ∃ ref, d.RestsOn repo ref ∧ repo.resolve ref = .error fault := by
  rcases bind_eq_error_iff.mp failed with unmarked | ⟨_, _, failed⟩
  · cases hasDefault.symm.trans unmarked
  · rcases bind_eq_error_iff.mp failed with ownFails | ⟨own, _, failed⟩
    · exact exists_dangling_of_walkType closed acyclic
        (fun e listed h inside => issued h (TypeDef.mem_handles_of_edge listed inside))
        (fun e listed => reaches_own listed) ownFails
    · rcases bind_eq_error_iff.mp failed with unclimbed | ⟨handles, climbed, failed⟩
      · obtain ⟨base, ref, above, follows, unresolved⟩ :=
          exists_dangling_of_bases closed issued unclimbed
        exact ⟨ref, .base above follows, unresolved⟩
      · obtain ⟨h, listed, middle, baseFails⟩ := exists_of_foldlM_eq_error failed
        obtain ⟨base, known⟩ := exists_of_mem_bases closed issued climbed listed
        rw [addBase, Repository.get_eq_ok_iff.mpr known] at baseFails
        exact exists_dangling_of_walkType closed acyclic
          (fun e declared inner inside =>
            closed.issued known inner (TypeDef.mem_handles_of_edge declared inside))
          (fun e declared => reaches_base climbed listed known declared) baseFails

/-- The last reference of a path of a type that has a surface resolves, also if the
walk passed it over. -/
theorem resolves_of_ofDefinition (acyclic : repo.Acyclic) (consistent : renderer.Consistent repo d)
    (run : ofDefinition repo renderer d = .ok s) {base : Bool} {path : List Edge} {last : Edge}
    (reaches : d.Reaches repo base path) (isLast : path.getLast? = some last) :
    ∃ target, repo.resolve last.target = .ok target := by
  obtain ⟨key, printed, settled⟩ := settled_of_ofDefinition acyclic consistent run reaches
  obtain ⟨facet, known, _⟩ := (settles_iff _ _).mp settled
  have listed : key ∈ s.names :=
    ((indexed_of_ofDefinition acyclic consistent run).mem_names_iff key).mpr ⟨facet, known⟩
  -- The name was entered at the end of some path, and that end was resolved.
  rw [ofDefinition_eq_mergeAll acyclic consistent run, mem_names_mergeAll] at listed
  obtain ⟨found, member, rfl⟩ := List.mem_map.mp listed
  obtain ⟨⟨route, rival⟩, walked, finds⟩ := List.mem_filterMap.mp member
  have rivals : d.Reaches repo route.isBase rival :=
    TypeDef.Reaches.iff_route.mpr ⟨route, rfl, (mem_routes_iff acyclic d route rival).mp walked⟩
  obtain ⟨named, said⟩ := Exposure.atEnd?_eq_some finds
  obtain ⟨finish, target, _, isFinish, resolved, _, _⟩ := Facet.exists_of_atEnd? said
  obtain ⟨alike, _⟩ :=
    consistent.of_reaches reaches rivals printed named last isLast finish isFinish
  rw [resolved] at alike
  cases ends : repo.resolve last.target with
  | ok other => exact ⟨other, rfl⟩
  | error cause => simp [ends, Except.toOption] at alike

/-- A fault of a type that marks its default interface names something that is missing. -/
theorem exists_absent_of_ofDefinition (closed : repo.Closed) (acyclic : repo.Acyclic)
    (issued : ∀ h ∈ d.handles, repo.Issued h) (hasDefault : d.checkDefault = .ok ())
    (failed : ofDefinition repo renderer d = .error fault) :
    ∃ ref name, d.RestsOn repo ref ∧ repo.nameOf ref = .ok name ∧ repo.find? name = none ∧
      repo.resolve ref = .error fault ∧ fault = .unresolved name := by
  obtain ⟨ref, rests, unresolved⟩ :=
    exists_dangling_of_ofDefinition closed acyclic issued hasDefault failed
  obtain ⟨name, named, absent, same⟩ := Repository.exists_absent_of_resolve unresolved
  exact ⟨ref, name, rests, named, absent, unresolved, same⟩

theorem exists_ofDefinition_iff (closed : repo.Closed) (acyclic : repo.Acyclic)
    (consistent : renderer.Consistent repo d) (issued : ∀ h ∈ d.handles, repo.Issued h)
    (hasDefault : d.checkDefault = .ok ()) :
    (∃ s, ofDefinition repo renderer d = .ok s) ↔
      ∀ ref, d.RestsOn repo ref → ∃ target, repo.resolve ref = .ok target := by
  constructor
  · rintro ⟨s, run⟩ ref rests
    cases rests with
    | path reaches isLast => exact resolves_of_ofDefinition acyclic consistent run reaches isLast
    | base above follows =>
        obtain ⟨_, _, climbed, _⟩ := walked_of_ofDefinition acyclic consistent run
        obtain ⟨target, _, resolved⟩ := (mem_of_bases closed issued climbed above).2 ref follows
        exact ⟨target, resolved⟩
  · intro resolves
    cases run : ofDefinition repo renderer d with
    | ok s => exact ⟨s, rfl⟩
    | error fault =>
        obtain ⟨ref, _, rests, _, _, unresolved, _⟩ :=
          exists_absent_of_ofDefinition closed acyclic issued hasDefault run
        obtain ⟨target, resolved⟩ := resolves ref rests
        cases resolved.symm.trans unresolved

/-- A resolution fails exactly when the type marks no default interface or something it
rests on is missing, and the fault names what is missing. -/
theorem ofType_stops_exactly {h : Handle} (known : repo.get? h = some d) (closed : repo.Closed)
    (acyclic : repo.Acyclic) (consistent : renderer.Consistent repo d) :
    (ofType repo renderer h = .error (.missingDefaultInterface d.name) ↔ d.LacksDefault) ∧
      (¬ d.LacksDefault →
        ((∃ s, ofType repo renderer h = .ok s) ↔
            ∀ ref, d.RestsOn repo ref → ∃ target, repo.resolve ref = .ok target) ∧
          ((¬ ∃ s, ofType repo renderer h = .ok s) →
            ∃ ref name, d.RestsOn repo ref ∧ repo.nameOf ref = .ok name ∧
              repo.find? name = none ∧ ofType repo renderer h = .error (.unresolved name))) := by
  rw [ofType_eq_ofDefinition known]
  have issued := closed.issued known
  rcases d.checkDefault_cases with ⟨lacks, unmarked⟩ | ⟨marks, hasDefault⟩
  · refine ⟨⟨fun _ => lacks, fun _ => ?_⟩, fun marks => absurd lacks marks⟩
    rw [ofDefinition, unmarked]
    rfl
  · refine ⟨⟨fun failed => ?_, fun lacks => absurd lacks marks⟩, fun _ =>
      ⟨exists_ofDefinition_iff closed acyclic consistent issued hasDefault, ?_⟩⟩
    · obtain ⟨_, _, _, _, _, _, same⟩ :=
        exists_absent_of_ofDefinition closed acyclic issued hasDefault failed
      cases same
    · intro noSurface
      cases run : ofDefinition repo renderer d with
      | ok s => exact absurd ⟨s, run⟩ noSurface
      | error fault =>
          obtain ⟨ref, name, rests, named, absent, _, rfl⟩ :=
            exists_absent_of_ofDefinition closed acyclic issued hasDefault run
          exact ⟨ref, name, rests, named, absent, rfl⟩

/-- The panel, at handle 3, declares a thing twice and a gadget that requires it; things
require something that is not there.  Its base is the root of all classes, which is not
there either and is not missed. -/
def tornPanel : Repository := .ofList [
  .interfaceNamed "Demo" "IThing" [⟨.named ⟨"Demo", "IGone"⟩, []⟩],
  .interfaceNamed "Demo" "IGadget" [⟨.handle ⟨0⟩, []⟩],
  .interfaceNamed "Demo" "IShape" [],
  ⟨⟨"Demo", "Panel"⟩, .classType, [], some (.named TypeName.systemObject),
    [⟨.named ⟨"Demo", "IShape"⟩, []⟩, .markDefault ⟨.named ⟨"Demo", "IGadget"⟩, []⟩,
      ⟨.named ⟨"Demo", "IThing"⟩, []⟩], [], [], []⟩]

theorem ofType_stops_exactly_of_tornPanel :
    ∃ d, tornPanel.get? ⟨3⟩ = some d ∧ tornPanel.Closed ∧ tornPanel.Acyclic ∧
      Renderer.display.Consistent tornPanel d ∧
      ofType tornPanel .display ⟨3⟩ = .error (.unresolved ⟨"Demo", "IGone"⟩) ∧
      (ofType tornPanel .display ⟨3⟩ = .error (.missingDefaultInterface d.name) ↔
        d.LacksDefault) ∧
      (¬ d.LacksDefault →
        ((∃ s, ofType tornPanel .display ⟨3⟩ = .ok s) ↔
            ∀ ref, d.RestsOn tornPanel ref → ∃ target, tornPanel.resolve ref = .ok target) ∧
          ((¬ ∃ s, ofType tornPanel .display ⟨3⟩ = .ok s) →
            ∃ ref name, d.RestsOn tornPanel ref ∧ tornPanel.nameOf ref = .ok name ∧
              tornPanel.find? name = none ∧
              ofType tornPanel .display ⟨3⟩ = .error (.unresolved name))) := by
  have acyclic : tornPanel.Acyclic := Repository.acyclic_of_descending (by decide)
  have closed : tornPanel.Closed := by decide
  have consistent : ∃ d, tornPanel.get? ⟨3⟩ = some d ∧ Renderer.display.Consistent tornPanel d :=
    ⟨_, rfl, Renderer.consistent_of_routes acyclic (by decide)⟩
  obtain ⟨d, known, consistent⟩ := consistent
  exact ⟨d, known, closed, acyclic, consistent, rfl,
    ofType_stops_exactly known closed acyclic consistent⟩

end Surface
end InterfaceSurface
