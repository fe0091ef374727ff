import InterfaceSurface.Proofs.Closure.Walk

/-! # The surface of a type is a merge

`TypeDef.findings` lists what all routes of a type find, in the order of a walk
that passes nothing over.  The surface of the type is what merging them gives
(`ofDefinition_eq_mergeAll`). -/
set_option autoImplicit false
namespace InterfaceSurface

def TypeDef.findings (d : TypeDef) (repo : Repository) (renderer : Renderer) : List Exposure :=
  (d.routes repo).filterMap fun entry =>
    Exposure.atEnd? repo renderer entry.1.isBase entry.2

namespace Surface

variable {repo : Repository} {renderer : Renderer} {d : TypeDef}

def findingsOfBases (repo : Repository) (renderer : Renderer) (handles : List Handle) :
    List Exposure :=
  (handles.filterMap fun h => (repo.get? h).map TypeDef.edges).flatMap
    (findingsBelow repo renderer true [] (repo.size + 1))

theorem origins_of_bases {handles : List Handle} (climbed : d.bases repo = .ok handles) :
    d.origins repo = d.edges :: handles.filterMap fun h => (repo.get? h).map TypeDef.edges := by
  simp [TypeDef.origins, climbed]

theorem findings_eq (handles : List Handle) (climbed : d.bases repo = .ok handles) :
    d.findings repo renderer =
      findingsBelow repo renderer false [] (repo.size + 1) d.edges ++
        findingsOfBases repo renderer handles := by
  have ofOrigin : ∀ origin : List Edge × Nat,
      ((trails repo (repo.size + 1) origin.1).map fun trail =>
          ((⟨origin.2, trail.1⟩, trail.2) : Route × List Edge)).filterMap
        (fun entry => Exposure.atEnd? repo renderer entry.1.isBase entry.2) =
      findingsBelow repo renderer (origin.2 != 0) [] (repo.size + 1) origin.1 := by
    intro origin
    simp [findingsBelow, List.filterMap_map, Route.isBase]
  have ofBases : ∀ (rest : List (List Edge)) (first : Nat),
      ((rest.zipIdx (first + 1)).flatMap fun origin =>
        findingsBelow repo renderer (origin.2 != 0) [] (repo.size + 1) origin.1) =
      rest.flatMap (findingsBelow repo renderer true [] (repo.size + 1)) := by
    intro rest
    induction rest with
    | nil => intro first; rfl
    | cons declared rest ih => intro first; simp [ih]
  have byOrigin : d.findings repo renderer = (d.origins repo).zipIdx.flatMap fun origin =>
      findingsBelow repo renderer (origin.2 != 0) [] (repo.size + 1) origin.1 := by
    simp only [TypeDef.findings, TypeDef.routes, List.filterMap_flatMap, ofOrigin]
  rw [byOrigin, origins_of_bases climbed, List.zipIdx_cons, List.flatMap_cons, ofBases]
  rfl

theorem reaches_own {e : Edge} (listed : e ∈ d.edges) : d.Reaches repo false [e] := by
  refine ⟨0, d.edges, ?_, rfl, .stop listed⟩
  unfold TypeDef.origins
  split <;> rfl

theorem reaches_base {handles : List Handle} {h : Handle} {baseDef : TypeDef} {e : Edge}
    (climbed : d.bases repo = .ok handles) (member : h ∈ handles)
    (known : repo.get? h = some baseDef) (listed : e ∈ baseDef.edges) :
    d.Reaches repo true [e] := by
  have present : baseDef.edges ∈ handles.filterMap fun h => (repo.get? h).map TypeDef.edges :=
    List.mem_filterMap.mpr ⟨h, member, by simp [known]⟩
  obtain ⟨place, stands⟩ := List.mem_iff_getElem?.mp present
  refine ⟨place + 1, baseDef.edges, ?_, by simp, .stop listed⟩
  rw [origins_of_bases climbed]
  exact stands

def edgesOfBases (repo : Repository) (handles : List Handle) : List Edge :=
  (handles.filterMap fun h => (repo.get? h).map TypeDef.edges).flatten

theorem walked_of_bases (acyclic : repo.Acyclic) (consistent : renderer.Consistent repo d)
    {handles : List Handle} {s result : Surface} (indexed : s.Indexed)
    (saturated : s.Saturated repo renderer d true)
    (reaches : ∀ h ∈ handles, ∀ baseDef, repo.get? h = some baseDef → ∀ e ∈ baseDef.edges,
      d.Reaches repo true [e])
    (run : handles.foldlM (addBase repo renderer) s = .ok result) :
    Walked repo renderer d true [] (edgesOfBases repo handles)
      (findingsOfBases repo renderer handles) s result := by
  induction handles generalizing s with
  | nil =>
      cases run
      exact ⟨rfl, saturated, by simp [edgesOfBases]⟩
  | cons h rest ih =>
      obtain ⟨middle, added, onward⟩ := foldlM_cons_eq_ok_iff.mp run
      obtain ⟨baseDef, got, walkRun⟩ := bind_eq_ok_iff.mp added
      have known := Repository.get_eq_ok_iff.mp got
      have head := walked_of_walk acyclic consistent true (repo.size + 1) [] indexed
        saturated (reaches h (List.mem_cons_self ..) baseDef known) walkRun
      have tail := ih (head.indexed indexed) head.saturated
        (fun other member => reaches other (List.mem_cons_of_mem _ member)) onward
      simpa [edgesOfBases, findingsOfBases, known] using head.append indexed tail

/-- The two parts of a successful run: the type's own edges, then those of its
base classes. -/
theorem walked_of_ofDefinition (acyclic : repo.Acyclic) (consistent : renderer.Consistent repo d)
    {s : Surface} (run : ofDefinition repo renderer d = .ok s) :
    ∃ handles own, d.bases repo = .ok handles ∧
      Walked repo renderer d false [] d.edges
        (findingsBelow repo renderer false [] (repo.size + 1) d.edges) empty own ∧
      Walked repo renderer d true [] (edgesOfBases repo handles)
        (findingsOfBases repo renderer handles) own s := by
  obtain ⟨_, _, run⟩ := bind_eq_ok_iff.mp run
  obtain ⟨own, walkRun, run⟩ := bind_eq_ok_iff.mp run
  obtain ⟨handles, climbed, run⟩ := bind_eq_ok_iff.mp run
  have walked := walked_of_walk acyclic consistent false (repo.size + 1) [] indexed_empty
    (saturated_empty false) (fun e listed => reaches_own listed) walkRun
  exact ⟨handles, own, climbed, walked,
    walked_of_bases acyclic consistent (walked.indexed indexed_empty) walked.saturated.base
      (fun h member baseDef known e listed => reaches_base climbed member known listed) run⟩

/-- The surface of a type is what merging the findings of all its routes gives. -/
theorem ofDefinition_eq_mergeAll (acyclic : repo.Acyclic) (consistent : renderer.Consistent repo d)
    {s : Surface} (run : ofDefinition repo renderer d = .ok s) :
    s = empty.mergeAll (d.findings repo renderer) := by
  obtain ⟨handles, own, climbed, walkedOwn, walkedBases⟩ :=
    walked_of_ofDefinition acyclic consistent run
  rw [walkedBases.merged, walkedOwn.merged, findings_eq handles climbed, mergeAll_append]

theorem settled_of_ofDefinition (acyclic : repo.Acyclic) (consistent : renderer.Consistent repo d)
    {s : Surface} (run : ofDefinition repo renderer d = .ok s) {base : Bool} {path : List Edge}
    (reaches : d.Reaches repo base path) : s.Settled repo renderer base path := by
  obtain ⟨handles, own, climbed, walkedOwn, walkedBases⟩ :=
    walked_of_ofDefinition acyclic consistent run
  obtain ⟨e, rest, rfl⟩ := List.exists_cons_of_ne_nil reaches.ne_nil
  have listed : ∃ origin declared, (d.origins repo)[origin]? = some declared ∧
      (origin != 0) = base ∧ e ∈ declared := by
    obtain ⟨origin, declared, starts, isBase, follows⟩ := reaches
    exact ⟨origin, declared, starts, isBase, by cases follows <;> assumption⟩
  obtain ⟨origin, declared, starts, isBase, listed⟩ := listed
  have onward : d.Reaches repo base ([e] ++ rest) := reaches
  rw [origins_of_bases climbed] at starts
  cases origin with
  | zero =>
      cases isBase
      cases Option.some.inj starts
      rw [walkedBases.merged]
      exact (walkedOwn.indexed indexed_empty).settled_mergeAll _
        (walkedOwn.saturated.behind (by simp) onward (walkedOwn.settled e listed))
  | succ origin =>
      cases isBase
      have member : e ∈ edgesOfBases repo handles :=
        List.mem_flatten.mpr ⟨declared, List.mem_of_getElem? starts, listed⟩
      exact walkedBases.saturated.behind (by simp) onward (walkedBases.settled e member)

end Surface
end InterfaceSurface
