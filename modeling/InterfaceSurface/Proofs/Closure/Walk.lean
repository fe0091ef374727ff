import InterfaceSurface.Proofs.Closure.Saturation
import InterfaceSurface.Proofs.Outcome

/-! # A walk merges all findings

A walk passes over whatever an earlier part of it has settled, and walks again
what it upgrades.  `ofDefinition_eq_mergeAll` says that none of this shows in the
result: it is what merging the findings of all routes gives, with nothing passed
over.

Passing over is harmless on a saturated surface.  It stays saturated because what
an interface requires is walked before the interface is entered, and the walk
below finds the name as it was, because no name comes back on the way down. -/
set_option autoImplicit false
namespace InterfaceSurface
namespace Surface

/-! ## One step -/

/-- All a successful visit can do: pass the edge over, or walk what its target
requires and then enter the target. -/
theorem visit_eq_ok {repo : Repository} {renderer : Renderer}
    {walkRequired : Approach → Surface → List Edge → Except Fault Surface} {approach : Approach}
    {s result : Surface} {e : Edge}
    (visited : visit repo renderer walkRequired approach s e = .ok result) :
    (s.settles (renderer.type repo e.target approach.scope)
        (approach.follow repo renderer e).defaulted = true ∧ result = s) ∨
      (s.settles (renderer.type repo e.target approach.scope)
          (approach.follow repo renderer e).defaulted = false ∧
        ∃ target d below, repo.resolve e.target = .ok target ∧ repo.get? target = some d ∧
          walkRequired (approach.follow repo renderer e) s d.edges = .ok below ∧
          result = below.insertOrAssign (renderer.type repo e.target approach.scope)
            (.ofEdge e (approach.follow repo renderer e) target d)) := by
  obtain ⟨name, printed, visited⟩ := bind_eq_ok_iff.mp visited
  cases Renderer.eq_type_of_name printed
  dsimp only at visited
  split at visited
  · rename_i settled
    exact .inl ⟨settled, (Except.ok.inj visited).symm⟩
  · rename_i unsettled
    obtain ⟨target, resolved, visited⟩ := bind_eq_ok_iff.mp visited
    obtain ⟨d, known, visited⟩ := bind_eq_ok_iff.mp visited
    obtain ⟨below, walked, visited⟩ := bind_eq_ok_iff.mp visited
    exact .inr ⟨by simpa using unsettled, target, d, below, resolved,
      Repository.get_eq_ok_iff.mp known, walked, (Except.ok.inj visited).symm⟩

/-! ## Findings in the order of a full walk -/

/-- What is found behind a path, along the given edges. -/
def findingsBelow (repo : Repository) (renderer : Renderer) (base : Bool) (path : List Edge)
    (depth : Nat) (declared : List Edge) : List Exposure :=
  (trails repo depth declared).filterMap fun trail =>
    Exposure.atEnd? repo renderer base (path ++ trail.2)

/-- What is found behind one more edge, and then the target of that edge. -/
def findingsVia (repo : Repository) (renderer : Renderer) (base : Bool) (path : List Edge)
    (depth : Nat) (e : Edge) : List Exposure :=
  (match e.targetDef? repo with
    | some d => findingsBelow repo renderer base (path ++ [e]) depth d.edges
    | none => []) ++ (Exposure.atEnd? repo renderer base (path ++ [e])).toList

section
variable {repo : Repository} {renderer : Renderer} {base : Bool} {path : List Edge}

theorem findingsBelow_succ (depth : Nat) (declared : List Edge) :
    findingsBelow repo renderer base path (depth + 1) declared =
      declared.flatMap (findingsVia repo renderer base path depth) := by
  have through : ∀ entry : Edge × Nat,
      (trailsThrough (fun d => trails repo depth d.edges) repo entry.1 entry.2).filterMap
        (fun trail => Exposure.atEnd? repo renderer base (path ++ trail.2)) =
      findingsVia repo renderer base path depth entry.1 := by
    intro entry
    have alone : [([entry.2], [entry.1])].filterMap
        (fun trail => Exposure.atEnd? repo renderer base (path ++ trail.2)) =
        (Exposure.atEnd? repo renderer base (path ++ [entry.1])).toList := by
      cases finds : Exposure.atEnd? repo renderer base (path ++ [entry.1]) <;> simp [finds]
    rw [trailsThrough, List.filterMap_append, alone, findingsVia]
    cases entry.1.targetDef? repo with
    | none => rfl
    | some d => simp [findingsBelow, List.filterMap_map]
  calc findingsBelow repo renderer base path (depth + 1) declared
      = declared.zipIdx.flatMap fun entry => findingsVia repo renderer base path depth entry.1 := by
        simp only [findingsBelow, trails, List.filterMap_flatMap, through]
    _ = (declared.zipIdx.map Prod.fst).flatMap (findingsVia repo renderer base path depth) :=
        (List.flatMap_map ..).symm
    _ = declared.flatMap (findingsVia repo renderer base path depth) := by
        rw [List.zipIdx_map_fst]

theorem mem_findingsBelow {depth : Nat} {declared : List Edge} {found : Exposure}
    (member : found ∈ findingsBelow repo renderer base path depth declared) :
    ∃ rest, PathFrom repo declared rest ∧
      Exposure.atEnd? repo renderer base (path ++ rest) = some found := by
  obtain ⟨⟨positions, rest⟩, listed, finds⟩ := List.mem_filterMap.mp member
  exact ⟨rest, PathFrom.iff_positions.mpr ⟨positions, ((mem_trails_iff depth).mp listed).1⟩, finds⟩

end

/-! ## The walk -/

/-- After some edges have been followed from the end of a path: the findings are
merged, and nothing along these edges is left to find. -/
structure Walked (repo : Repository) (renderer : Renderer) (d : TypeDef) (base : Bool)
    (path : List Edge) (edges : List Edge) (findings : List Exposure) (s result : Surface) :
    Prop where
  merged : result = s.mergeAll findings
  saturated : result.Saturated repo renderer d base
  settled : ∀ e ∈ edges, result.Settled repo renderer base (path ++ [e])

section
variable {repo : Repository} {renderer : Renderer} {d : TypeDef} {base : Bool}

theorem Walked.indexed {s result : Surface} {path edges : List Edge} {findings : List Exposure}
    (walked : Walked repo renderer d base path edges findings s result) (indexed : s.Indexed) :
    result.Indexed :=
  walked.merged ▸ indexed.mergeAll findings

/-- An edge that is passed over has nothing new behind it. -/
theorem Walked.of_settled {s : Surface} {path : List Edge} {e : Edge} (depth : Nat)
    (saturated : s.Saturated repo renderer d base) (reaches : d.Reaches repo base (path ++ [e]))
    (settled : s.Settled repo renderer base (path ++ [e])) :
    Walked repo renderer d base path [e] (findingsVia repo renderer base path depth e) s s := by
  have nothing : ∀ found ∈ findingsVia repo renderer base path depth e,
      s.settles found.1 found.2.defaulted = true := by
    intro found member
    rcases List.mem_append.mp member with behind | last
    · cases known : e.targetDef? repo with
      | none => simp [known] at behind
      | some target =>
          rw [known] at behind
          obtain ⟨rest, follows, finds⟩ := mem_findingsBelow behind
          have onward : d.Reaches repo base ((path ++ [e]) ++ rest) :=
            reaches.extend (by simp) known follows
          exact (saturated.behind (by simp) onward settled).settles finds
    · exact settled.settles (by simpa using last)
  exact ⟨(mergeAll_of_settled nothing).symm, saturated, by simpa using settled⟩

/-- An edge that is walked: first what its target requires, then the target. -/
theorem Walked.of_below {s below : Surface} {path : List Edge} {e : Edge} {target : Handle}
    {required : TypeDef} {depth : Nat} (acyclic : repo.Acyclic)
    (consistent : renderer.Consistent repo d) (indexed : s.Indexed)
    (reaches : d.Reaches repo base (path ++ [e])) (resolved : repo.resolve e.target = .ok target)
    (known : repo.get? target = some required)
    (unsettled : s.settles (renderer.type repo e.target (scopeBehind repo renderer path))
      (Approach.along repo renderer base (path ++ [e])).defaulted = false)
    (walked : Walked repo renderer d base (path ++ [e]) required.edges
      (findingsBelow repo renderer base (path ++ [e]) depth required.edges) s below) :
    Walked repo renderer d base path [e] (findingsVia repo renderer base path depth e) s
      (below.insertOrAssign (renderer.type repo e.target (scopeBehind repo renderer path))
        (.ofEdge e (.along repo renderer base (path ++ [e])) target required)) := by
  set found : Exposure := (renderer.type repo e.target (scopeBehind repo renderer path),
    .ofEdge e (.along repo renderer base (path ++ [e])) target required)
  have finds : Exposure.atEnd? repo renderer base (path ++ [e]) = some found :=
    Exposure.atEnd?_concat resolved known
  have leads : e.targetDef? repo = some required :=
    (e.targetDef?_eq_some_iff repo required).mpr ⟨target, resolved, known⟩
  obtain ⟨named, said⟩ := Exposure.atEnd?_eq_some finds
  have indexedBelow : below.Indexed := walked.indexed indexed
  -- The walk below leaves the name alone, so it is as unsettled as it was before.
  have apart : ∀ other ∈ findingsBelow repo renderer base (path ++ [e]) depth required.edges,
      other.1 ≠ found.1 := by
    intro other member same
    obtain ⟨rest, follows, findsOther⟩ := mem_findingsBelow member
    have onward := reaches.extend (by simp) leads follows
    refine consistent.keyOf?_ne acyclic reaches.ne_nil follows.ne_nil onward ?_
    rw [(Exposure.atEnd?_eq_some findsOther).1, named, same]
  have fresh : below.settles found.1 found.2.defaulted = false := by
    rw [← unsettled, walked.merged]
    unfold settles
    rw [indexed.get?_mergeAll_of_unnamed apart]
    rfl
  have entered : below.insertOrAssign found.1 found.2 = below.merge found :=
    (merge_of_unsettled fresh).symm
  refine ⟨?_, ?_, ?_⟩
  · rw [entered, findingsVia, leads, finds, mergeAll_append, ← walked.merged]
    rfl
  · rw [entered]
    apply walked.saturated.merge indexedBelow consistent reaches finds
    intro next onward
    obtain ⟨last, isLast, other, leadsToo, follows⟩ :=
      onward.rest_of_append reaches.ne_nil (by simp)
    have same : last = e := by simpa using isLast.symm
    subst same
    cases Option.some.inj (leads.symm.trans leadsToo)
    cases follows with
    | stop listed => exact walked.settled next listed
    | follow _ _ nothing => exact absurd rfl nothing.ne_nil
  · intro other isLast
    cases List.mem_singleton.mp isLast
    refine ⟨found.1, named, ?_⟩
    rw [← Facet.defaulted_of_atEnd? said]
    exact indexedBelow.settles_insertOrAssign found

theorem Walked.append {s middle result : Surface} {path first later : List Edge}
    {found foundLater : List Exposure} (indexed : s.Indexed)
    (walked : Walked repo renderer d base path first found s middle)
    (onward : Walked repo renderer d base path later foundLater middle result) :
    Walked repo renderer d base path (first ++ later) (found ++ foundLater) s result where
  merged := by rw [mergeAll_append, ← walked.merged, onward.merged]
  saturated := onward.saturated
  settled := by
    intro e member
    rcases List.mem_append.mp member with early | late
    · rw [onward.merged]
      exact (walked.indexed indexed).settled_mergeAll foundLater (walked.settled e early)
    · exact onward.settled e late

theorem walked_of_walk (acyclic : repo.Acyclic) (consistent : renderer.Consistent repo d)
    (base : Bool) (depth : Nat) (path : List Edge) {edges : List Edge} {s result : Surface}
    (indexed : s.Indexed) (saturated : s.Saturated repo renderer d base)
    (reaches : ∀ e ∈ edges, d.Reaches repo base (path ++ [e]))
    (run : walk repo renderer depth (.along repo renderer base path) s edges = .ok result) :
    Walked repo renderer d base path edges (findingsBelow repo renderer base path depth edges) s
      result := by
  induction depth generalizing path edges s result with
  | zero => cases run
  | succ depth ihDepth =>
      rw [findingsBelow_succ]
      rw [walk] at run
      induction edges generalizing s with
      | nil =>
          cases run
          exact ⟨rfl, saturated, by simp⟩
      | cons e rest ihEdges =>
          obtain ⟨middle, visited, onward⟩ := foldlM_cons_eq_ok_iff.mp run
          have reachesHead := reaches e (List.mem_cons_self ..)
          have head : Walked repo renderer d base path [e]
              (findingsVia repo renderer base path depth e) s middle := by
            have scope : (Approach.along repo renderer base path).scope =
                scopeBehind repo renderer path := by rw [Approach.along_eq]
            have visit := visit_eq_ok visited
            rw [← Approach.along_concat, scope] at visit
            rcases visit with ⟨passed, rfl⟩ | ⟨fresh, target, required, below, visit⟩
            · refine .of_settled depth saturated reachesHead ⟨_, keyOf?_concat path e, ?_⟩
              rwa [Approach.along_eq] at passed
            · obtain ⟨resolved, known, run, rfl⟩ := visit
              refine .of_below acyclic consistent indexed reachesHead resolved known fresh ?_
              have leads : e.targetDef? repo = some required :=
                (e.targetDef?_eq_some_iff repo required).mpr ⟨target, resolved, known⟩
              exact ihDepth (path ++ [e]) indexed saturated
                (fun next listed => reachesHead.extend List.getLast?_concat leads (.stop listed))
                run
          have tail := ihEdges (head.indexed indexed) head.saturated
            (fun next listed => reaches next (List.mem_cons_of_mem _ listed)) onward
          exact head.append indexed tail

end
end Surface
end InterfaceSurface
