import InterfaceSurface.Proofs.Closure.Findings
import InterfaceSurface.Proofs.Metadata.Alike

/-! # Paths and their counterparts

Two repositories may differ in their edges and still look the same under some view
of edges: their order may differ, or what the view leaves out.  As long as the view
shows where an edge leads, every path has a counterpart that looks the same
(`TypeDef.Reaches.counterpart`) and ends at the same name.  So requirements and the
consistency of a renderer carry over. -/
set_option autoImplicit false
namespace InterfaceSurface

/-- The same edges are seen, in any order and number. -/
def SeenAlike {β : Type} (view : Edge → β) (edges others : List Edge) : Prop :=
  ∀ seen, seen ∈ edges.map view ↔ seen ∈ others.map view

/-- The definitions agree in everything but the edges, and these look the same. -/
def TypeDef.SeenAlike {β : Type} (view : Edge → β) (d other : TypeDef) : Prop :=
  d.SameButEdges other ∧ InterfaceSurface.SeenAlike view d.edges other.edges

section
variable {β : Type} {view : Edge → β} {ref : β → TypeRef} {repo other : Repository}
  {renderer : Renderer} {d e : TypeDef}

theorem SeenAlike.symm {edges others : List Edge} (alike : SeenAlike view edges others) :
    SeenAlike view others edges :=
  fun seen => (alike seen).symm

theorem SeenAlike.exists {edges others : List Edge} (alike : SeenAlike view edges others)
    {a : Edge} (listed : a ∈ edges) : ∃ b ∈ others, view b = view a :=
  List.mem_map.mp ((alike (view a)).mp (List.mem_map_of_mem listed))

theorem target_eq_of_seen (leads : ∀ a, ref (view a) = a.target) {a b : Edge}
    (seen : view a = view b) : a.target = b.target := by
  rw [← leads, ← leads, seen]

theorem targets_eq_of_seen (leads : ∀ a, ref (view a) = a.target) {path pathToo : List Edge}
    (seen : path.map view = pathToo.map view) :
    path.map Edge.target = pathToo.map Edge.target := by
  have through : ∀ whole : List Edge, whole.map Edge.target = (whole.map view).map ref := by
    intro whole
    simp only [List.map_map, Function.comp_def, leads]
  rw [through, through, seen]

theorem TypeDef.SameButEdges.symm (same : d.SameButEdges e) : e.SameButEdges d := by
  unfold SameButEdges at same ⊢
  rw [same]

theorem TypeDef.SameButEdges.base_eq (same : d.SameButEdges e) : d.base = e.base := by
  rw [same]

theorem Repository.Alike.symm_seen (alike : repo.Alike (TypeDef.SeenAlike view) other) :
    other.Alike (TypeDef.SeenAlike view) repo :=
  alike.symm.mono fun _ _ both => ⟨both.1.symm, both.2.symm⟩

theorem Repository.Alike.targetDef?_seen (alike : repo.Alike (TypeDef.SeenAlike view) other)
    {a b : Edge} (same : a.target = b.target) {target : TypeDef}
    (known : a.targetDef? repo = some target) :
    ∃ targetToo, b.targetDef? other = some targetToo ∧ target.SeenAlike view targetToo := by
  obtain ⟨h, resolved, stands⟩ := (a.targetDef?_eq_some_iff repo target).mp known
  obtain ⟨targetToo, standsToo, _, both⟩ := alike.get? stands
  refine ⟨targetToo, (b.targetDef?_eq_some_iff other targetToo).mpr ⟨h, ?_, standsToo⟩, both⟩
  rw [← same, ← alike.resolve_eq, resolved]

/-! ## Paths -/

theorem PathFrom.counterpart (leads : ∀ a, ref (view a) = a.target)
    (alike : repo.Alike (TypeDef.SeenAlike view) other) {declared declaredToo path : List Edge}
    (same : SeenAlike view declared declaredToo) (follows : PathFrom repo declared path) :
    ∃ pathToo, pathToo.map view = path.map view ∧ PathFrom other declaredToo pathToo := by
  induction follows generalizing declaredToo with
  | stop listed =>
      obtain ⟨b, listedToo, seen⟩ := same.exists listed
      exact ⟨[b], by simp [seen], .stop listedToo⟩
  | follow listed target rest ih =>
      obtain ⟨b, listedToo, seen⟩ := same.exists listed
      obtain ⟨required, targetToo, both⟩ :=
        alike.targetDef?_seen (target_eq_of_seen leads seen.symm) target
      obtain ⟨pathToo, seenBehind, followsToo⟩ := ih both.2
      exact ⟨b :: pathToo, by simp [seen, seenBehind], .follow listedToo targetToo followsToo⟩

theorem origins_counterpart (alike : repo.Alike (TypeDef.SeenAlike view) other)
    (same : d.SeenAlike view e) :
    List.Forall₂ (SeenAlike view) (d.origins repo) (e.origins other) := by
  have bases : d.bases repo = e.bases other :=
    alike.bases_eq (fun _ _ both => both.1.base_eq) same.1.base_eq
  unfold TypeDef.origins
  rw [bases]
  cases e.bases other with
  | error fault => exact .cons same.2 .nil
  | ok handles =>
      refine .cons same.2 ?_
      induction handles with
      | nil => exact .nil
      | cons h rest ih =>
          cases known : repo.get? h with
          | none => simpa [known, alike.get?_eq_none known] using ih
          | some base =>
              obtain ⟨baseToo, knownToo, _, both⟩ := alike.get? known
              simpa [known, knownToo] using List.Forall₂.cons both.2 ih

theorem TypeDef.Reaches.counterpart (leads : ∀ a, ref (view a) = a.target)
    (alike : repo.Alike (TypeDef.SeenAlike view) other) (same : d.SeenAlike view e) {base : Bool}
    {path : List Edge} (reaches : d.Reaches repo base path) :
    ∃ pathToo, pathToo.map view = path.map view ∧ e.Reaches other base pathToo := by
  obtain ⟨origin, declared, starts, isBase, follows⟩ := reaches
  have origins := origins_counterpart alike same
  obtain ⟨inside, rfl⟩ := List.getElem?_eq_some_iff.mp starts
  have insideToo : origin < (e.origins other).length := lt_of_lt_of_eq inside origins.length_eq
  obtain ⟨pathToo, seen, followsToo⟩ :=
    follows.counterpart leads alike (origins.get inside insideToo)
  exact ⟨pathToo, seen, origin, _, List.getElem?_eq_getElem insideToo, isBase, followsToo⟩

/-! ## Names -/

theorem scopeBehind_eq_of_printsAlike (prints : renderer.PrintsAlike repo other)
    (path : List Edge) : scopeBehind repo renderer path = scopeBehind other renderer path := by
  simp only [scopeBehind, Scope.enter_eq_of_printsAlike prints]

theorem keyOf?_eq_of_printsAlike (prints : renderer.PrintsAlike repo other) (path : List Edge) :
    keyOf? repo renderer path = keyOf? other renderer path := by
  simp only [keyOf?, prints.type, scopeBehind_eq_of_printsAlike prints]

/-- The name at the end of a path depends on where its edges lead, and on nothing
else. -/
theorem keyOf?_congr {path pathToo : List Edge}
    (same : path.map Edge.target = pathToo.map Edge.target) :
    keyOf? repo renderer path = keyOf? repo renderer pathToo := by
  have scope : ∀ front : List Edge, scopeBehind repo renderer front =
      (front.map Edge.target).foldl (fun scope ref => scope.enter repo renderer ref) .empty := by
    intro front
    rw [scopeBehind, List.foldl_map]
  have byTargets : ∀ whole : List Edge, keyOf? repo renderer whole =
      (whole.map Edge.target).getLast?.map fun ref => renderer.type repo ref
        ((whole.map Edge.target).dropLast.foldl
          (fun scope ref => scope.enter repo renderer ref) .empty) := by
    intro whole
    rw [keyOf?, scope, List.map_dropLast, List.getLast?_map, Option.map_map]
    rfl
  rw [byTargets, byTargets, same]

/-! ## What carries over -/

theorem Repository.Acyclic.counterpart (leads : ∀ a, ref (view a) = a.target)
    (alike : repo.Alike (TypeDef.SeenAlike view) other) (acyclic : repo.Acyclic) :
    other.Acyclic := by
  have step : ∀ a b, other.Requires a b → repo.Requires a b := by
    rintro a b ⟨d, known, edge, listed, resolved⟩
    obtain ⟨dToo, knownToo, _, both⟩ := alike.symm_seen.get? known
    obtain ⟨edgeToo, listedToo, seen⟩ := both.2.exists listed
    refine ⟨dToo, knownToo, edgeToo, listedToo, ?_⟩
    rw [target_eq_of_seen leads seen, alike.resolve_eq, resolved]
  exact fun h returns => acyclic h (Relation.TransGen.mono step h h returns)

theorem Renderer.Consistent.counterpart (leads : ∀ a, ref (view a) = a.target)
    (alike : repo.Alike (TypeDef.SeenAlike view) other) (same : d.SeenAlike view e)
    (prints : renderer.PrintsAlike repo other) (consistent : renderer.Consistent repo d) :
    renderer.Consistent other e := by
  have named : ∀ path pathToo : List Edge, pathToo.map view = path.map view →
      keyOf? repo renderer pathToo = keyOf? other renderer path := by
    intro path pathToo seen
    rw [keyOf?_congr (targets_eq_of_seen leads seen), keyOf?_eq_of_printsAlike prints]
  have ends : ∀ (path pathToo : List Edge) (last : Edge), pathToo.map view = path.map view →
      path.getLast? = some last → ∃ finish, pathToo.getLast? = some finish ∧
        finish.target = last.target := by
    intro path pathToo last seen isLast
    have seenLast := congrArg List.getLast? seen
    rw [List.getLast?_map, List.getLast?_map, isLast, Option.map_some,
      Option.map_eq_some_iff] at seenLast
    obtain ⟨finish, isFinish, seenToo⟩ := seenLast
    exact ⟨finish, isFinish, target_eq_of_seen leads seenToo⟩
  have sameToo : e.SeenAlike view d := ⟨same.1.symm, same.2.symm⟩
  rintro p q path rival key ⟨leadsTo, printed⟩ ⟨rivalLeadsTo, rivalPrinted⟩ a isLast b isRivalLast
  have reaches := TypeDef.Reaches.iff_route.mpr ⟨p, rfl, leadsTo⟩
  have rivals := TypeDef.Reaches.iff_route.mpr ⟨q, rfl, rivalLeadsTo⟩
  obtain ⟨back, seen, reachesBack⟩ := reaches.counterpart leads alike.symm_seen sameToo
  obtain ⟨rivalBack, rivalSeen, rivalsBack⟩ := rivals.counterpart leads alike.symm_seen sameToo
  obtain ⟨finish, isFinish, sameEnd⟩ := ends path back a seen isLast
  obtain ⟨rivalFinish, isRivalFinish, sameRivalEnd⟩ :=
    ends rival rivalBack b rivalSeen isRivalLast
  obtain ⟨resolvesAlike, goesOnAlike⟩ := consistent.of_reaches reachesBack rivalsBack
    ((named _ _ seen).trans printed) ((named _ _ rivalSeen).trans rivalPrinted) finish isFinish
    rivalFinish isRivalFinish
  constructor
  · rw [← alike.resolve_eq, ← alike.resolve_eq, ← sameEnd, ← sameRivalEnd]
    exact resolvesAlike
  · intro target known next listed
    obtain ⟨targetBack, knownBack, both⟩ := alike.symm_seen.targetDef?_seen sameEnd.symm known
    obtain ⟨nextBack, listedBack, seenNext⟩ := both.2.exists listed
    rw [← named (path ++ [next]) (back ++ [nextBack]) (by simp [seen, seenNext]),
      ← named (rival ++ [next]) (rivalBack ++ [nextBack]) (by simp [rivalSeen, seenNext])]
    exact goesOnAlike targetBack knownBack nextBack listedBack

end
end InterfaceSurface
