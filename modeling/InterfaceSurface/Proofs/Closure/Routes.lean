import InterfaceSurface.Proofs.Closure.Paths
import Mathlib.Data.List.Lex
import Mathlib.Data.List.Pairwise
import Mathlib.Order.Lattice

/-! # All routes, in the order of a full walk

`trails` lists the continuations of some edges up to a depth, with their
positions: what lies behind an edge comes first, then the edge, then its
successors.  So a trail is followed by the trails it goes on from and by those
after it in the lexicographic order (`trails_pairwise`).  `TypeDef.routes` puts
the trails of all origins behind each other; where no definition requires itself
it lists every route of the type (`mem_routes_iff`). -/
set_option autoImplicit false
namespace InterfaceSurface

/-- A trail behind the edge at a position, or that edge alone. -/
def trailsThrough (behind : TypeDef → List (List Nat × List Edge)) (repo : Repository) (e : Edge)
    (position : Nat) : List (List Nat × List Edge) :=
  (match e.targetDef? repo with
    | some d => (behind d).map fun trail => (position :: trail.1, e :: trail.2)
    | none => []) ++ [([position], [e])]

def trails (repo : Repository) : Nat → List Edge → List (List Nat × List Edge)
  | 0, _ => []
  | depth + 1, declared =>
    declared.zipIdx.flatMap fun entry =>
      trailsThrough (fun d => trails repo depth d.edges) repo entry.1 entry.2

def TypeDef.routes (d : TypeDef) (repo : Repository) : List (Route × List Edge) :=
  (d.origins repo).zipIdx.flatMap fun origin =>
    (trails repo (repo.size + 1) origin.1).map fun trail => (⟨origin.2, trail.1⟩, trail.2)

theorem mem_trailsThrough_iff {behind : TypeDef → List (List Nat × List Edge)} {repo : Repository}
    {e : Edge} {position : Nat} {trail : List Nat × List Edge} :
    trail ∈ trailsThrough behind repo e position ↔
      (∃ d, e.targetDef? repo = some d ∧ ∃ rest ∈ behind d,
        trail = (position :: rest.1, e :: rest.2)) ∨ trail = ([position], [e]) := by
  unfold trailsThrough
  cases e.targetDef? repo with
  | none => simp
  | some d => simp [eq_comm]

theorem mem_trails_iff {repo : Repository} (depth : Nat) {declared path : List Edge}
    {positions : List Nat} :
    (positions, path) ∈ trails repo depth declared ↔
      edgesAlong? repo declared positions = some path ∧ positions.length ≤ depth := by
  induction depth generalizing declared path positions with
  | zero => cases positions <;> simp [trails, edgesAlong?]
  | succ depth ih =>
      simp only [trails, List.mem_flatMap, mem_trailsThrough_iff, Prod.exists,
        List.mk_mem_zipIdx_iff_getElem?]
      cases positions with
      | nil => simp [edgesAlong?]
      | cons position rest =>
          cases rest with
          | nil => simp [edgesAlong?, ih, @eq_comm _ path]
          | cons next rest =>
              simp only [Prod.mk.injEq, List.cons.injEq, reduceCtorEq, and_false, false_and,
                or_false, List.length_cons, Nat.add_le_add_iff_right]
              rw [edgesAlong?_cons_cons_eq_some_iff]
              constructor
              · rintro ⟨e, _, stands, d, target, _, onward, listed, ⟨rfl, rfl⟩, rfl⟩
                obtain ⟨along, short⟩ := ih.mp listed
                exact ⟨⟨e, d, onward, stands, target, along, rfl⟩, by simpa using short⟩
              · rintro ⟨⟨e, d, onward, stands, target, along, rfl⟩, short⟩
                have listed := ih.mpr ⟨along, by simpa using short⟩
                exact ⟨e, position, stands, d, target, next :: rest, onward, listed, ⟨rfl, rfl⟩,
                  rfl⟩

/-- A full walk comes to `b` after `a`: `a` goes on from `b`, or stands before it. -/
def WalkedBefore (a b : List Nat) : Prop := b <+: a ∨ a < b

theorem WalkedBefore.cons {a b : List Nat} (position : Nat) (before : WalkedBefore a b) :
    WalkedBefore (position :: a) (position :: b) := by
  rcases before with within | less
  · exact .inl (List.cons_prefix_cons.mpr ⟨rfl, within⟩)
  · exact .inr (List.Lex.cons less)

theorem WalkedBefore.of_lt {i j : Nat} (a b : List Nat) (less : i < j) :
    WalkedBefore (i :: a) (j :: b) :=
  .inr (List.Lex.rel less)

theorem zipIdx_pairwise {α : Type} (xs : List α) :
    xs.zipIdx.Pairwise fun a b => a.2 < b.2 := by
  have sorted : (xs.zipIdx.map Prod.snd).Pairwise (· < ·) := by
    rw [List.zipIdx_map_snd]
    exact List.pairwise_lt_range' ..
  exact List.pairwise_map.mp sorted

theorem trails_pairwise (repo : Repository) (depth : Nat) (declared : List Edge) :
    (trails repo depth declared).Pairwise fun a b => WalkedBefore a.1 b.1 := by
  induction depth generalizing declared with
  | zero => exact .nil
  | succ depth ih =>
      rw [trails, List.pairwise_flatMap]
      constructor
      · intro entry _
        rw [trailsThrough, List.pairwise_append]
        refine ⟨?_, List.pairwise_singleton .., ?_⟩
        · cases entry.1.targetDef? repo with
          | none => exact .nil
          | some d =>
              exact List.pairwise_map.mpr ((ih d.edges).imp fun before => before.cons entry.2)
        · intro trail behind last isLast
          cases List.mem_singleton.mp isLast
          cases target : entry.1.targetDef? repo with
          | none => simp [target] at behind
          | some d =>
              rw [target] at behind
              obtain ⟨rest, _, rfl⟩ := List.mem_map.mp behind
              exact .inl (List.cons_prefix_cons.mpr ⟨rfl, List.nil_prefix⟩)
      · apply (zipIdx_pairwise declared).imp
        intro first second less a inFirst b inSecond
        have headed : ∀ (entry : Edge × Nat) (trail : List Nat × List Edge),
            trail ∈ trailsThrough (fun d => trails repo depth d.edges) repo entry.1 entry.2 →
            ∃ rest, trail.1 = entry.2 :: rest := by
          intro entry trail member
          rcases mem_trailsThrough_iff.mp member with ⟨_, _, rest, _, rfl⟩ | rfl
          · exact ⟨rest.1, rfl⟩
          · exact ⟨[], rfl⟩
        obtain ⟨ra, ha⟩ := headed first a inFirst
        obtain ⟨rb, hb⟩ := headed second b inSecond
        rw [ha, hb]
        exact .of_lt ra rb less

theorem mem_routes_iff {repo : Repository} (acyclic : repo.Acyclic) (d : TypeDef) (route : Route)
    (path : List Edge) :
    (route, path) ∈ d.routes repo ↔ route.edges? repo d = some path := by
  obtain ⟨origin, positions⟩ := route
  have listed : ((⟨origin, positions⟩, path) : Route × List Edge) ∈ d.routes repo ↔
      ∃ declared, (d.origins repo)[origin]? = some declared ∧
        (positions, path) ∈ trails repo (repo.size + 1) declared := by
    simp only [TypeDef.routes, List.mem_flatMap, List.mem_map, Prod.exists,
      List.mk_mem_zipIdx_iff_getElem?]
    constructor
    · rintro ⟨declared, _, starts, _, _, member, same⟩
      cases same
      exact ⟨declared, starts, member⟩
    · rintro ⟨declared, starts, member⟩
      exact ⟨declared, origin, starts, positions, path, member, rfl⟩
  rw [listed, Route.edges?, Option.bind_eq_bind, Option.bind_eq_some_iff]
  apply exists_congr
  intro declared
  apply and_congr_right
  intro _
  rw [mem_trails_iff]
  apply and_iff_left_of_imp
  intro along
  rw [edgesAlong?_length along]
  exact (PathFrom.iff_positions.mpr ⟨positions, along⟩).length_le acyclic

theorem routes_pairwise (repo : Repository) (d : TypeDef) :
    (d.routes repo).Pairwise fun a b => a.1.origin < b.1.origin ∨
      (a.1.origin = b.1.origin ∧ WalkedBefore a.1.positions b.1.positions) := by
  rw [TypeDef.routes, List.pairwise_flatMap]
  constructor
  · intro origin _
    exact List.pairwise_map.mpr
      ((trails_pairwise repo (repo.size + 1) origin.1).imp fun before => .inr ⟨rfl, before⟩)
  · apply (zipIdx_pairwise (d.origins repo)).imp
    intro first second less a inFirst b inSecond
    obtain ⟨_, _, rfl⟩ := List.mem_map.mp inFirst
    obtain ⟨_, _, rfl⟩ := List.mem_map.mp inSecond
    exact .inl less

end InterfaceSurface
