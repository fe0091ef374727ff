import InterfaceSurface.Surface.Closure

/-! # Routes

A route leads from a type to an interface: it starts from the edges that the
type or one of its base classes declares, picks one of them by its position, and
goes on through the edges of the definition the picked edge leads to.  Routes
are compared by where they start and then by their positions, one after the
other, so a route comes before all that go on from its end.

Routes know nothing of what a walk keeps or passes over; they say what there is
to find. -/
set_option autoImplicit false
namespace InterfaceSurface

def Edge.targetDef? (e : Edge) (repo : Repository) : Option TypeDef :=
  match repo.resolve e.target with
  | .ok h => repo.get? h
  | .error _ => none

/-- The definition behind `a` has an edge to the one behind `b`. -/
def Repository.Requires (repo : Repository) (a b : Handle) : Prop :=
  ∃ d, repo.get? a = some d ∧ ∃ e ∈ d.edges, repo.resolve e.target = .ok b

/-- No definition requires itself, however indirectly. -/
def Repository.Acyclic (repo : Repository) : Prop :=
  ∀ h, ¬ Relation.TransGen repo.Requires h h

/-- The edges picked by positions, starting among the given ones. -/
def edgesAlong? (repo : Repository) : List Edge → List Nat → Option (List Edge)
  | _, [] => none
  | declared, [position] => declared[position]?.map fun e => [e]
  | declared, position :: next :: rest => do
    let e ← declared[position]?
    let d ← e.targetDef? repo
    return e :: (← edgesAlong? repo d.edges (next :: rest))

/-- Where a route may start: at the type's own edges, or at those of one of its
base classes, closest first. -/
def TypeDef.origins (d : TypeDef) (repo : Repository) : List (List Edge) :=
  match d.bases repo with
  | .ok handles => d.edges :: handles.filterMap fun h => (repo.get? h).map TypeDef.edges
  | .error _ => [d.edges]

/-- An origin and the positions to follow from there; origin zero is the type
itself. -/
structure Route where
  origin : Nat
  positions : List Nat
deriving DecidableEq, Repr

namespace Route

def isBase (route : Route) : Bool := route.origin != 0

/-- The edges a route follows; none unless it leads somewhere. -/
def edges? (route : Route) (repo : Repository) (d : TypeDef) : Option (List Edge) := do
  edgesAlong? repo (← (d.origins repo)[route.origin]?) route.positions

def Before (a b : Route) : Prop :=
  a.origin < b.origin ∨ (a.origin = b.origin ∧ a.positions < b.positions)

end Route

def scopeBehind (repo : Repository) (renderer : Renderer) (edges : List Edge) : Scope :=
  edges.foldl (fun scope e => scope.enter repo renderer e.target) .empty

/-- The printed name of the interface at the end of some edges. -/
def keyOf? (repo : Repository) (renderer : Renderer) (edges : List Edge) : Option String :=
  edges.getLast?.map fun last =>
    renderer.type repo last.target (scopeBehind repo renderer edges.dropLast)

/-- The edges lead from the type to the interface printed so. -/
def TypeDef.Leads (d : TypeDef) (repo : Repository) (renderer : Renderer) (route : Route)
    (edges : List Edge) (key : String) : Prop :=
  route.edges? repo d = some edges ∧ keyOf? repo renderer edges = some key

/-- Two routes of the type to one name end at the same definition, or at none,
and give each edge of that definition the same name. -/
def Renderer.Consistent (renderer : Renderer) (repo : Repository) (d : TypeDef) : Prop :=
  ∀ (p q : Route) (es fs : List Edge) (key : String),
    d.Leads repo renderer p es key → d.Leads repo renderer q fs key →
    (∀ a ∈ es.getLast?, ∀ b ∈ fs.getLast?,
      (repo.resolve a.target).toOption = (repo.resolve b.target).toOption ∧
      ∀ target ∈ a.targetDef? repo, ∀ e ∈ target.edges,
        keyOf? repo renderer (es ++ [e]) = keyOf? repo renderer (fs ++ [e]))

end InterfaceSurface
