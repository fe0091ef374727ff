import InterfaceSurface.Exclusivity
import InterfaceSurface.Surface.Basic

/-! # The surface of a type

The surface of a type holds the interfaces it declares, the ones those require,
and the ones its base classes bring, each under its printed name.  The type's
own edges are walked first, then the edges of each base class, closest first.
What an interface requires is walked before the interface itself is entered, so
it stands before it.

An edge whose name is present is passed over with all it requires, except when
it is found through a default edge and the present entry was not: then the
entry and all below it are walked again and overwritten in place.  Nothing found
through a base class counts as reached through a default edge, so base classes
never change an entry.

`walk` is limited in depth.  The limit is one more than the number of
definitions, which no walk reaches in a repository where no interface requires
itself. -/
set_option autoImplicit false
namespace InterfaceSurface

/-- The scope behind an edge: an instantiation puts a frame with its printed
arguments on top. -/
def Scope.enter (scope : Scope) (repo : Repository) (renderer : Renderer) : TypeRef → Scope
  | .inst _ args => scope.push (args.map fun arg => renderer.sig repo arg scope)
  | .handle _ => scope
  | .named _ => scope

/-- How a walk got to where it is: through a default edge, through an
overridable edge, from a base class, and in which scope. -/
structure Approach where
  defaulted : Bool
  overridable : Bool
  base : Bool
  scope : Scope

namespace Approach

def start (base : Bool) : Approach := ⟨false, false, base, .empty⟩

def follow (approach : Approach) (repo : Repository) (renderer : Renderer) (edge : Edge) :
    Approach where
  defaulted := !approach.base && (approach.defaulted || edge.isDefault)
  overridable := approach.overridable || edge.isOverridable
  base := approach.base
  scope := approach.scope.enter repo renderer edge.target

end Approach

/-- What is entered for an edge, given the approach behind it. -/
def Facet.ofEdge (edge : Edge) (behind : Approach) (target : Handle) (d : TypeDef) : Facet where
  type := target
  isDefault := edge.isDefault
  defaulted := behind.defaulted
  overridable := behind.overridable
  base := behind.base
  exclusive := d.hasExclusiveMark
  leading := false
  version := d.version
  scope := behind.scope

namespace Surface

/-- The name is present, and finding it again would say nothing new. -/
def settles (s : Surface) (name : String) (defaulted : Bool) : Bool :=
  match s.get? name with
  | some facet => facet.defaulted || !defaulted
  | none => false

/-- Follows one edge; `walkRequired` walks the edges of its target. -/
def visit (repo : Repository) (renderer : Renderer)
    (walkRequired : Approach → Surface → List Edge → Except Fault Surface)
    (approach : Approach) (s : Surface) (edge : Edge) : Except Fault Surface := do
  let name ← renderer.name repo edge.target approach.scope
  let behind := approach.follow repo renderer edge
  if s.settles name behind.defaulted then
    return s
  else
    let target ← repo.resolve edge.target
    let d ← repo.get target
    let below ← walkRequired behind s d.edges
    return below.insertOrAssign name (.ofEdge edge behind target d)

/-- Follows edges in order, and no more than `depth` of them in a row. -/
def walk (repo : Repository) (renderer : Renderer) :
    Nat → Approach → Surface → List Edge → Except Fault Surface
  | 0, _, _, _ => .error .interfaceCycle
  | depth + 1, approach, s, edges =>
    edges.foldlM (visit repo renderer (walk repo renderer depth) approach) s

/-- Follows all edges of a type that is itself reached without an edge. -/
def walkType (repo : Repository) (renderer : Renderer) (base : Bool) (s : Surface)
    (edges : List Edge) : Except Fault Surface :=
  walk repo renderer (repo.size + 1) (.start base) s edges

def addBase (repo : Repository) (renderer : Renderer) (s : Surface) (h : Handle) :
    Except Fault Surface := do
  walkType repo renderer true s (← repo.get h).edges

def ofDefinition (repo : Repository) (renderer : Renderer) (d : TypeDef) :
    Except Fault Surface := do
  d.checkDefault
  let own ← walkType repo renderer false .empty d.edges
  (← d.bases repo).foldlM (addBase repo renderer) own

def ofType (repo : Repository) (renderer : Renderer) (h : Handle) : Except Fault Surface := do
  ofDefinition repo renderer (← repo.get h)

end Surface
end InterfaceSurface
