import InterfaceSurface.Naming.Renderer

/-! # Base classes and direct declarations

`bases` follows the base classes of a type, closest first.  The chain ends at a
type without a base class and, since nothing keeps a chain from being cyclic, at
the first class that is on it already; so it has no more members than the
repository, and the bound on the number of steps is never reached. -/
set_option autoImplicit false
namespace InterfaceSurface

/-- The direct base class; a type without a base, or with the base
`System.Object`, has none. -/
def TypeDef.baseClass? (d : TypeDef) (repo : Repository) : Except Fault (Option Handle) :=
  match d.base with
  | none => .ok none
  | some ref => do
    let name ← repo.nameOf ref
    if name = TypeName.systemObject then
      return none
    else
      return some (← repo.resolve ref)

/-- Follows base classes for some steps, up to the first one seen before. -/
def Repository.climb (repo : Repository) : Nat → List Handle → TypeDef → Except Fault (List Handle)
  | 0, _, _ => .ok []
  | steps + 1, seen, d => do
    match ← d.baseClass? repo with
    | none => return []
    | some h =>
      if h ∈ seen then
        return []
      else
        let base ← repo.get h
        return h :: (← repo.climb steps (h :: seen) base)

/-- All base classes, closest first. -/
def TypeDef.bases (d : TypeDef) (repo : Repository) : Except Fault (List Handle) :=
  repo.climb (repo.size + 1) [] d

/-- The target of the first edge marked default.  A type without edges needs no
default interface; one with edges has to mark one. -/
def TypeDef.defaultInterface? (d : TypeDef) : Except Fault (Option TypeRef) :=
  match d.edges.find? Edge.isDefault with
  | some edge => .ok (some edge.target)
  | none => if d.edges.isEmpty then .ok none else .error (.missingDefaultInterface d.name)

/-- A class that declares interfaces has to mark a default one. -/
def TypeDef.checkDefault (d : TypeDef) : Except Fault Unit :=
  if d.kind = .classType then d.defaultInterface?.map fun _ => () else .ok ()

/-- Whether an edge leads, without instantiation, to the interface printed so. -/
def Edge.targets (e : Edge) (repo : Repository) (renderer : Renderer) (text : String) :
    Except Fault Bool :=
  if e.target.isInst then
    return false
  else
    return (← renderer.name repo e.target .empty) == text

theorem Edge.targets_of_printed {e : Edge} {repo : Repository} {renderer : Renderer}
    (printed : renderer.name repo e.target .empty = .ok (renderer.type repo e.target .empty))
    (text : String) :
    e.targets repo renderer text =
      .ok (!e.target.isInst && renderer.type repo e.target .empty == text) := by
  rw [targets, printed]
  cases e.target.isInst <;> rfl

def TypeDef.declares (d : TypeDef) (repo : Repository) (renderer : Renderer) (text : String) :
    Except Fault Bool :=
  d.edges.anyM (·.targets repo renderer text)

def TypeDef.implements (d : TypeDef) (repo : Repository) (renderer : Renderer) (text : String) :
    Except Fault Bool := do
  if ← d.declares repo renderer text then
    return true
  else
    (← d.bases repo).anyM fun h => do (← repo.get h).declares repo renderer text

end InterfaceSurface
