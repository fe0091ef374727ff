import InterfaceSurface.Inheritance
import InterfaceSurface.Settings

/-! # Exclusive interfaces

An interface may be exclusive to one class, which then is the only type to
implement it, so there is no reason to produce it for anyone else.  Two cases
remain: the class lets derived types override the interface, or the run
generates the component that implements the class. -/
set_option autoImplicit false
namespace InterfaceSurface

namespace TypeDef

/-- The definition carries the mark of an exclusive interface, whether or not
the mark names a class. -/
def hasExclusiveMark (d : TypeDef) : Bool :=
  Attribute.hasKnown d.attributes .exclusiveTo

/-- The class that the first mark names. -/
def exclusiveTo? (d : TypeDef) : Option TypeName :=
  (Attribute.firstKnown? d.attributes .exclusiveTo).bind Attribute.firstType?

/-- The class has an overridable edge to the interface printed so. -/
def letsOverride (d : TypeDef) (repo : Repository) (renderer : Renderer) (text : String) :
    Except Fault Bool :=
  d.edges.anyM fun edge =>
    if edge.isOverridable then edge.targets repo renderer text else return false

def canProduce (d : TypeDef) (repo : Repository) (renderer : Renderer) (settings : Settings) :
    Except Fault Bool :=
  match d.exclusiveTo? with
  | none => .ok true
  | some owner => do
    let ownerDef ← repo.get (← repo.find owner)
    if ← ownerDef.letsOverride repo renderer d.name.display then
      return true
    else
      return settings.component && settings.componentFilter.includes owner.display

end TypeDef
end InterfaceSurface
