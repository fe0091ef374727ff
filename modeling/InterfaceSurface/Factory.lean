import InterfaceSurface.Naming.Renderer

/-! # Factories

Attributes of a class tell how it is constructed: activation, perhaps through a
factory interface; an interface with static members; or composition, with an
enum value that is two when everyone may construct the composed instance.  The
factories of a class are kept under the printed names of their interfaces, and
under the empty name for the implicit one; of two with the same name the later
stays. -/
set_option autoImplicit false
namespace InterfaceSurface

inductive FactoryKind
  | activatable
  | statics
  | composable (visible : Bool)
deriving DecidableEq, Repr

/-- A factory without a type is the implicit activation factory. -/
structure Factory where
  type : Option Handle
  kind : FactoryKind
deriving DecidableEq, Repr

abbrev Factories := Std.TreeMap String Factory

namespace FactoryKind

/-- The enum value of a composition that everyone may construct. -/
def publicComposition : Int := 2

def ofAttribute? (a : Attribute) : Option FactoryKind :=
  if a.isKnown .activatable then some .activatable
  else if a.isKnown .static then some .statics
  else if a.isKnown .composable then
    some (.composable (a.firstEnum?.any (·.value == publicComposition)))
  else none

def isComposable : FactoryKind → Bool
  | .composable _ => true
  | _ => false

end FactoryKind

namespace Factory

/-- The interface an attribute names, which has to be present. -/
def typeOf (repo : Repository) (a : Attribute) : Except Fault (Option Handle) :=
  match a.firstType? with
  | some name => (repo.find name).map some
  | none => .ok none

def key (repo : Repository) (renderer : Renderer) (factory : Factory) : Except Fault String :=
  match factory.type with
  | some h => renderer.name repo (.handle h) .empty
  | none => .ok ""

def hasMethods (repo : Repository) (factory : Factory) : Bool :=
  match factory.type.bind repo.get? with
  | some d => !d.methods.isEmpty
  | none => false

end Factory

namespace Factories

def addAttribute (repo : Repository) (renderer : Renderer) (factories : Factories)
    (a : Attribute) : Except Fault Factories :=
  match FactoryKind.ofAttribute? a with
  | none => .ok factories
  | some kind => do
    let factory : Factory := ⟨← Factory.typeOf repo a, kind⟩
    return factories.insert (← factory.key repo renderer) factory

/-- The implicit factory, or a factory interface that has methods. -/
def hasMembers (repo : Repository) (factories : Factories) : Bool :=
  factories.values.any fun factory => factory.type.isNone || factory.hasMethods repo

def isComposable (factories : Factories) : Bool :=
  factories.values.any (·.kind.isComposable)

def hasComposableConstructors (repo : Repository) (factories : Factories) : Bool :=
  factories.values.any fun factory => factory.kind.isComposable && factory.hasMethods repo

end Factories

def TypeDef.factories (d : TypeDef) (repo : Repository) (renderer : Renderer) :
    Except Fault Factories :=
  d.attributes.foldlM (Factories.addAttribute repo renderer) ∅

end InterfaceSurface
