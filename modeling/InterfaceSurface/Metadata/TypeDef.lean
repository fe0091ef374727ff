import InterfaceSurface.Metadata.Method

/-! # Type definitions

The records a repository holds.  An edge says that a type implements an
interface; whether the interface is the type's default, and whether derived
types may override it, is told by attributes of the edge. -/
set_option autoImplicit false
namespace InterfaceSurface

inductive TypeKind
  | interfaceType
  | classType
  | structType
  | enumType
  | delegateType
deriving DecidableEq, Repr

structure Edge where
  target : TypeRef
  attributes : List Attribute

namespace Edge

def isDefault (e : Edge) : Bool :=
  Attribute.hasKnown e.attributes .default

def isOverridable (e : Edge) : Bool :=
  Attribute.hasKnown e.attributes .overridable

def withAttribute (e : Edge) (a : Attribute) : Edge :=
  { e with attributes := e.attributes ++ [a] }

def markDefault (e : Edge) : Edge :=
  e.withAttribute (.metadata KnownAttribute.default.simpleName [])

def markOverridable (e : Edge) : Edge :=
  e.withAttribute (.metadata KnownAttribute.overridable.simpleName [])

end Edge

/-- A field; an enumerator carries its value as the constant. -/
structure Field where
  name : String
  type : TypeSig
  constant : Option Int

def Field.enumerator (name : String) (value : Int) : Field :=
  ⟨name, .element .int32, some value⟩

/-- No base and the base `System.Object` both mean that there is no base class. -/
structure TypeDef where
  name : TypeName
  kind : TypeKind
  genericParams : List String
  base : Option TypeRef
  edges : List Edge
  methods : List Method
  fields : List Field
  attributes : List Attribute

end InterfaceSurface
