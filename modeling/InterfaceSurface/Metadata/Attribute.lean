import InterfaceSurface.Metadata.TypeName

/-! # Custom attributes

An attribute has a type and positional arguments.  Records carry lists of
attributes; a look-up takes the first of the wanted type.  Arguments are read
by shape: one of the wrong shape counts as missing. -/
set_option autoImplicit false
namespace InterfaceSurface

/-- An argument of an enum type: only its integral value is stored. -/
structure EnumValue where
  enumType : TypeName
  value : Int
deriving DecidableEq, Repr

inductive AttributeArg
  | bool (value : Bool)
  | int (value : Int)
  | word (value : UInt32)
  | text (value : String)
  | type (name : TypeName)
  | enumerator (value : EnumValue)
deriving DecidableEq, Repr

structure Attribute where
  type : TypeName
  args : List AttributeArg
deriving DecidableEq, Repr

namespace AttributeArg

def word? : AttributeArg → Option UInt32
  | .word value => some value
  | _ => none

def text? : AttributeArg → Option String
  | .text value => some value
  | _ => none

def type? : AttributeArg → Option TypeName
  | .type name => some name
  | _ => none

def enumerator? : AttributeArg → Option EnumValue
  | .enumerator value => some value
  | _ => none

end AttributeArg

inductive KnownAttribute
  | activatable
  | composable
  | contractVersion
  | default
  | exclusiveTo
  | fastAbi
  | feature
  | noException
  | overload
  | overridable
  | static
  | version
deriving DecidableEq, Repr

namespace KnownAttribute

def simpleName : KnownAttribute → String
  | .activatable => "ActivatableAttribute"
  | .composable => "ComposableAttribute"
  | .contractVersion => "ContractVersionAttribute"
  | .default => "DefaultAttribute"
  | .exclusiveTo => "ExclusiveToAttribute"
  | .fastAbi => "FastAbiAttribute"
  | .feature => "FeatureAttribute"
  | .noException => "NoExceptionAttribute"
  | .overload => "OverloadAttribute"
  | .overridable => "OverridableAttribute"
  | .static => "StaticAttribute"
  | .version => "VersionAttribute"

end KnownAttribute

namespace Attribute

def metadataSpace : String := "Windows.Foundation.Metadata"

def metadata (simpleName : String) (args : List AttributeArg) : Attribute :=
  ⟨⟨metadataSpace, simpleName⟩, args⟩

def isKnown (a : Attribute) (kind : KnownAttribute) : Bool :=
  a.type == ⟨metadataSpace, kind.simpleName⟩

def wordArg? (a : Attribute) (position : Nat) : Option UInt32 :=
  a.args[position]?.bind AttributeArg.word?

def textArg? (a : Attribute) (position : Nat) : Option String :=
  a.args[position]?.bind AttributeArg.text?

/-- The first type argument, wherever it stands. -/
def firstType? (a : Attribute) : Option TypeName :=
  a.args.findSome? AttributeArg.type?

/-- The first enum argument, wherever it stands. -/
def firstEnum? (a : Attribute) : Option EnumValue :=
  a.args.findSome? AttributeArg.enumerator?

def first? (attributes : List Attribute) (type : TypeName) : Option Attribute :=
  attributes.find? (·.type == type)

def firstKnown? (attributes : List Attribute) (kind : KnownAttribute) : Option Attribute :=
  attributes.find? (·.isKnown kind)

def hasKnown (attributes : List Attribute) (kind : KnownAttribute) : Bool :=
  attributes.any (·.isKnown kind)

end Attribute
end InterfaceSurface
