import InterfaceSurface.Metadata.Attribute
import InterfaceSurface.Metadata.Signature

/-! # Methods

A method keeps two tables that need not agree: rows, which name parameters and
number them from one with zero for the result, and signature parameters, which
give the types.  The builders below keep them in step: `param` appends to both,
and `returningNamed` puts the one row for the result in front. -/
set_option autoImplicit false
namespace InterfaceSurface

/-- The method attribute bits that are kept; all others are dropped. -/
structure MethodFlags where
  bits : UInt16
deriving DecidableEq, Repr

namespace MethodFlags

def empty : MethodFlags := ⟨0⟩

/-- The union of the seven known bits. -/
def mask : UInt16 := 0x1CF0

def specialNameBit : UInt16 := 0x0800

def specialName : MethodFlags := ⟨specialNameBit⟩

def ofWord (word : UInt16) : MethodFlags := ⟨word &&& mask⟩

def union (a b : MethodFlags) : MethodFlags := ⟨a.bits ||| b.bits⟩

def isSpecialName (flags : MethodFlags) : Bool :=
  flags.bits &&& specialNameBit == specialNameBit

end MethodFlags

/-- A named row of a method; sequence zero is the result. -/
structure ParamRow where
  name : String
  sequence : UInt16
deriving DecidableEq, Repr

structure ParamSig where
  type : TypeSig
  byRef : Bool

structure Method where
  name : String
  flags : MethodFlags
  rows : Array ParamRow
  result : Option TypeSig
  params : Array ParamSig
  attributes : List Attribute

namespace Method

def ofName (name : String) : Method :=
  ⟨name, .empty, #[], none, #[], []⟩

def withFlags (m : Method) (flags : MethodFlags) : Method :=
  { m with flags := m.flags.union flags }

def special (m : Method) : Method :=
  m.withFlags .specialName

/-- Sets the result type and adds no row. -/
def returning (m : Method) (type : TypeSig) : Method :=
  { m with result := some type }

/-- Sets the result type and makes the given name its only row. -/
def returningNamed (m : Method) (name : String) (type : TypeSig) : Method :=
  { m with
    result := some type
    rows := #[⟨name, 0⟩] ++ m.rows.filter (·.sequence != 0) }

/-- The number of the next parameter, which stays at its largest value once it
has reached it. -/
def nextSequence (m : Method) : UInt16 :=
  UInt16.ofNat (min (m.params.size + 1) 65535)

def param (m : Method) (name : String) (type : TypeSig) : Method :=
  { m with
    rows := m.rows.push ⟨name, m.nextSequence⟩
    params := m.params.push ⟨type, false⟩ }

def withAttribute (m : Method) (a : Attribute) : Method :=
  { m with attributes := m.attributes ++ [a] }

end Method
end InterfaceSurface
