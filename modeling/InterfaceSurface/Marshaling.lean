import InterfaceSurface.Metadata.Repository

/-! # Marshaling categories

How a value of a signature crosses the binary interface.  Every shape of
signature has exactly one category; only a type by name that is not present
keeps a signature from having one. -/
set_option autoImplicit false
namespace InterfaceSurface

inductive MarshalCategory
  | generic
  | object
  | string
  | enumeration
  | struct
  | array
  | fundamental
deriving DecidableEq, Repr

namespace MarshalCategory

def ofElement : Element → MarshalCategory
  | .string => .string
  | .object => .object
  | _ => .fundamental

def ofKind : TypeKind → MarshalCategory
  | .structType => .struct
  | .enumType => .enumeration
  | .interfaceType => .object
  | .classType => .object
  | .delegateType => .object

end MarshalCategory

/-- A category, with the definition it was read from where there is one. -/
structure Marshaling where
  category : MarshalCategory
  definition : Option Handle
deriving DecidableEq, Repr

namespace Marshaling

def ofHandle (repo : Repository) (h : Handle) : Except Fault Marshaling :=
  (repo.get h).map fun d => ⟨.ofKind d.kind, some h⟩

/-- The identifier value type is a struct that is never looked up. -/
def ofRef (repo : Repository) : TypeRef → Except Fault Marshaling
  | .handle target => ofHandle repo target
  | .named name =>
    if name = TypeName.systemGuid then .ok ⟨.struct, none⟩
    else do ofHandle repo (← repo.find name)
  | .inst _ _ => .ok ⟨.object, none⟩

def ofSig (repo : Repository) : TypeSig → Except Fault Marshaling
  | .element item => .ok ⟨.ofElement item, none⟩
  | .ref target => ofRef repo target
  | .inst _ _ => .ok ⟨.object, none⟩
  | .param _ => .ok ⟨.generic, none⟩
  | .array _ => .ok ⟨.array, none⟩

end Marshaling

def TypeSig.isObject : TypeSig → Bool
  | .element .object => true
  | _ => false

end InterfaceSurface
