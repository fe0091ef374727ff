import InterfaceSurface.Metadata.TypeName

/-! # References and signatures

A reference points at a definition: by the handle the repository issued for
it, by name, or as an instantiation of a generic definition with arguments.  A
signature is the shape of a parameter, a result or a field.  The two are
mutually recursive through the arguments of instantiations. -/
set_option autoImplicit false
namespace InterfaceSurface

/-- The position of a definition in the repository that issued the handle. -/
structure Handle where
  index : Nat
deriving DecidableEq, Repr, Inhabited

inductive Element
  | boolean
  | char
  | int8
  | uint8
  | int16
  | uint16
  | int32
  | uint32
  | int64
  | uint64
  | float32
  | float64
  | string
  | object
deriving DecidableEq, Repr

def Element.name : Element → String
  | .boolean => "Boolean"
  | .char => "Char"
  | .int8 => "SByte"
  | .uint8 => "Byte"
  | .int16 => "Int16"
  | .uint16 => "UInt16"
  | .int32 => "Int32"
  | .uint32 => "UInt32"
  | .int64 => "Int64"
  | .uint64 => "UInt64"
  | .float32 => "Single"
  | .float64 => "Double"
  | .string => "String"
  | .object => "Object"

mutual

inductive TypeRef
  | handle (target : Handle)
  | named (name : TypeName)
  | inst (head : TypeRef) (args : List TypeSig)

/-- A parameter stands for the generic parameter at that position in the enclosing
definition. -/
inductive TypeSig
  | element (item : Element)
  | ref (target : TypeRef)
  | inst (head : TypeRef) (args : List TypeSig)
  | param (index : Nat)
  | array (item : TypeSig)

end

instance : Inhabited TypeRef := ⟨.named default⟩
instance : Inhabited TypeSig := ⟨.element .object⟩

namespace TypeRef

def isInst : TypeRef → Bool
  | .inst _ _ => true
  | _ => false

/-- The handle at the root, when the root is given by handle. -/
def rootHandles : TypeRef → List Handle
  | .handle target => [target]
  | .named _ => []
  | .inst head _ => head.rootHandles

/-- What holds at the root of a reference, and passes from what is instantiated to the
instantiation, holds of the reference. -/
@[elab_as_elim]
theorem headInduction {motive : TypeRef → Prop} (handle : ∀ target, motive (.handle target))
    (named : ∀ name, motive (.named name))
    (inst : ∀ head args, motive head → motive (.inst head args)) : ∀ ref, motive ref
  | .handle target => handle target
  | .named name => named name
  | .inst head args => inst head args (headInduction handle named inst head)

end TypeRef

/-! ## Handles that printing reads

Printing an instantiation reads its own arguments and its root; arguments that
belong to a nested head are not part of the printed text. -/

mutual

def TypeRef.printedHandles : TypeRef → List Handle
  | .handle target => [target]
  | .named _ => []
  | .inst head args => TypeSig.printedHandlesOfArgs args ++ head.rootHandles

def TypeSig.printedHandles : TypeSig → List Handle
  | .element _ => []
  | .ref target => target.printedHandles
  | .inst head args => TypeSig.printedHandlesOfArgs args ++ head.rootHandles
  | .param _ => []
  | .array item => item.printedHandles

def TypeSig.printedHandlesOfArgs : List TypeSig → List Handle
  | [] => []
  | arg :: rest => arg.printedHandles ++ TypeSig.printedHandlesOfArgs rest

end

end InterfaceSurface
