import InterfaceSurface.Metadata.Signature

/-! # Faults

Why a question about a type has no answer.  The first three name the type that
is to blame and end the work on one type only; the last two are mistakes of
whoever asks: a handle that the repository never issued, and an interface graph
in which an interface requires itself. -/
set_option autoImplicit false
namespace InterfaceSurface

inductive Fault
  | unresolved (name : TypeName)
  | missingDefaultInterface (type : TypeName)
  | missingDelegateInvoke (type : TypeName)
  | unissued (handle : Handle)
  | interfaceCycle
deriving DecidableEq, Repr

namespace Fault

def message : Fault → String
  | .unresolved name => "type '" ++ name.display ++ "' could not be found"
  | .missingDefaultInterface type =>
    "type '" ++ type.display ++ "' does not have a default interface"
  | .missingDelegateInvoke type => "delegate '" ++ type.display ++ "' has no Invoke method"
  | .unissued handle => "handle " ++ toString handle.index ++ " was never issued"
  | .interfaceCycle => "an interface requires itself"

/-- The type to blame, where there is one. -/
def blamed? : Fault → Option TypeName
  | .unresolved name => some name
  | .missingDefaultInterface type => some type
  | .missingDelegateInvoke type => some type
  | .unissued _ => none
  | .interfaceCycle => none

end Fault
end InterfaceSurface
