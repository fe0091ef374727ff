import InterfaceSurface.NameFilter

/-! # Settings of a run

What a run asks for: whether the fast dispatch layout is honoured, whether
feature gates are ignored, and whether the component's own implementation is
being generated, in which case the filter tells for which classes. -/
set_option autoImplicit false
namespace InterfaceSurface

structure Settings where
  fastAbi : Bool
  ignoreVelocity : Bool
  component : Bool
  componentFilter : NameFilter
deriving DecidableEq, Repr

def Settings.off : Settings := ⟨false, false, false, .empty⟩

instance : Inhabited Settings := ⟨.off⟩

end InterfaceSurface
