/-! # Argument scopes

While a walk goes through instantiations it keeps one frame of printed
arguments for each of them.  A generic parameter reads the innermost frame only:
the arguments there were printed in the enclosing scope, so nesting composes. -/
set_option autoImplicit false
namespace InterfaceSurface

/-- Frames of printed arguments, innermost first. -/
structure Scope where
  frames : List (List String)
deriving DecidableEq, Repr

namespace Scope

def empty : Scope := ⟨[]⟩

instance : EmptyCollection Scope := ⟨empty⟩
instance : Inhabited Scope := ⟨empty⟩

def push (scope : Scope) (args : List String) : Scope := ⟨args :: scope.frames⟩

def innermost? (scope : Scope) : Option (List String) := scope.frames.head?

def arg? (scope : Scope) (position : Nat) : Option String :=
  scope.innermost?.bind (·[position]?)

def depth (scope : Scope) : Nat := scope.frames.length

def isEmpty (scope : Scope) : Bool := scope.frames.isEmpty

def outermostFirst (scope : Scope) : List (List String) := scope.frames.reverse

/-- The scope whose frames are given outermost first. -/
def ofOutermostFirst (frames : List (List String)) : Scope := ⟨frames.reverse⟩

end Scope
end InterfaceSurface
