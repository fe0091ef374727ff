import InterfaceSurface.Metadata.Repository
import InterfaceSurface.Naming.Scope

/-! # Renderers

A renderer prints references and signatures.  The printed text of an interface
is the key it has in a surface, so a renderer should print different interfaces
differently; nothing here relies on more than that equal questions get equal
answers.

`display` prints dotted names, arguments between angle brackets, and a pair of
square brackets after the item of an array.  `name` asks any renderer, after
making sure that every handle the text depends on was issued. -/
set_option autoImplicit false
namespace InterfaceSurface

structure Renderer where
  type : Repository → TypeRef → Scope → String
  sig : Repository → TypeSig → Scope → String

/-- The name a reference points at; an unissued handle has the empty name. -/
def Repository.rootName (repo : Repository) (ref : TypeRef) : TypeName :=
  match repo.nameOf ref with
  | .ok name => name
  | .error _ => ⟨"", ""⟩

/-- The text of an instantiation whose arguments are printed already. -/
def instText (head : String) (args : List String) : String :=
  head ++ "<" ++ String.intercalate ", " args ++ ">"

/-- A parameter without an argument prints as its position after a `T`. -/
def paramText (scope : Scope) (position : Nat) : String :=
  match scope.arg? position with
  | some text => text
  | none => "T" ++ toString position

mutual

def displayType (repo : Repository) (scope : Scope) : TypeRef → String
  | .handle target => (repo.rootName (.handle target)).display
  | .named name => name.display
  | .inst head args => instText (repo.rootName head).display (displayArgs repo scope args)

def displaySig (repo : Repository) (scope : Scope) : TypeSig → String
  | .element item => item.name
  | .ref target => displayType repo scope target
  | .inst head args => instText (repo.rootName head).display (displayArgs repo scope args)
  | .param position => paramText scope position
  | .array item => displaySig repo scope item ++ "[]"

def displayArgs (repo : Repository) (scope : Scope) : List TypeSig → List String
  | [] => []
  | arg :: rest => displaySig repo scope arg :: displayArgs repo scope rest

end

theorem displayArgs_eq_map (repo : Repository) (scope : Scope) (args : List TypeSig) :
    displayArgs repo scope args = args.map fun arg => displaySig repo scope arg := by
  induction args with
  | nil => rfl
  | cons arg rest ih => rw [displayArgs, ih, List.map_cons]

namespace Renderer

def display : Renderer where
  type repo ref scope := displayType repo scope ref
  sig repo sig scope := displaySig repo scope sig

def map (f : String → String) (r : Renderer) : Renderer where
  type repo ref scope := f (r.type repo ref scope)
  sig repo sig scope := f (r.sig repo sig scope)

def name (r : Renderer) (repo : Repository) (ref : TypeRef) (scope : Scope) :
    Except Fault String :=
  match repo.checkIssued ref.printedHandles with
  | .ok _ => .ok (r.type repo ref scope)
  | .error fault => .error fault

def text (r : Renderer) (repo : Repository) (sig : TypeSig) (scope : Scope) :
    Except Fault String :=
  match repo.checkIssued sig.printedHandles with
  | .ok _ => .ok (r.sig repo sig scope)
  | .error fault => .error fault

end Renderer
end InterfaceSurface
