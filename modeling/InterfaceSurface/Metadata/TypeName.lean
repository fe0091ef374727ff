import Std.Data.TreeMap

/-! # Qualified type names

A type name has a namespace and a simple name; the simple name of a generic
definition keeps its arity suffix.  A dotted text is split at its *last* dot,
so the namespace may hold dots and the simple name may not.  Names are ordered
by namespace and then by simple name, both by code point. -/
set_option autoImplicit false
namespace InterfaceSurface

structure TypeName where
  space : String
  name : String
deriving DecidableEq, Repr, Inhabited

namespace TypeName

/-- Splits a text around its last dot; `none` when it has no dot. -/
def splitAtLastDot : List Char → Option (List Char × List Char)
  | [] => none
  | c :: rest =>
    match splitAtLastDot rest with
    | some (front, back) => some (c :: front, back)
    | none => if c = '.' then some ([], rest) else none

/-- A text without a dot is a simple name in the empty namespace. -/
def parse (text : String) : TypeName :=
  match splitAtLastDot text.toList with
  | some (front, back) => ⟨String.ofList front, String.ofList back⟩
  | none => ⟨"", text⟩

/-- The dotted text; the dot is left out when the namespace is empty. -/
def display (n : TypeName) : String :=
  if n.space.isEmpty then n.name else n.space ++ "." ++ n.name

instance : Ord TypeName where
  compare := compareLex (compareOn space) (compareOn name)

instance : Std.TransOrd TypeName :=
  inferInstanceAs (Std.TransCmp (compareLex (compareOn space) (compareOn name)))

instance : Std.LawfulEqOrd TypeName where
  eq_of_compare := by
    intro a b same
    obtain ⟨sameSpace, sameName⟩ := compareLex_eq_eq.mp same
    cases a
    cases b
    simp_all [compareOn]

/-- The implicit root of every class hierarchy. -/
def systemObject : TypeName := ⟨"System", "Object"⟩

/-- The identifier value type, which component metadata never defines. -/
def systemGuid : TypeName := ⟨"System", "Guid"⟩

end TypeName
end InterfaceSurface
