/-! # Name filters

A filter decides about a qualified name by the rules whose stems the name
starts with.  Rules are kept from the longest stem to the shortest, measured in
UTF-8 bytes, and among equally long ones the excluding rules stand first, so
the first matching rule is the one that decides.  A filter without rules
includes every name; one with rules excludes what no rule matches. -/
set_option autoImplicit false
namespace InterfaceSurface

structure FilterRule where
  stem : String
  includes : Bool
deriving DecidableEq, Repr

namespace FilterRule

def applies (rule : FilterRule) (name : String) : Bool :=
  rule.stem.toList.isPrefixOf name.toList

def precedes (a b : FilterRule) : Bool :=
  b.stem.utf8ByteSize < a.stem.utf8ByteSize ||
    (a.stem.utf8ByteSize == b.stem.utf8ByteSize && (!a.includes || b.includes))

end FilterRule

structure NameFilter where
  rules : List FilterRule
deriving DecidableEq, Repr

namespace NameFilter

def empty : NameFilter := ⟨[]⟩

instance : EmptyCollection NameFilter := ⟨empty⟩
instance : Inhabited NameFilter := ⟨empty⟩

/-- The rules as given: the including stems, then the excluding ones. -/
def declared (includes excludes : List String) : List FilterRule :=
  includes.map (⟨·, true⟩) ++ excludes.map (⟨·, false⟩)

/-- Sorts the rules; rules of one length and kind keep the given order. -/
def ofStems (includes excludes : List String) : NameFilter :=
  ⟨(declared includes excludes).mergeSort FilterRule.precedes⟩

def isEmpty (filter : NameFilter) : Bool := filter.rules.isEmpty

def includes (filter : NameFilter) (name : String) : Bool :=
  filter.isEmpty ||
    match filter.rules.find? (·.applies name) with
    | some rule => rule.includes
    | none => false

end NameFilter
end InterfaceSurface
