import InterfaceSurface.Metadata.TypeDef

/-! # Versions

A version packs its two halves into one word, the major one on top.  A type
has the version of its first well-formed version attribute: a contract version
with one argument carries the word there, one with any other number of
arguments carries it second, and a plain version carries it first. -/
set_option autoImplicit false
namespace InterfaceSurface

structure Version where
  major : UInt16
  minor : UInt16
deriving DecidableEq, Repr, Inhabited

namespace Version

instance : Ord Version where
  compare := compareLex (compareOn major) (compareOn minor)

instance : Std.TransOrd Version :=
  inferInstanceAs (Std.TransCmp (compareLex (compareOn major) (compareOn minor)))

instance : Std.LawfulEqOrd Version where
  eq_of_compare := by
    intro a b same
    obtain ⟨sameMajor, sameMinor⟩ := compareLex_eq_eq.mp same
    cases a
    cases b
    simp_all [compareOn]

def zero : Version := ⟨0, 0⟩

def ofPacked (packed : UInt32) : Version :=
  ⟨(packed >>> 16).toUInt16, (packed &&& 0xFFFF).toUInt16⟩

def packed (v : Version) : UInt32 :=
  (v.major.toUInt32 <<< 16) ||| v.minor.toUInt32

def display (v : Version) : String :=
  toString v.major ++ "." ++ toString v.minor

/-- The packed version in an attribute, if it is a well-formed version attribute. -/
def ofAttribute? (a : Attribute) : Option UInt32 :=
  if a.isKnown .contractVersion then
    if a.args.length = 1 then a.wordArg? 0 else a.wordArg? 1
  else if a.isKnown .version then a.wordArg? 0
  else none

end Version

/-- A type without a well-formed version attribute has version 0.0. -/
def TypeDef.version (d : TypeDef) : Version :=
  match d.attributes.findSome? Version.ofAttribute? with
  | some packed => .ofPacked packed
  | none => .zero

end InterfaceSurface
