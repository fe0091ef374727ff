import InterfaceSurface.FeatureStage
import InterfaceSurface.Inheritance
import InterfaceSurface.Surface.Basic

/-! # The fast dispatch layout

A class may ask for a compact dispatch table whose first slots belong to a fixed
leading part of its surface.  That part has as many places as there are own,
exclusive interfaces that are not overridable.  It is filled with the least
entries under the layout key, in the order of the key, and they are marked as
leading; all other entries follow in the order they had.

The key prefers own to base, default to other, fixed to overridable, exclusive
to shared, available everywhere to gated, then the lower version, then the
smaller name. -/
set_option autoImplicit false
namespace InterfaceSurface

/-- An entry's place in the layout; `false` comes first in every flag. -/
structure LayoutKey where
  base : Bool
  otherThanDefault : Bool
  overridable : Bool
  shared : Bool
  gated : Bool
  version : Version
  name : String
deriving DecidableEq, Repr

namespace LayoutKey

def order : LayoutKey → LayoutKey → Ordering :=
  compareLex (compareOn base) <| compareLex (compareOn otherThanDefault) <|
  compareLex (compareOn overridable) <| compareLex (compareOn shared) <|
  compareLex (compareOn gated) <| compareLex (compareOn version) (compareOn name)

instance : Ord LayoutKey := ⟨order⟩

instance : Std.TransOrd LayoutKey :=
  inferInstanceAs (Std.TransCmp
    (compareLex (compareOn base) <| compareLex (compareOn otherThanDefault) <|
    compareLex (compareOn overridable) <| compareLex (compareOn shared) <|
    compareLex (compareOn gated) <| compareLex (compareOn version) (compareOn name)))

instance : Std.LawfulEqOrd LayoutKey where
  eq_of_compare := by
    intro a b same
    obtain ⟨base, same⟩ := compareLex_eq_eq.mp same
    obtain ⟨otherThanDefault, same⟩ := compareLex_eq_eq.mp same
    obtain ⟨overridable, same⟩ := compareLex_eq_eq.mp same
    obtain ⟨shared, same⟩ := compareLex_eq_eq.mp same
    obtain ⟨gated, same⟩ := compareLex_eq_eq.mp same
    obtain ⟨version, name⟩ := compareLex_eq_eq.mp same
    cases a
    cases b
    simp_all [compareOn]

end LayoutKey

def Repository.isAlwaysEnabled (repo : Repository) (h : Handle) : Bool :=
  match repo.get? h with
  | some d => d.isAlwaysEnabled repo
  | none => true

def Repository.methodCount (repo : Repository) (h : Handle) : Nat :=
  match repo.get? h with
  | some d => d.methods.length
  | none => 0

namespace Exposure

def layoutKey (repo : Repository) (entry : Exposure) : LayoutKey where
  base := entry.2.base
  otherThanDefault := !entry.2.isDefault
  overridable := entry.2.overridable
  shared := !entry.2.exclusive
  gated := !repo.isAlwaysEnabled entry.2.type
  version := entry.2.version
  name := entry.1

/-- The entry adds a place to the leading part; it need not get one itself. -/
def eligible (entry : Exposure) : Bool :=
  entry.2.exclusive && !entry.2.base && !entry.2.overridable

def markLeading (entry : Exposure) : Exposure :=
  (entry.1, { entry.2 with leading := true })

def precedes (repo : Repository) (a b : Exposure) : Bool :=
  (compare (layoutKey repo a) (layoutKey repo b)).isLE

end Exposure

namespace Surface

def leadingCount (s : Surface) : Nat := s.toList.countP Exposure.eligible

/-- The entries with their places, sorted by the layout key; entries with equal
keys keep their order. -/
def ranked (repo : Repository) (s : Surface) : List (Exposure × Nat) :=
  s.toList.zipIdx.mergeSort fun a b => Exposure.precedes repo a.1 b.1

/-- The entries that fill the leading part, with the places they come from. -/
def leadingPart (repo : Repository) (s : Surface) : List (Exposure × Nat) :=
  (s.ranked repo).take s.leadingCount

/-- The entries that are not in the leading part, in the order they had. -/
def remainder (repo : Repository) (s : Surface) : List Exposure :=
  let taken := (s.leadingPart repo).map Prod.snd
  (s.toList.zipIdx.filter fun entry => !taken.contains entry.2).map Prod.fst

/-- The surface in layout order, with the leading part marked. -/
def layOut (repo : Repository) (s : Surface) : Surface :=
  .reorder ((s.leadingPart repo).map (Exposure.markLeading ·.1) ++ s.remainder repo)

def order (repo : Repository) (s : Surface) (enabled : Bool) : Surface :=
  if enabled then s.layOut repo else s

/-- The methods of the marked entries at the head of the surface. -/
def leadingMethods (repo : Repository) (s : Surface) : Nat :=
  (s.toList.takeWhile (·.2.leading)).foldr
    (fun entry count => repo.methodCount entry.2.type + count) 0

/-- Whether the first entry other than a default one is marked as leading. -/
def needsTearOffs (s : Surface) : Bool :=
  match s.toList.find? (!·.2.isDefault) with
  | some entry => entry.2.leading
  | none => false

end Surface

/-- The slots of the object itself: three methods each of its two basic
interfaces. -/
def headerSlots : Nat := 6

/-- The number of dispatch slots of a class whose surface is laid out already:
the header, one for each base class, and the methods of the leading part.  A
class without the fast dispatch layout has none. -/
def TypeDef.slotCount (d : TypeDef) (repo : Repository) (s : Surface) (settings : Settings) :
    Except Fault Nat :=
  if d.usesFastAbi settings then do
    return headerSlots + (← d.bases repo).length + s.leadingMethods repo
  else
    return 0

end InterfaceSurface
