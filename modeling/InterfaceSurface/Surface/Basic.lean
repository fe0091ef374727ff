import InterfaceSurface.Naming.Scope
import InterfaceSurface.Version

/-! # Surfaces

The surface of a type lists the interfaces it exposes under their printed
names.  A name keeps the place of its first insertion; a later insertion only
changes what is said about it.  `reorder` takes entries in a new order as they
are, and makes the index from their places.  `Indexed` is what every operation
keeps: the index holds exactly the places of the names, so no name occurs
twice. -/
set_option autoImplicit false
namespace InterfaceSurface

/-- What a surface says about one interface.

`isDefault`: the edge that found it is marked default.
`defaulted`: it was reached from the type itself through an edge marked default.
`overridable`: it was reached through an overridable edge.
`base`: it was reached through a base class only.
`exclusive`: its definition carries the mark of an exclusive interface.
`leading`: it has a place in the leading part of the fast dispatch layout.
`scope`: the frames of printed arguments of the instantiations that led to it. -/
structure Facet where
  type : Handle
  isDefault : Bool
  defaulted : Bool
  overridable : Bool
  base : Bool
  exclusive : Bool
  leading : Bool
  version : Version
  scope : Scope
deriving DecidableEq, Repr

/-- An interface in a surface: its printed name and what is said about it. -/
abbrev Exposure := String × Facet

structure Surface where
  entries : Array Exposure
  index : Std.TreeMap String Nat

namespace Surface

def empty : Surface := ⟨#[], ∅⟩

instance : EmptyCollection Surface := ⟨empty⟩
instance : Inhabited Surface := ⟨empty⟩

def toList (s : Surface) : List Exposure := s.entries.toList

def names (s : Surface) : List String := s.toList.map Prod.fst

def size (s : Surface) : Nat := s.entries.size

def isEmpty (s : Surface) : Bool := s.entries.isEmpty

def get? (s : Surface) (name : String) : Option Facet :=
  s.index[name]?.bind fun place => s.entries[place]?.map Prod.snd

def contains (s : Surface) (name : String) : Bool := s.index.contains name

/-- Overwrites the name's entry in its place, or appends a new one. -/
def insertOrAssign (s : Surface) (name : String) (facet : Facet) : Surface :=
  match s.index[name]? with
  | some place => { s with entries := s.entries.setIfInBounds place (name, facet) }
  | none => ⟨s.entries.push (name, facet), s.index.insert name s.entries.size⟩

/-- The index that names alone give: each leads to its place, a repeated one to the last. -/
def placesOf (names : List String) : Std.TreeMap String Nat :=
  names.zipIdx.foldl (fun index entry => index.insert entry.1 entry.2) ∅

/-- The surface of these entries, in this order.  It is `Indexed` if no name is repeated. -/
def reorder (entries : List Exposure) : Surface :=
  ⟨entries.toArray, placesOf (entries.map Prod.fst)⟩

/-- The index leads to a place exactly when the name's entry stands there. -/
def Indexed (s : Surface) : Prop :=
  ∀ (name : String) (place : Nat),
    s.index[name]? = some place ↔ ∃ facet, s.entries[place]? = some (name, facet)

theorem indexed_empty : Indexed empty := by
  intro name place
  simp [empty]

end Surface
end InterfaceSurface
