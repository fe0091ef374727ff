import InterfaceSurface.Fault
import InterfaceSurface.Metadata.TypeDef

/-! # The repository

Definitions in insertion order, with an index by name.  A handle is the
position of its definition, so it stays good under later insertions; a later
definition of a name takes the name over, and the earlier one keeps its handle.
`index_agrees` says that the index always holds the last definition of a name. -/
set_option autoImplicit false
namespace InterfaceSurface

/-- The position of the last definition of a name. -/
def lastNamed? (name : TypeName) : List TypeDef → Option Nat
  | [] => none
  | d :: rest =>
    match lastNamed? name rest with
    | some position => some (position + 1)
    | none => if d.name = name then some 0 else none

theorem lastNamed?_append_singleton (name : TypeName) (d : TypeDef) :
    ∀ types : List TypeDef, lastNamed? name (types ++ [d]) =
      if d.name = name then some types.length else lastNamed? name types := by
  intro types
  induction types with
  | nil => simp [lastNamed?]
  | cons first rest ih =>
      simp only [List.cons_append, lastNamed?, ih]
      by_cases same : d.name = name <;> simp [same]

/-- The number a handle is given out as: 32 bits, and the largest number stands for all handles
beyond. -/
def Handle.number (h : Handle) : UInt32 := UInt32.ofNat (min h.index (UInt32.size - 1))

structure Repository where
  types : Array TypeDef
  index : Std.TreeMap TypeName Handle
  index_agrees : ∀ name : TypeName,
    index[name]? = (lastNamed? name types.toList).map Handle.mk

namespace Repository

def empty : Repository where
  types := #[]
  index := ∅
  index_agrees := by simp [lastNamed?]

instance : EmptyCollection Repository := ⟨empty⟩
instance : Inhabited Repository := ⟨empty⟩

def size (repo : Repository) : Nat := repo.types.size

def isEmpty (repo : Repository) : Bool := repo.types.isEmpty

/-- The handle that the next definition will have; its `number` is what is given out. -/
def nextHandle (repo : Repository) : Handle := ⟨repo.types.size⟩

def insert (repo : Repository) (d : TypeDef) : Repository where
  types := repo.types.push d
  index := repo.index.insert d.name repo.nextHandle
  index_agrees := by
    intro name
    have agrees := repo.index_agrees name
    simp only [Std.TreeMap.getElem?_insert, Array.toList_push, lastNamed?_append_singleton,
      Std.LawfulEqCmp.compare_eq_iff_eq]
    by_cases same : d.name = name
    · simp [same, nextHandle]
    · simp [same, agrees]

def ofList (types : List TypeDef) : Repository := types.foldl insert empty

def toList (repo : Repository) : List TypeDef := repo.types.toList

/-- The definitions with their handles, in the order of insertion. -/
def listing (repo : Repository) : List (Handle × TypeDef) :=
  repo.toList.mapIdx fun position d => (⟨position⟩, d)

def get? (repo : Repository) (h : Handle) : Option TypeDef := repo.types[h.index]?

/-- The definition behind a handle that is taken to be issued. -/
def get (repo : Repository) (h : Handle) : Except Fault TypeDef :=
  match repo.get? h with
  | some d => .ok d
  | none => .error (.unissued h)

/-- Fails at the first handle that was never issued. -/
def checkIssued (repo : Repository) : List Handle → Except Fault Unit
  | [] => .ok ()
  | h :: rest =>
    match repo.get? h with
    | some _ => repo.checkIssued rest
    | none => .error (.unissued h)

def find? (repo : Repository) (name : TypeName) : Option Handle := repo.index[name]?

/-- The handle of a name that has to be present. -/
def find (repo : Repository) (name : TypeName) : Except Fault Handle :=
  match repo.find? name with
  | some h => .ok h
  | none => .error (.unresolved name)

/-- The definition a reference points at; an instantiation points at its
generic definition.  A handle is passed on unread. -/
def resolve (repo : Repository) : TypeRef → Except Fault Handle
  | .handle target => .ok target
  | .named name => repo.find name
  | .inst head _ => repo.resolve head

/-- The name a reference points at, whether or not that name is present. -/
def nameOf (repo : Repository) : TypeRef → Except Fault TypeName
  | .handle target => (repo.get target).map TypeDef.name
  | .named name => .ok name
  | .inst head _ => repo.nameOf head

/-- The enumerator of a value: the first field of the enum with that constant. -/
def enumeratorName? (repo : Repository) (value : EnumValue) : Option String := do
  let d ← repo.get? (← repo.find? value.enumType)
  let field ← d.fields.find? (·.constant == some value.value)
  return field.name

end Repository
end InterfaceSurface
