import InterfaceSurface.Proofs.Layout.Order

/-! # Surfaces and their histories

A surface tells its names twice: the entries bear them, and the index leads to their
places.  An insertion touches both halves at one place; an ordering moves the entries and
makes the index anew.  `InStep` is what ties the halves together, and it outlives every
change (`InStep.apply`), so it holds whatever a surface went through
(`inStep_ofChanges`).  From it: what look-ups and insertions read at a place taken from
the index is there, and is the entry of the name (`InStep.coherent`), and an insertion
leaves all else alone (`Indexed.assigned`). -/
set_option autoImplicit false
namespace InterfaceSurface
namespace Surface

/-- What can be done to a surface. -/
inductive Change
  | insert (name : String) (facet : Facet)
  | order (repo : Repository) (enabled : Bool)

def Change.apply (s : Surface) : Change → Surface
  | .insert name facet => s.insertOrAssign name facet
  | .order repo enabled => s.order repo enabled

/-- The surface after some changes, beginning with the empty one. -/
def ofChanges (changes : List Change) : Surface := changes.foldl Change.apply empty

/-- Where an insertion puts a name: at its place, or else behind all entries. -/
def placeFor (s : Surface) (name : String) : Nat := s.index[name]?.getD s.size

/-- The index agrees with the entries, and is the one that would be made from their names. -/
structure InStep (s : Surface) : Prop where
  indexed : s.Indexed
  rebuilt : s.index = placesOf s.names

/-- Both halves of a surface say the same.  A place in the index can be used without a test. -/
structure Coherent (s : Surface) : Prop where
  distinct : s.names.Nodup
  index_iff : ∀ (name : String) (place : Nat),
    s.index[name]? = some place ↔ ∃ facet, s.entries[place]? = some (name, facet)
  rebuilt : s.index = placesOf s.names
  inRange : ∀ (name : String) (place : Nat), s.index[name]? = some place →
    ∃ inRange : place < s.entries.size,
      s.entries[place].1 = name ∧ s.get? name = some s.entries[place].2
  get?_iff : ∀ name facet, s.get? name = some facet ↔ (name, facet) ∈ s.toList
  contains_iff : ∀ name, s.contains name = true ↔ name ∈ s.names

/-- `after` is `s` with the facet under the name, all other entries and all places as they
were.  Where the name is present, nothing but the facet at its place is overwritten. -/
structure Assigned (name : String) (facet : Facet) (s after : Surface) : Prop where
  entries : ∀ place, after.entries[place]? =
    if place = s.placeFor name then some (name, facet) else s.entries[place]?
  index : ∀ other, after.index[other]? =
    if other = name then some (s.placeFor name) else s.index[other]?
  names : after.names = if name ∈ s.names then s.names else s.names ++ [name]
  overwrites : ∀ place, s.index[name]? = some place →
    ∃ inRange : place < s.entries.size,
      after = { s with entries := s.entries.set place (s.entries[place].1, facet) inRange }

variable {s : Surface}

/-! ## Places -/

theorem length_names : s.names.length = s.entries.size := by simp [names, toList]

theorem placeFor_of_present {name : String} {place : Nat} (known : s.index[name]? = some place) :
    s.placeFor name = place := by
  rw [placeFor, known, Option.getD_some]

theorem placeFor_of_absent {name : String} (absent : s.index[name]? = none) :
    s.placeFor name = s.entries.size := by
  rw [placeFor, absent, Option.getD_none, size]

theorem index_insertOrAssign (name : String) (facet : Facet) (other : String) :
    (s.insertOrAssign name facet).index[other]? =
      if other = name then some (s.placeFor name) else s.index[other]? := by
  cases known : s.index[name]? with
  | some place =>
      rw [insertOrAssign_of_present known, placeFor_of_present known]
      by_cases same : other = name
      · rw [if_pos same, same, known]
      · rw [if_neg same]
  | none =>
      rw [insertOrAssign_of_absent known, placeFor_of_absent known]
      by_cases same : other = name
      · subst same
        simp
      · simp [Std.TreeMap.getElem?_insert, same, Ne.symm same]

namespace Indexed

theorem mem_names_of_index (indexed : s.Indexed) {name : String} {place : Nat}
    (known : s.index[name]? = some place) : name ∈ s.names := by
  obtain ⟨facet, stands⟩ := (indexed name place).mp known
  exact List.mem_map.mpr ⟨_, Array.mem_toList_iff.mpr (Array.mem_of_getElem? stands), rfl⟩

/-- A place from the index is a place of an entry, and the entry is the name's. -/
theorem entry_at_index (indexed : s.Indexed) {name : String} {place : Nat}
    (known : s.index[name]? = some place) :
    ∃ inRange : place < s.entries.size, s.entries[place].1 = name := by
  obtain ⟨facet, stands⟩ := (indexed name place).mp known
  obtain ⟨inRange, there⟩ := Array.getElem?_eq_some_iff.mp stands
  exact ⟨inRange, congrArg Prod.fst there⟩

/-! ## One insertion -/

theorem entries_insertOrAssign (indexed : s.Indexed) (name : String) (facet : Facet)
    (place : Nat) :
    (s.insertOrAssign name facet).entries[place]? =
      if place = s.placeFor name then some (name, facet) else s.entries[place]? := by
  cases known : s.index[name]? with
  | some there =>
      obtain ⟨inRange, _⟩ := indexed.entry_at_index known
      rw [insertOrAssign_of_present known, placeFor_of_present known,
        Array.getElem?_setIfInBounds]
      by_cases same : place = there
      · subst same
        simp [inRange]
      · simp [same, Ne.symm same]
  | none =>
      rw [insertOrAssign_of_absent known, placeFor_of_absent known, Array.getElem?_push]

theorem overwrite_in_place (indexed : s.Indexed) {name : String} {place : Nat}
    (known : s.index[name]? = some place) (facet : Facet) :
    ∃ inRange : place < s.entries.size, s.insertOrAssign name facet =
      { s with entries := s.entries.set place (s.entries[place].1, facet) inRange } := by
  obtain ⟨inRange, named⟩ := indexed.entry_at_index known
  refine ⟨inRange, ?_⟩
  rw [insertOrAssign_of_present known, Array.setIfInBounds_def, dif_pos inRange]
  simp only [named]

theorem assigned (indexed : s.Indexed) (name : String) (facet : Facet) :
    Assigned name facet s (s.insertOrAssign name facet) where
  entries := indexed.entries_insertOrAssign name facet
  index := index_insertOrAssign name facet
  names := by
    by_cases present : name ∈ s.names
    · rw [if_pos present, indexed.names_insertOrAssign_of_present present]
    · rw [if_neg present, indexed.names_insertOrAssign_of_absent present]
  overwrites _ known := indexed.overwrite_in_place known facet

end Indexed

/-! ## Changes and histories -/

theorem inStep_empty : empty.InStep := ⟨indexed_empty, rfl⟩

namespace InStep

theorem insertOrAssign (inStep : s.InStep) (name : String) (facet : Facet) :
    (s.insertOrAssign name facet).InStep := by
  refine ⟨inStep.indexed.insertOrAssign name facet, ?_⟩
  cases known : s.index[name]? with
  | some place =>
      have present : name ∈ s.names := inStep.indexed.mem_names_of_index known
      rw [inStep.indexed.names_insertOrAssign_of_present present,
        insertOrAssign_of_present known]
      exact inStep.rebuilt
  | none =>
      have absent : name ∉ s.names := (inStep.indexed.index_eq_none_iff name).mp known
      rw [inStep.indexed.names_insertOrAssign_of_absent absent, placesOf_append_singleton,
        insertOrAssign_of_absent known, length_names, inStep.rebuilt]

/-- An ordering makes the index anew. -/
theorem order (inStep : s.InStep) (repo : Repository) (enabled : Bool) :
    (s.order repo enabled).InStep := by
  cases enabled with
  | false => exact inStep
  | true => exact ⟨indexed_layOut inStep.indexed.names_nodup, rfl⟩

theorem apply (inStep : s.InStep) (change : Change) : (change.apply s).InStep := by
  cases change with
  | insert name facet => exact inStep.insertOrAssign name facet
  | order repo enabled => exact inStep.order repo enabled

theorem foldl_apply (inStep : s.InStep) (changes : List Change) :
    (changes.foldl Change.apply s).InStep := by
  induction changes generalizing s with
  | nil => exact inStep
  | cons change rest ih => exact ih (inStep.apply change)

theorem coherent (inStep : s.InStep) : s.Coherent where
  distinct := inStep.indexed.names_nodup
  index_iff := inStep.indexed
  rebuilt := inStep.rebuilt
  inRange name place known := by
    obtain ⟨inRange, named⟩ := inStep.indexed.entry_at_index known
    have stands : s.entries[place]? = some s.entries[place] := Array.getElem?_eq_getElem inRange
    exact ⟨inRange, named, by rw [get?, known, Option.bind_some, stands, Option.map_some]⟩
  get?_iff := inStep.indexed.get?_eq_some_iff
  contains_iff := inStep.indexed.contains_iff

end InStep

theorem inStep_ofChanges (changes : List Change) : (ofChanges changes).InStep :=
  inStep_empty.foldl_apply changes

theorem names_order_perm (repo : Repository) (enabled : Bool) :
    (s.order repo enabled).names.Perm s.names := by
  cases enabled with
  | false => exact .refl _
  | true => exact names_layOut_perm

/-- Whatever was inserted into a surface, and however often it was put in order in between,
index and entries agree; one more insertion changes one place, and one more ordering keeps the
names. -/
theorem ofChanges_coherent (changes : List Change) :
    (ofChanges changes).Coherent ∧
      (∀ name facet, Assigned name facet (ofChanges changes)
        ((ofChanges changes).insertOrAssign name facet)) ∧
      ∀ repo enabled, ((ofChanges changes).order repo enabled).names.Perm
        (ofChanges changes).names := by
  have inStep : (ofChanges changes).InStep := inStep_ofChanges changes
  exact ⟨inStep.coherent, inStep.indexed.assigned, names_order_perm⟩

/-- The entries of the shelf, put in order, then the slow thing once more as a default. -/
def renewedShelf : List Change :=
  shelf.toList.map (fun entry => .insert entry.1 entry.2) ++
    [.order things true,
      .insert "Demo.ISlow" ⟨⟨0⟩, true, true, false, false, true, false, ⟨2, 0⟩, .empty⟩]

/-- The slow thing was entered second and has moved to fifth place; there it is overwritten, and
from there the next ordering takes it to the front. -/
theorem ofChanges_coherent_of_renewedShelf :
    (ofChanges renewedShelf).names =
        ["Demo.IShared", "Demo.IOpen", "Demo.IFast", "Demo.IGated", "Demo.ISlow", "Demo.IBase"] ∧
      (ofChanges renewedShelf).placeFor "Demo.ISlow" = 4 ∧
      ((ofChanges renewedShelf).order things true).names =
        ["Demo.ISlow", "Demo.IShared", "Demo.IOpen", "Demo.IFast", "Demo.IGated", "Demo.IBase"] ∧
      (ofChanges renewedShelf).Coherent ∧
      ((ofChanges renewedShelf).order things true).names.Perm (ofChanges renewedShelf).names := by
  have renewed : ofChanges renewedShelf = insertOrAssign
      (order things (ofChanges (shelf.toList.map fun entry => .insert entry.1 entry.2)) true)
      "Demo.ISlow" ⟨⟨0⟩, true, true, false, false, true, false, ⟨2, 0⟩, .empty⟩ := rfl
  refine ⟨?_, ?_, ?_, (ofChanges_coherent renewedShelf).1,
    (ofChanges_coherent renewedShelf).2.2 things true⟩
  · rw [renewed, order_things]
    cbv
  · rw [renewed, order_things]
    cbv
  · rw [order_things, renewed, order_things]
    cbv

end Surface
end InterfaceSurface
