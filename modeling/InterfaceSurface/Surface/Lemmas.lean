import InterfaceSurface.Surface.Basic

/-! # What insertion does to a surface

An insertion overwrites the entry of its name or appends one, and it keeps the
index in step with the entries (`Indexed.insertOrAssign`). -/
set_option autoImplicit false
namespace InterfaceSurface
namespace Surface

theorem insertOrAssign_of_present {s : Surface} {name : String} {place : Nat}
    (present : s.index[name]? = some place) (facet : Facet) :
    s.insertOrAssign name facet =
      { s with entries := s.entries.setIfInBounds place (name, facet) } := by
  simp [insertOrAssign, present]

theorem insertOrAssign_of_absent {s : Surface} {name : String}
    (absent : s.index[name]? = none) (facet : Facet) :
    s.insertOrAssign name facet =
      ⟨s.entries.push (name, facet), s.index.insert name s.entries.size⟩ := by
  simp [insertOrAssign, absent]

theorem Indexed.insertOrAssign {s : Surface} (indexed : s.Indexed) (name : String)
    (facet : Facet) : (s.insertOrAssign name facet).Indexed := by
  intro wanted place
  cases known : s.index[name]? with
  | some there =>
      obtain ⟨stored, stands⟩ := (indexed name there).mp known
      obtain ⟨inBounds, _⟩ := Array.getElem?_eq_some_iff.mp stands
      rw [insertOrAssign_of_present known]
      simp only [indexed wanted place, Array.getElem?_setIfInBounds]
      by_cases same : there = place
      · subst same
        simp only [if_true, inBounds, stands, Option.some.injEq, Prod.mk.injEq]
        constructor
        · rintro ⟨_, sameName, _⟩
          exact ⟨facet, sameName, rfl⟩
        · rintro ⟨_, sameName, _⟩
          exact ⟨stored, sameName, rfl⟩
      · simp [same]
  | none =>
      rw [insertOrAssign_of_absent known]
      have absent : ∀ (there : Nat) (old : Facet), s.entries[there]? ≠ some (name, old) := by
        intro there old stands
        simp [(indexed name there).mpr ⟨old, stands⟩] at known
      simp only [Std.TreeMap.getElem?_insert, Std.LawfulEqCmp.compare_eq_iff_eq,
        Array.getElem?_push]
      by_cases same : name = wanted
      · subst same
        by_cases last : place = s.entries.size
        · subst last
          simp
        · simp [last, Ne.symm last, absent]
      · rw [if_neg same, indexed wanted place]
        by_cases last : place = s.entries.size
        · subst last
          simp [same]
        · simp [last]

theorem Indexed.index_eq_none_iff {s : Surface} (indexed : s.Indexed) (name : String) :
    s.index[name]? = none ↔ name ∉ s.names := by
  constructor
  · intro absent listed
    obtain ⟨entry, member, rfl⟩ := List.mem_map.mp listed
    obtain ⟨place, stands⟩ := List.mem_iff_getElem?.mp member
    have known := (indexed entry.1 place).mpr ⟨entry.2, by simpa [toList] using stands⟩
    simp [absent] at known
  · intro unlisted
    cases known : s.index[name]? with
    | none => rfl
    | some place =>
        obtain ⟨facet, stands⟩ := (indexed name place).mp known
        exact absurd (List.mem_map.mpr
          ⟨(name, facet), Array.mem_toList_iff.mpr (Array.mem_of_getElem? stands), rfl⟩) unlisted

end Surface
end InterfaceSurface
