import InterfaceSurface.Proofs.Metadata.Alike
import InterfaceSurface.Proofs.Metadata.Extension

/-! # Runs of insertions

The look-ups of a repository all tell of one list, its definitions in the order of their
insertion (`Repository.tells_toList`): handles count them off, a name leads to the last that
has it.  An insertion appends to the list, so after a run of insertions into the empty
repository they tell of the run, and a handle once given out leads to its definition ever
after (`Repository.tells_insertAll`).

Handles are given out as numbers of 32 bits, and what is beyond shares the last number.  So
a number tells its handle just if the handle is among the first `2 ^ 32`
(`Handle.toNat_number_eq_iff`). -/
set_option autoImplicit false
namespace InterfaceSurface

theorem Handle.toNat_number_eq_iff {h : Handle} :
    h.number.toNat = h.index ↔ h.index < UInt32.size := by
  have capped : h.number.toNat = min h.index (UInt32.size - 1) :=
    UInt32.toNat_ofNat_of_lt' (lt_of_le_of_lt (Nat.min_le_right _ _) (by decide))
  rw [capped]
  simp only [UInt32.size]
  omega

/-- The name at the innermost head of a reference, where no handle stands there. -/
def TypeRef.headName? : TypeRef → Option TypeName
  | .handle _ => none
  | .named name => some name
  | .inst head _ => head.headName?

/-! ## The last definition of a name -/

/-- At the position stands a definition of the name, and no later one has the name. -/
def LastNamed (name : TypeName) (types : List TypeDef) (position : Nat) : Prop :=
  ∃ d, types[position]? = some d ∧ d.name = name ∧
    ∀ later e, position < later → types[later]? = some e → e.name ≠ name

section
variable {name : TypeName} {types : List TypeDef} {d : TypeDef} {position : Nat}

theorem lastNamed_append_of_named (named : d.name = name) :
    LastNamed name (types ++ [d]) position ↔ position = types.length := by
  have inside : ∀ {place : Nat} {e : TypeDef}, (types ++ [d])[place]? = some e →
      place ≤ types.length := by
    intro place e stands
    obtain ⟨inside, _⟩ := List.getElem?_eq_some_iff.mp stands
    exact Nat.le_of_lt_succ (by simpa using inside)
  constructor
  · rintro ⟨e, stands, _, noLater⟩
    by_contra apart
    exact noLater types.length d (lt_of_le_of_ne (inside stands) apart)
      List.getElem?_concat_length named
  · rintro rfl
    exact ⟨d, List.getElem?_concat_length, named, fun later e after stands =>
      absurd (inside stands) (Nat.not_le_of_lt after)⟩

theorem lastNamed_append_of_other (other : d.name ≠ name) :
    LastNamed name (types ++ [d]) position ↔ LastNamed name types position := by
  -- What has the name does not stand at the end.
  have before : ∀ {place : Nat} {e : TypeDef}, e.name = name →
      ((types ++ [d])[place]? = some e ↔ types[place]? = some e) := by
    intro place e named
    rw [List.getElem?_append]
    split
    · rfl
    · rename_i beyond
      rw [List.getElem?_eq_none (Nat.le_of_not_lt beyond)]
      refine iff_of_false (fun stands => other ?_) nofun
      cases List.mem_singleton.mp (List.mem_of_getElem? stands)
      exact named
  constructor
  · rintro ⟨e, stands, named, noLater⟩
    exact ⟨e, (before named).mp stands, named, fun later f after there namedToo =>
      noLater later f after ((before namedToo).mpr there) namedToo⟩
  · rintro ⟨e, stands, named, noLater⟩
    exact ⟨e, (before named).mpr stands, named, fun later f after there namedToo =>
      noLater later f after ((before namedToo).mp there) namedToo⟩

theorem lastNamed?_eq_some_iff :
    lastNamed? name types = some position ↔ LastNamed name types position := by
  induction types using List.reverseRecOn with
  | nil => exact iff_of_false nofun nofun
  | append_singleton types d ih =>
      rw [lastNamed?_append_singleton]
      by_cases named : d.name = name
      · rw [if_pos named, lastNamed_append_of_named named, Option.some.injEq, eq_comm]
      · rw [if_neg named, lastNamed_append_of_other named, ih]

theorem lastNamed?_eq_none_iff :
    lastNamed? name types = none ↔ ∀ d ∈ types, d.name ≠ name := by
  constructor
  · rintro absent d listed rfl
    obtain ⟨position, found⟩ := lastNamed?_of_mem listed
    cases absent.symm.trans found
  · intro unnamed
    cases found : lastNamed? name types with
    | none => rfl
    | some position =>
        obtain ⟨d, stands, named⟩ := lastNamed?_eq_some found
        exact absurd named (unnamed d (List.mem_of_getElem? stands))

end

namespace Repository

/-! ## What the look-ups tell -/

/-- The look-ups tell of these definitions, inserted in this order. -/
structure Tells (repo : Repository) (types : List TypeDef) : Prop where
  size_eq : repo.size = types.length
  listing_eq : repo.listing = ((List.range types.length).map Handle.mk).zip types
  get?_eq : ∀ h, repo.get? h = types[h.index]?
  get_eq_ok_iff : ∀ h d, repo.get h = .ok d ↔ types[h.index]? = some d
  find?_eq_some_iff : ∀ name h, repo.find? name = some h ↔ LastNamed name types h.index
  find?_eq_none_iff : ∀ name, repo.find? name = none ↔ ∀ d ∈ types, d.name ≠ name
  /-- A reference with a name at its head is named like the definition it leads to. -/
  nameOf_of_resolve : ∀ ref h, ref.headName?.isSome = true → repo.resolve ref = .ok h →
    ∃ d, types[h.index]? = some d ∧ repo.nameOf ref = .ok d.name

section
variable {repo : Repository}

theorem find?_eq_some_iff_lastNamed {name : TypeName} {h : Handle} :
    repo.find? name = some h ↔ LastNamed name repo.toList h.index := by
  rw [find?, repo.index_agrees, Option.map_eq_some_iff, ← lastNamed?_eq_some_iff]
  constructor
  · rintro ⟨position, last, rfl⟩
    exact last
  · intro last
    exact ⟨h.index, last, rfl⟩

theorem exists_of_resolve {ref : TypeRef} {h : Handle} (headed : ref.headName?.isSome = true)
    (resolved : repo.resolve ref = .ok h) :
    ∃ d, repo.get? h = some d ∧ repo.nameOf ref = .ok d.name := by
  induction ref using TypeRef.headInduction with
  | handle target => cases headed
  | named name =>
      obtain ⟨d, known, rfl⟩ := exists_of_find? (find_eq_ok_iff.mp resolved)
      exact ⟨d, known, rfl⟩
  | inst head args ih => exact ih headed resolved

/-- The listing counts the handles off. -/
theorem listing_eq_zip :
    repo.listing = ((List.range repo.toList.length).map Handle.mk).zip repo.toList := by
  apply List.ext_getElem
  · simp [listing]
  · intro position _ _
    simp [listing]

variable (repo) in
theorem tells_toList : repo.Tells repo.toList where
  size_eq := rfl
  listing_eq := listing_eq_zip
  get?_eq h := (repo.getElem?_toList h).symm
  get_eq_ok_iff h d := by rw [getElem?_toList, get_eq_ok_iff]
  find?_eq_some_iff name h := find?_eq_some_iff_lastNamed
  find?_eq_none_iff name := by
    rw [find?, repo.index_agrees, Option.map_eq_none_iff, ← lastNamed?_eq_none_iff]
    rfl
  nameOf_of_resolve ref h headed resolved := by
    rw [getElem?_toList]
    exact exists_of_resolve headed resolved

end

/-! ## One insertion after the other -/

/-- Inserts the definitions in turn, and keeps the handles that are given out. -/
def insertAll : Repository → List TypeDef → List Handle × Repository
  | repo, [] => ([], repo)
  | repo, d :: rest =>
    let later := (repo.insert d).insertAll rest
    (repo.nextHandle :: later.1, later.2)

theorem insertAll_snd (repo : Repository) (types : List TypeDef) :
    (repo.insertAll types).2 = types.foldl insert repo := by
  induction types generalizing repo with
  | nil => rfl
  | cons d rest ih => exact ih (repo.insert d)

theorem size_insert (repo : Repository) (d : TypeDef) : (repo.insert d).size = repo.size + 1 :=
  Array.size_push d

theorem handles_insertAll (repo : Repository) (types : List TypeDef) :
    (repo.insertAll types).1 = (List.range' repo.size types.length).map Handle.mk := by
  induction types generalizing repo with
  | nil => rfl
  | cons d rest ih =>
      rw [insertAll, ih, size_insert, List.length_cons, List.range'_succ, List.map_cons]
      rfl

theorem get?_foldl_insert_of_known {repo : Repository} {h : Handle} {d : TypeDef}
    (known : repo.get? h = some d) (types : List TypeDef) :
    (types.foldl insert repo).get? h = some d := by
  induction types generalizing repo with
  | nil => exact known
  | cons e rest ih => exact ih (get?_insert_of_known e known)

/-- The handles count the insertions, each has a number of its own, and the look-ups tell of
what was inserted; whatever a handle led to at some time in the run, it leads to in the end. -/
theorem tells_insertAll {types : List TypeDef} (fits : types.length ≤ UInt32.size) :
    (empty.insertAll types).1 = (List.range types.length).map Handle.mk ∧
      (∀ h ∈ (empty.insertAll types).1, h.number.toNat = h.index) ∧
      (empty.insertAll types).2.Tells types ∧
      ∀ early later, types = early ++ later → ∀ h d,
        (empty.insertAll early).2.get? h = some d → (empty.insertAll types).2.get? h = some d := by
  have counted : (empty.insertAll types).1 = (List.range types.length).map Handle.mk := by
    rw [handles_insertAll, List.range_eq_range']
    rfl
  refine ⟨counted, ?_, ?_, ?_⟩
  · intro h issued
    rw [counted] at issued
    obtain ⟨i, inRun, rfl⟩ := List.mem_map.mp issued
    exact Handle.toNat_number_eq_iff.mpr (lt_of_lt_of_le (List.mem_range.mp inRun) fits)
  · have inOrder : (empty.insertAll types).2.toList = types := by
      rw [insertAll_snd, toList_foldl_insert]
      rfl
    have tells := tells_toList (empty.insertAll types).2
    rwa [inOrder] at tells
  · rintro early later rfl h d known
    rw [insertAll_snd] at known ⊢
    rw [List.foldl_append]
    exact get?_foldl_insert_of_known known later

/-- A box is defined twice. -/
def twoBoxes : List TypeDef := [
  ⟨⟨"Demo", "Box"⟩, .interfaceType, ["T"], none, [], [], [], []⟩,
  ⟨⟨"Demo", "Lid"⟩, .classType, [], none, [], [], [], []⟩,
  ⟨⟨"Demo", "Box"⟩, .classType, ["T"], none, [], [], [], []⟩]

/-- The name leads to the later box, and the first handle still to the earlier one. -/
theorem tells_insertAll_of_twoBoxes :
    twoBoxes.length ≤ UInt32.size ∧
      (empty.insertAll twoBoxes).1 = [⟨0⟩, ⟨1⟩, ⟨2⟩] ∧
      (empty.insertAll twoBoxes).2.listing.map (Prod.map id TypeDef.name) =
        [(⟨0⟩, ⟨"Demo", "Box"⟩), (⟨1⟩, ⟨"Demo", "Lid"⟩), (⟨2⟩, ⟨"Demo", "Box"⟩)] ∧
      (empty.insertAll twoBoxes).2.find? ⟨"Demo", "Box"⟩ = some ⟨2⟩ ∧
      (empty.insertAll twoBoxes).2.find? ⟨"Demo", "Pot"⟩ = none ∧
      (empty.insertAll twoBoxes).2.get? ⟨0⟩ = twoBoxes[0]? ∧
      (empty.insertAll twoBoxes).2.get? ⟨3⟩ = none ∧
      (∃ d, twoBoxes[2]? = some d ∧ (empty.insertAll twoBoxes).2.nameOf
        (.inst (.inst (.named ⟨"Demo", "Box"⟩) [.param 0]) [.element .string]) = .ok d.name) := by
  have fits : twoBoxes.length ≤ UInt32.size := by decide
  obtain ⟨counted, -, tells, -⟩ := tells_insertAll fits
  have box : (empty.insertAll twoBoxes).2.find? ⟨"Demo", "Box"⟩ = some ⟨2⟩ := by
    refine (tells.find?_eq_some_iff _ _).mpr ⟨_, rfl, rfl, fun later e after stands => ?_⟩
    rw [List.getElem?_eq_none (show twoBoxes.length ≤ later from after)] at stands
    cases stands
  have noPot : (empty.insertAll twoBoxes).2.find? ⟨"Demo", "Pot"⟩ = none :=
    (tells.find?_eq_none_iff _).mpr (by decide)
  exact ⟨fits, counted, by rw [tells.listing_eq]; rfl, box, noPot, tells.get?_eq _, tells.get?_eq _,
    tells.nameOf_of_resolve _ _ rfl (find_eq_ok_iff.mpr box)⟩

end Repository
end InterfaceSurface
