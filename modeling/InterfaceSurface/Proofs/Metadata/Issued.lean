import InterfaceSurface.Metadata.Handles
import InterfaceSurface.Naming.Renderer
import Mathlib.Data.List.Nodup
import Mathlib.Data.List.Perm.Subperm
import Mathlib.Data.List.Range

/-! # What issued handles are good for

A name that is present leads to a handle that was issued, and to a definition of
that name (`Repository.exists_of_find?`).  So where every handle of a reference was
issued, the reference can be printed and has a name, and resolving it can only fail
because that name is absent (`Repository.exists_absent_of_resolve`). -/
set_option autoImplicit false
namespace InterfaceSurface

theorem lastNamed?_eq_some {name : TypeName} {types : List TypeDef} {position : Nat}
    (found : lastNamed? name types = some position) :
    ∃ d, types[position]? = some d ∧ d.name = name := by
  induction types generalizing position with
  | nil => cases found
  | cons d rest ih =>
      rw [lastNamed?] at found
      cases later : lastNamed? name rest with
      | some place =>
          rw [later] at found
          cases found
          simpa using ih later
      | none =>
          rw [later] at found
          by_cases same : d.name = name
          · simp only [same, if_true, Option.some.injEq] at found
            subst found
            exact ⟨d, rfl, same⟩
          · simp [same] at found

theorem lastNamed?_of_mem {types : List TypeDef} {d : TypeDef} (listed : d ∈ types) :
    ∃ position, lastNamed? d.name types = some position := by
  induction types with
  | nil => cases listed
  | cons first rest ih =>
      rw [lastNamed?]
      cases later : lastNamed? d.name rest with
      | some position => exact ⟨position + 1, rfl⟩
      | none =>
          rcases List.mem_cons.mp listed with rfl | behind
          · exact ⟨0, if_pos rfl⟩
          · obtain ⟨position, found⟩ := ih behind
            cases later.symm.trans found

namespace Repository

variable {repo : Repository}

theorem getElem?_toList (repo : Repository) (h : Handle) :
    repo.toList[h.index]? = repo.get? h :=
  Array.getElem?_toList

theorem exists_of_find? {name : TypeName} {h : Handle} (found : repo.find? name = some h) :
    ∃ d, repo.get? h = some d ∧ d.name = name := by
  rw [find?, repo.index_agrees] at found
  obtain ⟨position, last, rfl⟩ := Option.map_eq_some_iff.mp found
  simpa [get?] using lastNamed?_eq_some last

/-- Where names are distinct, looking a name up is finding its definition. -/
theorem find?_eq_some_iff (distinct : (repo.toList.map TypeDef.name).Nodup)
    {name : TypeName} {h : Handle} :
    repo.find? name = some h ↔ ∃ d, repo.get? h = some d ∧ d.name = name := by
  constructor
  · exact Repository.exists_of_find?
  · rintro ⟨d, known, rfl⟩
    obtain ⟨position, last⟩ := lastNamed?_of_mem
      (Array.mem_toList_iff.mpr (Array.mem_of_getElem? known))
    obtain ⟨e, stands, named⟩ := lastNamed?_eq_some last
    have there : repo.toList[h.index]? = some d := (repo.getElem?_toList h).trans known
    have same : position = h.index := by
      refine (List.getElem?_inj ?_ distinct).mp ?_
      · rw [List.length_map]
        exact (List.getElem?_eq_some_iff.mp stands).1
      · rw [List.getElem?_map, List.getElem?_map, there, toList, stands]
        exact congrArg some named
    rw [find?, repo.index_agrees, last, same]
    rfl

theorem issued_iff {h : Handle} : repo.Issued h ↔ ∃ d, repo.get? h = some d := by
  constructor
  · intro inside
    exact ⟨repo.types[h.index], Array.getElem?_eq_getElem inside⟩
  · rintro ⟨d, known⟩
    exact (Array.getElem?_eq_some_iff.mp known).1

theorem find_eq_ok_iff {name : TypeName} {h : Handle} :
    repo.find name = .ok h ↔ repo.find? name = some h := by
  unfold find
  cases repo.find? name <;> simp

theorem find_eq_error_iff {name : TypeName} {fault : Fault} :
    repo.find name = .error fault ↔ repo.find? name = none ∧ fault = .unresolved name := by
  unfold find
  cases repo.find? name <;> simp [eq_comm]

theorem Closed.issued (closed : repo.Closed) {h : Handle} {d : TypeDef}
    (known : repo.get? h = some d) : ∀ inside ∈ d.handles, repo.Issued inside :=
  closed d (Array.mem_toList_iff.mpr (Array.mem_of_getElem? known))

theorem checkIssued_append (front back : List Handle) :
    repo.checkIssued (front ++ back) =
      repo.checkIssued front >>= fun _ => repo.checkIssued back := by
  induction front with
  | nil => rfl
  | cons h front ih =>
      simp only [List.cons_append, checkIssued]
      cases repo.get? h with
      | none => rfl
      | some d => exact ih

theorem checkIssued_append_congr {front frontToo back backToo : List Handle}
    (fronts : repo.checkIssued front = repo.checkIssued frontToo)
    (backs : repo.checkIssued back = repo.checkIssued backToo) :
    repo.checkIssued (front ++ back) = repo.checkIssued (frontToo ++ backToo) := by
  rw [checkIssued_append, checkIssued_append, fronts, backs]

theorem checkIssued_of_issued {handles : List Handle} (issued : ∀ h ∈ handles, repo.Issued h) :
    repo.checkIssued handles = .ok () := by
  induction handles with
  | nil => rfl
  | cons h rest ih =>
      obtain ⟨d, known⟩ := issued_iff.mp (issued h (by simp))
      rw [checkIssued, known]
      exact ih fun other listed => issued other (List.mem_cons_of_mem _ listed)

theorem length_le_of_issued {handles : List Handle} (distinct : handles.Nodup)
    (issued : ∀ h ∈ handles, repo.Issued h) : handles.length ≤ repo.size := by
  have injective : Function.Injective Handle.index := by
    intro a b same
    cases a
    cases b
    exact congrArg Handle.mk same
  have inside : handles.map Handle.index ⊆ List.range repo.size := by
    intro index member
    obtain ⟨h, listed, rfl⟩ := List.mem_map.mp member
    exact List.mem_range.mpr (issued h listed)
  simpa using ((distinct.map injective).subperm inside).length_le

end Repository

/-! ## The handles that are read are among those inside -/

theorem TypeDef.mem_handles_of_base {d : TypeDef} {ref : TypeRef} (extended : d.base = some ref)
    {h : Handle} (inside : h ∈ ref.handles) : h ∈ d.handles := by
  simp [TypeDef.handles, extended, inside]

theorem TypeDef.mem_handles_of_edge {d : TypeDef} {e : Edge} (listed : e ∈ d.edges) {h : Handle}
    (inside : h ∈ e.target.handles) : h ∈ d.handles := by
  simp only [TypeDef.handles, List.mem_append, List.mem_flatMap]
  exact .inl (.inl (.inr ⟨e, listed, inside⟩))

theorem TypeRef.rootHandles_subset (ref : TypeRef) : ref.rootHandles ⊆ ref.handles := by
  induction ref using TypeRef.headInduction with
  | handle _ =>
      rw [rootHandles, handles]
      exact List.Subset.refl _
  | named _ =>
      rw [rootHandles]
      exact List.nil_subset _
  | inst head _ ih =>
      rw [rootHandles, handles]
      exact List.subset_append_of_subset_left _ ih

theorem printed_inst_subset {head : TypeRef} {printed inside : List Handle}
    (subset : printed ⊆ inside) : printed ++ head.rootHandles ⊆ head.handles ++ inside :=
  List.append_subset.mpr ⟨List.subset_append_of_subset_right _ subset,
    List.subset_append_of_subset_left _ (TypeRef.rootHandles_subset head)⟩

mutual

theorem TypeRef.printedHandles_subset : ∀ ref : TypeRef, ref.printedHandles ⊆ ref.handles
  | .handle _ => by
      rw [TypeRef.printedHandles, TypeRef.handles]
      exact List.Subset.refl _
  | .named _ => by
      rw [TypeRef.printedHandles]
      exact List.nil_subset _
  | .inst _ args => by
      rw [TypeRef.printedHandles, TypeRef.handles]
      exact printed_inst_subset (TypeSig.printedHandlesOfArgs_subset args)

theorem TypeSig.printedHandles_subset : ∀ sig : TypeSig, sig.printedHandles ⊆ sig.handles
  | .element _ => by
      rw [TypeSig.printedHandles]
      exact List.nil_subset _
  | .ref target => by
      rw [TypeSig.printedHandles, TypeSig.handles]
      exact TypeRef.printedHandles_subset target
  | .inst _ args => by
      rw [TypeSig.printedHandles, TypeSig.handles]
      exact printed_inst_subset (TypeSig.printedHandlesOfArgs_subset args)
  | .param _ => by
      rw [TypeSig.printedHandles]
      exact List.nil_subset _
  | .array item => by
      rw [TypeSig.printedHandles, TypeSig.handles]
      exact TypeSig.printedHandles_subset item

theorem TypeSig.printedHandlesOfArgs_subset :
    ∀ args : List TypeSig, TypeSig.printedHandlesOfArgs args ⊆ TypeSig.handlesOfArgs args
  | [] => by
      rw [TypeSig.printedHandlesOfArgs]
      exact List.nil_subset _
  | arg :: rest => by
      rw [TypeSig.printedHandlesOfArgs, TypeSig.handlesOfArgs]
      exact List.append_subset.mpr
        ⟨List.subset_append_of_subset_left _ (TypeSig.printedHandles_subset arg),
          List.subset_append_of_subset_right _ (TypeSig.printedHandlesOfArgs_subset rest)⟩

end

section
variable {repo : Repository} {ref : TypeRef}

/-- Where its handles were issued, a reference is printed without fault. -/
theorem Renderer.name_of_issued (renderer : Renderer) (scope : Scope)
    (issued : ∀ h ∈ ref.handles, repo.Issued h) :
    renderer.name repo ref scope = .ok (renderer.type repo ref scope) := by
  have passes := Repository.checkIssued_of_issued
    fun h printed => issued h (TypeRef.printedHandles_subset ref printed)
  rw [name, passes]

namespace Repository

theorem exists_nameOf (issued : ∀ h ∈ ref.rootHandles, repo.Issued h) :
    ∃ name, repo.nameOf ref = .ok name := by
  induction ref using TypeRef.headInduction with
  | handle target =>
      obtain ⟨d, known⟩ := issued_iff.mp (issued target (List.mem_singleton.mpr rfl))
      exact ⟨d.name, by simp [nameOf, get, known, Except.map]⟩
  | named name => exact ⟨name, rfl⟩
  | inst head _ ih => exact ih issued

variable (ref) in
theorem exists_nameOf_iff :
    (∃ name, repo.nameOf ref = .ok name) ↔ ∀ h ∈ ref.rootHandles, repo.Issued h := by
  constructor
  · intro named
    induction ref using TypeRef.headInduction with
    | handle target =>
        intro h root
        cases List.mem_singleton.mp root
        obtain ⟨name, named⟩ := named
        refine issued_iff.mpr ?_
        cases known : repo.get? target with
        | some d => exact ⟨d, rfl⟩
        | none => simp [nameOf, get, known, Except.map] at named
    | named name => simp [TypeRef.rootHandles]
    | inst head _ ih => exact ih named
  · exact exists_nameOf

theorem issued_of_resolve (issued : ∀ h ∈ ref.rootHandles, repo.Issued h) {target : Handle}
    (resolved : repo.resolve ref = .ok target) : repo.Issued target := by
  induction ref using TypeRef.headInduction with
  | handle target =>
      cases resolved
      exact issued target (List.mem_singleton.mpr rfl)
  | named name =>
      obtain ⟨d, known, _⟩ := exists_of_find? (find_eq_ok_iff.mp resolved)
      exact issued_iff.mpr ⟨d, known⟩
  | inst head _ ih => exact ih issued resolved

/-- A reference has the name of the definition it points at. -/
theorem nameOf_of_resolve {target : Handle} {d : TypeDef}
    (resolved : repo.resolve ref = .ok target) (known : repo.get? target = some d) :
    repo.nameOf ref = .ok d.name := by
  induction ref using TypeRef.headInduction with
  | handle target =>
      cases resolved
      simp [nameOf, get, known, Except.map]
  | named name =>
      obtain ⟨found, knownToo, rfl⟩ := exists_of_find? (find_eq_ok_iff.mp resolved)
      rw [known] at knownToo
      cases knownToo
      rfl
  | inst head _ ih => exact ih resolved

/-- A reference that cannot be resolved is one whose name is absent. -/
theorem exists_absent_of_resolve {fault : Fault} (failed : repo.resolve ref = .error fault) :
    ∃ name, repo.nameOf ref = .ok name ∧ repo.find? name = none ∧ fault = .unresolved name := by
  induction ref using TypeRef.headInduction with
  | handle target => cases failed
  | named name =>
      obtain ⟨absent, rfl⟩ := find_eq_error_iff.mp failed
      exact ⟨name, rfl, absent, rfl⟩
  | inst head _ ih => exact ih failed

end Repository

end
end InterfaceSurface
