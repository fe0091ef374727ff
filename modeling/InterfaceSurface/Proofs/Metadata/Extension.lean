import InterfaceSurface.Proofs.Metadata.Issued
import InterfaceSurface.Proofs.Outcome
import InterfaceSurface.Surface.Closure

/-! # Repositories that hold more

A repository is kept in another one when its handles and its names lead there to what they
led to before; the other may hold more.  So it is with an insertion of a new name
(`Repository.keptIn_insert`).

A reference that could be resolved or printed is resolved and printed as before.  Printing
needs no look-up of names, so it does not matter which names were absent then and are
present now (`displayType_eq_of_keptIn`).  A climb has more steps in the larger repository;
it had enough before, since a base chain runs out of new classes first
(`Repository.KeptIn.kept_climb`). -/
set_option autoImplicit false
namespace InterfaceSurface

namespace Repository

structure KeptIn (repo other : Repository) : Prop where
  get? : ∀ h d, repo.get? h = some d → other.get? h = some d
  find? : ∀ name h, repo.find? name = some h → other.find? name = some h
  size_le : repo.size ≤ other.size

theorem find?_insert (repo : Repository) (t : TypeDef) (name : TypeName) :
    (repo.insert t).find? name =
      if t.name = name then some repo.nextHandle else repo.find? name := by
  simp [find?, insert, Std.TreeMap.getElem?_insert]

theorem get?_insert_of_known {repo : Repository} {h : Handle} {d : TypeDef} (t : TypeDef)
    (known : repo.get? h = some d) : (repo.insert t).get? h = some d := by
  obtain ⟨inside, _⟩ := Array.getElem?_eq_some_iff.mp known
  simpa [get?, insert, Array.getElem?_push_lt inside] using
    (Array.getElem?_eq_getElem inside).symm.trans known

theorem keptIn_insert {repo : Repository} {t : TypeDef} (fresh : repo.find? t.name = none) :
    repo.KeptIn (repo.insert t) where
  get? h d known := get?_insert_of_known t known
  find? name h found := by
    have apart : t.name ≠ name := by
      rintro rfl
      cases fresh.symm.trans found
    rw [find?_insert, if_neg apart, found]
  size_le := by simp [size, insert]

theorem issued_of_checkIssued {repo : Repository} {handles : List Handle}
    (passes : repo.checkIssued handles = .ok ()) : ∀ h ∈ handles, repo.Issued h := by
  induction handles with
  | nil => simp
  | cons h rest ih =>
      rw [checkIssued] at passes
      cases known : repo.get? h with
      | none =>
          rw [known] at passes
          cases passes
      | some d =>
          rw [known] at passes
          intro other listed
          rcases List.mem_cons.mp listed with rfl | later
          · exact issued_iff.mpr ⟨d, known⟩
          · exact ih passes other later

end Repository

namespace Repository.KeptIn

variable {repo other : Repository}

/-! ## Look-ups -/

theorem issued (kept : repo.KeptIn other) {h : Handle} (issued : repo.Issued h) :
    other.Issued h :=
  lt_of_lt_of_le issued kept.size_le

theorem kept_get (kept : repo.KeptIn other) (h : Handle) : Kept (repo.get h) (other.get h) :=
  fun d known => get_eq_ok_iff.mpr (kept.get? h d (get_eq_ok_iff.mp known))

theorem kept_find (kept : repo.KeptIn other) (name : TypeName) :
    Kept (repo.find name) (other.find name) :=
  fun h found => find_eq_ok_iff.mpr (kept.find? name h (find_eq_ok_iff.mp found))

theorem kept_resolve (kept : repo.KeptIn other) (ref : TypeRef) :
    Kept (repo.resolve ref) (other.resolve ref) := by
  induction ref using TypeRef.headInduction with
  | handle _ => exact .of_eq rfl
  | named name => exact kept.kept_find name
  | inst _ _ ih => exact ih

theorem kept_nameOf (kept : repo.KeptIn other) (ref : TypeRef) :
    Kept (repo.nameOf ref) (other.nameOf ref) := by
  induction ref using TypeRef.headInduction with
  | handle target => exact (kept.kept_get target).map TypeDef.name
  | named _ => exact .of_eq rfl
  | inst _ _ ih => exact ih

theorem rootName_eq (kept : repo.KeptIn other) {ref : TypeRef}
    (issued : ∀ h ∈ ref.rootHandles, repo.Issued h) : other.rootName ref = repo.rootName ref := by
  obtain ⟨name, named⟩ := exists_nameOf issued
  rw [rootName, rootName, named, kept.kept_nameOf ref name named]

/-! ## Base classes -/

theorem kept_baseClass? (kept : repo.KeptIn other) (d : TypeDef) :
    Kept (d.baseClass? repo) (d.baseClass? other) := by
  unfold TypeDef.baseClass?
  cases d.base with
  | none => exact .of_eq rfl
  | some ref =>
      refine (kept.kept_nameOf ref).bind fun name _ => ?_
      by_cases root : name = TypeName.systemObject
      · simp only [root, if_true]
        exact .of_eq rfl
      · simp only [root, if_false]
        exact (kept.kept_resolve ref).bind fun h _ => .of_eq rfl

/-- More steps give a climb no more to do once there are more than classes left to see. -/
theorem kept_climb (kept : repo.KeptIn other) {steps more : Nat} {seen : List Handle} (d : TypeDef)
    (distinct : seen.Nodup) (issuedSeen : ∀ h ∈ seen, repo.Issued h)
    (enough : repo.size < steps + seen.length) (le : steps ≤ more) :
    Kept (repo.climb steps seen d) (other.climb more seen d) := by
  induction steps generalizing more seen d with
  | zero =>
      have bound := length_le_of_issued distinct issuedSeen
      omega
  | succ steps ih =>
      obtain ⟨more, rfl⟩ := Nat.exists_eq_add_of_le' (Nat.le_of_add_left_le le)
      rw [climb, climb]
      refine (kept.kept_baseClass? d).bind fun found _ => ?_
      cases found with
      | none => exact .of_eq rfl
      | some h =>
          by_cases before : h ∈ seen
          · simp only [before, if_true]
            exact .of_eq rfl
          · simp only [before, if_false]
            refine (kept.kept_get h).bind fun base known => ?_
            have issuedNext : repo.Issued h := issued_iff.mpr ⟨base, get_eq_ok_iff.mp known⟩
            refine (ih base (List.nodup_cons.mpr ⟨before, distinct⟩)
              (by simpa using ⟨issuedNext, issuedSeen⟩) ?_ (Nat.le_of_succ_le_succ le)).bind
              fun rest _ => .of_eq rfl
            simp only [List.length_cons]
            omega

theorem kept_bases (kept : repo.KeptIn other) (d : TypeDef) :
    Kept (d.bases repo) (d.bases other) :=
  kept.kept_climb d .nil (by simp) (by simp) (Nat.succ_le_succ kept.size_le)

end Repository.KeptIn

/-! ## Printing -/

section
variable {repo other : Repository}

theorem issued_of_printed_inst {head : TypeRef} {printed : List Handle}
    (issued : ∀ h ∈ printed ++ head.rootHandles, repo.Issued h) :
    (∀ h ∈ printed, repo.Issued h) ∧ ∀ h ∈ head.rootHandles, repo.Issued h :=
  ⟨fun h listed => issued h (List.mem_append_left _ listed),
    fun h listed => issued h (List.mem_append_right _ listed)⟩

mutual

theorem displayType_eq_of_keptIn (kept : repo.KeptIn other) (scope : Scope) :
    ∀ ref : TypeRef, (∀ h ∈ ref.printedHandles, repo.Issued h) →
      displayType other scope ref = displayType repo scope ref
  | .handle target, issued => by
      rw [TypeRef.printedHandles] at issued
      have root : other.rootName (.handle target) = repo.rootName (.handle target) :=
        kept.rootName_eq issued
      rw [displayType, displayType, root]
  | .named _, _ => by
      rw [displayType, displayType]
  | .inst head args, issued => by
      rw [TypeRef.printedHandles] at issued
      obtain ⟨inArgs, inHead⟩ := issued_of_printed_inst issued
      rw [displayType, displayType, kept.rootName_eq inHead,
        displayArgs_eq_of_keptIn kept scope args inArgs]

theorem displaySig_eq_of_keptIn (kept : repo.KeptIn other) (scope : Scope) :
    ∀ sig : TypeSig, (∀ h ∈ sig.printedHandles, repo.Issued h) →
      displaySig other scope sig = displaySig repo scope sig
  | .element _, _ => by
      rw [displaySig, displaySig]
  | .ref target, issued => by
      rw [TypeSig.printedHandles] at issued
      rw [displaySig, displaySig, displayType_eq_of_keptIn kept scope target issued]
  | .inst head args, issued => by
      rw [TypeSig.printedHandles] at issued
      obtain ⟨inArgs, inHead⟩ := issued_of_printed_inst issued
      rw [displaySig, displaySig, kept.rootName_eq inHead,
        displayArgs_eq_of_keptIn kept scope args inArgs]
  | .param _, _ => by
      rw [displaySig, displaySig]
  | .array item, issued => by
      rw [TypeSig.printedHandles] at issued
      rw [displaySig, displaySig, displaySig_eq_of_keptIn kept scope item issued]

theorem displayArgs_eq_of_keptIn (kept : repo.KeptIn other) (scope : Scope) :
    ∀ args : List TypeSig, (∀ h ∈ TypeSig.printedHandlesOfArgs args, repo.Issued h) →
      displayArgs other scope args = displayArgs repo scope args
  | [], _ => by
      rw [displayArgs, displayArgs]
  | arg :: rest, issued => by
      rw [TypeSig.printedHandlesOfArgs] at issued
      rw [displayArgs, displayArgs,
        displaySig_eq_of_keptIn kept scope arg
          fun h listed => issued h (List.mem_append_left _ listed),
        displayArgs_eq_of_keptIn kept scope rest
          fun h listed => issued h (List.mem_append_right _ listed)]

end

/-- What could be printed did not depend on a handle that was never issued. -/
theorem Renderer.issued_of_name {renderer : Renderer} {ref : TypeRef} {scope : Scope}
    {text : String} (printed : renderer.name repo ref scope = .ok text) :
    ∀ h ∈ ref.printedHandles, repo.Issued h := by
  unfold Renderer.name at printed
  split at printed
  · rename_i passes
    exact Repository.issued_of_checkIssued passes
  · cases printed

namespace Repository.KeptIn

theorem kept_display_name (kept : repo.KeptIn other) (ref : TypeRef) (scope : Scope) :
    Kept (Renderer.display.name repo ref scope) (Renderer.display.name other ref scope) := by
  intro text printed
  have issued := Renderer.issued_of_name printed
  have passes := checkIssued_of_issued fun h listed => kept.issued (issued h listed)
  rw [Renderer.eq_type_of_name printed, Renderer.name, passes]
  exact congrArg Except.ok (displayType_eq_of_keptIn kept scope ref issued)

theorem follow_eq (kept : repo.KeptIn other) (approach : Approach) {e : Edge}
    (issued : ∀ h ∈ e.target.printedHandles, repo.Issued h) :
    approach.follow other .display e = approach.follow repo .display e := by
  have entered : approach.scope.enter other .display e.target =
      approach.scope.enter repo .display e.target := by
    cases target : e.target with
    | handle _ => rfl
    | named _ => rfl
    | inst head args =>
        rw [target, TypeRef.printedHandles] at issued
        have printed := displayArgs_eq_of_keptIn kept approach.scope args
          (issued_of_printed_inst issued).1
        simp only [displayArgs_eq_map] at printed
        simp only [Scope.enter, Renderer.display, printed]
  simp only [Approach.follow, entered]

end Repository.KeptIn

end
end InterfaceSurface
