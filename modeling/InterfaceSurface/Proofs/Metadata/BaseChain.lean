import InterfaceSurface.Inheritance
import InterfaceSurface.Proofs.Metadata.Issued
import InterfaceSurface.Proofs.Outcome
import Mathlib.Logic.Relation

/-! # The base chain

The base chain of a type is told here without the climb: it goes from a type to the
class that its base reference leads to, and on from there.  A reference to
`System.Object` ends the chain and is not part of it.

A climb that succeeds comes by every member of the chain (`mem_of_bases`), also where
the chain is cyclic, so all references on the chain resolve.  A climb that fails does
so at a reference on the chain (`exists_dangling_of_bases`). -/
set_option autoImplicit false
namespace InterfaceSurface

open Relation (ReflTransGen)

/-- The reference that the base chain follows from a type, if its base is not the root of all
classes. -/
def TypeDef.baseRef? (d : TypeDef) (repo : Repository) : Option TypeRef := do
  let ref ← d.base
  if repo.rootName ref = TypeName.systemObject then none else some ref

def TypeDef.Extends (repo : Repository) (d base : TypeDef) : Prop :=
  ∃ ref h, d.baseRef? repo = some ref ∧ repo.resolve ref = .ok h ∧ repo.get? h = some base

/-- The type itself, or one of its base classes. -/
def TypeDef.OnBaseChain (d : TypeDef) (repo : Repository) (base : TypeDef) : Prop :=
  ReflTransGen (TypeDef.Extends repo) d base

/-- The base reference, if there is one, leads to one of the handles. -/
def TypeDef.ContinuesIn (d : TypeDef) (repo : Repository) (handles : List Handle) : Prop :=
  ∀ ref, d.baseRef? repo = some ref → ∃ h ∈ handles, repo.resolve ref = .ok h

section
variable {repo : Repository} {d : TypeDef}

theorem TypeDef.ContinuesIn.mono {handles others : List Handle} (subset : handles ⊆ others)
    (continues : d.ContinuesIn repo handles) : d.ContinuesIn repo others := by
  intro ref follows
  obtain ⟨h, listed, resolved⟩ := continues ref follows
  exact ⟨h, subset listed, resolved⟩

theorem TypeDef.base_of_baseRef? {ref : TypeRef} (follows : d.baseRef? repo = some ref) :
    d.base = some ref := by
  obtain ⟨other, extended, kept⟩ := Option.bind_eq_some_iff.mp follows
  split at kept
  · cases kept
  · rwa [← Option.some.inj kept]

theorem TypeDef.issued_of_baseRef? (issued : ∀ h ∈ d.handles, repo.Issued h) {ref : TypeRef}
    (follows : d.baseRef? repo = some ref) : ∀ h ∈ ref.rootHandles, repo.Issued h := by
  have extended := TypeDef.base_of_baseRef? follows
  exact fun h root =>
    issued h (TypeDef.mem_handles_of_base extended (TypeRef.rootHandles_subset ref root))

/-- The direct base class is what the base reference resolves to. -/
theorem TypeDef.baseClass?_eq (issued : ∀ h ∈ d.handles, repo.Issued h) :
    d.baseClass? repo =
      match d.baseRef? repo with
      | none => .ok none
      | some ref => (repo.resolve ref).map some := by
  cases extended : d.base with
  | none => simp [baseClass?, baseRef?, extended]
  | some ref =>
      have issuedRoot : ∀ h ∈ ref.rootHandles, repo.Issued h := fun h root =>
        issued h (TypeDef.mem_handles_of_base extended (TypeRef.rootHandles_subset ref root))
      obtain ⟨name, named⟩ := Repository.exists_nameOf issuedRoot
      have printed : repo.rootName ref = name := by simp [Repository.rootName, named]
      by_cases root : name = TypeName.systemObject
      · have ends : d.baseRef? repo = none := by simp [baseRef?, extended, printed, root]
        rw [ends]
        simp [baseClass?, extended, named, root, bind, Except.bind, pure, Except.pure]
      · have follows : d.baseRef? repo = some ref := by simp [baseRef?, extended, printed, root]
        rw [follows]
        cases resolved : repo.resolve ref <;>
          simp [baseClass?, extended, named, root, resolved, bind, Except.bind, pure, Except.pure,
            Except.map]

/-! ## One climb -/

theorem Repository.climb_succ (steps : Nat) (seen : List Handle) :
    repo.climb (steps + 1) seen d =
      match d.baseClass? repo with
      | .error fault => .error fault
      | .ok none => .ok []
      | .ok (some h) =>
        if h ∈ seen then .ok []
        else
          match repo.get h with
          | .error fault => .error fault
          | .ok base => (repo.climb steps (h :: seen) base).map (h :: ·) := by
  rw [climb]
  cases d.baseClass? repo with
  | error fault => rfl
  | ok next =>
      cases next with
      | none => rfl
      | some h =>
          dsimp only [bind, Except.bind]
          split
          · rfl
          · cases repo.get h with
            | error fault => rfl
            | ok base => cases repo.climb steps (h :: seen) base <;> rfl

/-- All that one step of a climb can do. -/
theorem climb_succ_cases (issued : ∀ h ∈ d.handles, repo.Issued h) (steps : Nat)
    (seen : List Handle) :
    (d.baseRef? repo = none ∧ repo.climb (steps + 1) seen d = .ok []) ∨
      ∃ ref, d.baseRef? repo = some ref ∧
        ((∃ fault, repo.resolve ref = .error fault ∧
            repo.climb (steps + 1) seen d = .error fault) ∨
          ∃ h, repo.resolve ref = .ok h ∧
            ((h ∈ seen ∧ repo.climb (steps + 1) seen d = .ok []) ∨
              h ∉ seen ∧ ∃ base, repo.get? h = some base ∧
                repo.climb (steps + 1) seen d =
                  (repo.climb steps (h :: seen) base).map (h :: ·))) := by
  rw [Repository.climb_succ, TypeDef.baseClass?_eq issued]
  cases follows : d.baseRef? repo with
  | none => exact .inl ⟨rfl, rfl⟩
  | some ref =>
      dsimp only
      refine .inr ⟨ref, rfl, ?_⟩
      cases resolved : repo.resolve ref with
      | error fault => exact .inl ⟨fault, rfl, rfl⟩
      | ok h =>
          have issuedRoot := TypeDef.issued_of_baseRef? issued follows
          obtain ⟨base, known⟩ :=
            Repository.issued_iff.mp (Repository.issued_of_resolve issuedRoot resolved)
          refine .inr ⟨h, rfl, ?_⟩
          by_cases before : h ∈ seen
          · exact .inl ⟨before, if_pos before⟩
          · refine .inr ⟨before, base, known, (if_neg before).trans ?_⟩
            rw [Repository.get_eq_ok_iff.mpr known]

/-- A climb that has enough steps stops only where the chain ends or comes back. -/
theorem continuesIn_of_climb (closed : repo.Closed) {steps : Nat} {seen handles : List Handle}
    (issued : ∀ h ∈ d.handles, repo.Issued h) (distinct : seen.Nodup)
    (issuedSeen : ∀ h ∈ seen, repo.Issued h) (enough : repo.size < steps + seen.length)
    (run : repo.climb steps seen d = .ok handles) :
    d.ContinuesIn repo (seen ++ handles) ∧
      ∀ h ∈ handles, ∃ base, repo.get? h = some base ∧ base.ContinuesIn repo (seen ++ handles) := by
  induction steps generalizing seen d handles with
  | zero =>
      have bound := Repository.length_le_of_issued distinct issuedSeen
      omega
  | succ steps ih =>
      rcases climb_succ_cases issued steps seen
        with ⟨ends, climbed⟩ | ⟨ref, follows, ⟨fault, _, climbed⟩ | ⟨h, resolved, onward⟩⟩
      · cases climbed.symm.trans run
        exact ⟨fun ref follows => absurd (ends.symm.trans follows) (by simp), by simp⟩
      · cases climbed.symm.trans run
      · have leads : ∀ others : List Handle, h ∈ others → d.ContinuesIn repo others := by
          intro others listed other followsToo
          cases Option.some.inj (follows.symm.trans followsToo)
          exact ⟨h, listed, resolved⟩
        rcases onward with ⟨before, climbed⟩ | ⟨fresh, base, known, climbed⟩
        · cases climbed.symm.trans run
          exact ⟨leads _ (by simpa using before), by simp⟩
        · rw [climbed] at run
          cases rest : repo.climb steps (h :: seen) base with
          | error fault =>
              rw [rest] at run
              cases run
          | ok later =>
              rw [rest] at run
              cases run
              have issuedNext : repo.Issued h := Repository.issued_iff.mpr ⟨base, known⟩
              obtain ⟨atBase, behind⟩ := ih (closed.issued known)
                (List.nodup_cons.mpr ⟨fresh, distinct⟩)
                (by simpa using ⟨issuedNext, issuedSeen⟩)
                (by simp only [List.length_cons]; omega) rest
              have same : (h :: seen) ++ later ⊆ seen ++ h :: later := by
                intro x listed
                simp only [List.mem_append, List.mem_cons] at listed ⊢
                grind
              refine ⟨leads _ (by simp), fun other listed => ?_⟩
              rcases List.mem_cons.mp listed with rfl | listed
              · exact ⟨base, known, atBase.mono same⟩
              · obtain ⟨member, knownMember, continues⟩ := behind other listed
                exact ⟨member, knownMember, continues.mono same⟩

theorem exists_dangling_of_climb (closed : repo.Closed) {steps : Nat} {seen : List Handle}
    (issued : ∀ h ∈ d.handles, repo.Issued h) {fault : Fault}
    (failed : repo.climb steps seen d = .error fault) :
    ∃ base ref, d.OnBaseChain repo base ∧ base.baseRef? repo = some ref ∧
      repo.resolve ref = .error fault := by
  induction steps generalizing seen d with
  | zero => cases failed
  | succ steps ih =>
      rcases climb_succ_cases issued steps seen
        with ⟨_, climbed⟩ | ⟨ref, follows, ⟨cause, unresolved, climbed⟩ | ⟨h, resolved, onward⟩⟩
      · cases climbed.symm.trans failed
      · cases climbed.symm.trans failed
        exact ⟨d, ref, .refl, follows, unresolved⟩
      · rcases onward with ⟨_, climbed⟩ | ⟨_, next, known, climbed⟩
        · cases climbed.symm.trans failed
        · rw [climbed] at failed
          cases rest : repo.climb steps (h :: seen) next with
          | ok later =>
              rw [rest] at failed
              cases failed
          | error cause =>
              rw [rest] at failed
              cases failed
              obtain ⟨base, last, above, stops, dangles⟩ := ih (closed.issued known) rest
              exact ⟨base, last, .head ⟨ref, h, follows, resolved, known⟩ above, stops, dangles⟩

/-! ## All base classes -/

/-- The bases of a type are its base chain. -/
theorem mem_of_bases (closed : repo.Closed) (issued : ∀ h ∈ d.handles, repo.Issued h)
    {handles : List Handle} (climbed : d.bases repo = .ok handles) {base : TypeDef}
    (above : d.OnBaseChain repo base) :
    (base = d ∨ ∃ h ∈ handles, repo.get? h = some base) ∧ base.ContinuesIn repo handles := by
  obtain ⟨atStart, behind⟩ := continuesIn_of_climb closed issued .nil (by simp) (by simp) climbed
  induction above with
  | refl => exact ⟨.inl rfl, atStart⟩
  | tail _ extend ih =>
      obtain ⟨ref, h, follows, resolved, known⟩ := extend
      obtain ⟨next, listed, resolvedToo⟩ := ih.2 ref follows
      cases Except.ok.inj (resolved.symm.trans resolvedToo)
      obtain ⟨member, knownMember, continues⟩ := behind h listed
      cases Option.some.inj (known.symm.trans knownMember)
      exact ⟨.inr ⟨h, listed, known⟩, continues⟩

theorem exists_of_mem_bases (closed : repo.Closed) (issued : ∀ h ∈ d.handles, repo.Issued h)
    {handles : List Handle} (climbed : d.bases repo = .ok handles) {h : Handle}
    (listed : h ∈ handles) : ∃ base, repo.get? h = some base := by
  obtain ⟨_, behind⟩ := continuesIn_of_climb closed issued .nil (by simp) (by simp) climbed
  obtain ⟨base, known, _⟩ := behind h listed
  exact ⟨base, known⟩

theorem exists_dangling_of_bases (closed : repo.Closed) (issued : ∀ h ∈ d.handles, repo.Issued h)
    {fault : Fault} (failed : d.bases repo = .error fault) :
    ∃ base ref, d.OnBaseChain repo base ∧ base.baseRef? repo = some ref ∧
      repo.resolve ref = .error fault :=
  exists_dangling_of_climb closed issued failed

end
end InterfaceSurface
