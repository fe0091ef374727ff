import InterfaceSurface.Proofs.Metadata.Alike
import InterfaceSurface.Proofs.Metadata.Issued

/-! # References by name and by handle

A reference is respelled when some of the names in it, at any depth, are replaced by
the handles they lead to.  The respelled reference resolves as the first one does
(`TypeRef.Respelled.resolve_eq`), has the same name and is printed alike
(`TypeRef.Respelled.display_eq`); the handles that come in were issued, so printing
faults where it did before.

In a respelled repository the edges and the base of every definition are respelled, each
on its own; all else is as it was.  Names lead to the same handles there, so base chains
are the same (`Repository.Alike.bases_eq_of_respelled`). -/
set_option autoImplicit false
namespace InterfaceSurface

mutual

inductive TypeRef.Respelled (repo : Repository) : TypeRef → TypeRef → Prop
  | handle (target : Handle) : TypeRef.Respelled repo (.handle target) (.handle target)
  | named (name : TypeName) : TypeRef.Respelled repo (.named name) (.named name)
  | found {name : TypeName} {target : Handle} (present : repo.find? name = some target) :
      TypeRef.Respelled repo (.named name) (.handle target)
  | inst {head headToo : TypeRef} {args argsToo : List TypeSig}
      (heads : TypeRef.Respelled repo head headToo)
      (arguments : TypeSig.ArgsRespelled repo args argsToo) :
      TypeRef.Respelled repo (.inst head args) (.inst headToo argsToo)

inductive TypeSig.Respelled (repo : Repository) : TypeSig → TypeSig → Prop
  | element (item : Element) : TypeSig.Respelled repo (.element item) (.element item)
  | ref {target targetToo : TypeRef} (targets : TypeRef.Respelled repo target targetToo) :
      TypeSig.Respelled repo (.ref target) (.ref targetToo)
  | inst {head headToo : TypeRef} {args argsToo : List TypeSig}
      (heads : TypeRef.Respelled repo head headToo)
      (arguments : TypeSig.ArgsRespelled repo args argsToo) :
      TypeSig.Respelled repo (.inst head args) (.inst headToo argsToo)
  | param (position : Nat) : TypeSig.Respelled repo (.param position) (.param position)
  | array {item itemToo : TypeSig} (items : TypeSig.Respelled repo item itemToo) :
      TypeSig.Respelled repo (.array item) (.array itemToo)

inductive TypeSig.ArgsRespelled (repo : Repository) : List TypeSig → List TypeSig → Prop
  | nil : TypeSig.ArgsRespelled repo [] []
  | cons {arg argToo : TypeSig} {rest restToo : List TypeSig}
      (first : TypeSig.Respelled repo arg argToo)
      (later : TypeSig.ArgsRespelled repo rest restToo) :
      TypeSig.ArgsRespelled repo (arg :: rest) (argToo :: restToo)

end

/-- The edges have the same marks, and where they lead is respelled. -/
def Edge.Respelled (repo : Repository) (e other : Edge) : Prop :=
  e.target.Respelled repo other.target ∧ e.attributes = other.attributes

structure TypeDef.Respelled (repo : Repository) (d other : TypeDef) : Prop where
  rest : other = { d with base := other.base, edges := other.edges }
  base : Option.Rel (TypeRef.Respelled repo) d.base other.base
  edges : List.Forall₂ (Edge.Respelled repo) d.edges other.edges

section
variable {repo : Repository}

/-! ## In one repository -/

namespace TypeRef.Respelled

/-- What a name and the handle it leads to have in common, and what passes from heads to
their instantiations, respelled references have in common. -/
@[elab_as_elim]
theorem headInduction {motive : (ref other : TypeRef) → ref.Respelled repo other → Prop}
    (handle : ∀ target, motive _ _ (.handle target)) (named : ∀ name, motive _ _ (.named name))
    (found : ∀ name target (present : repo.find? name = some target),
      motive (.named name) (.handle target) (.found present))
    (inst : ∀ head headToo args argsToo (heads : head.Respelled repo headToo)
      (arguments : TypeSig.ArgsRespelled repo args argsToo), motive head headToo heads →
      motive (.inst head args) (.inst headToo argsToo) (.inst heads arguments)) :
    ∀ {ref other : TypeRef} (respelled : ref.Respelled repo other), motive ref other respelled
  | _, _, .handle target => handle target
  | _, _, .named name => named name
  | _, _, .found present => found _ _ present
  | _, _, .inst heads arguments =>
      inst _ _ _ _ heads arguments (headInduction handle named found inst heads)

variable {ref other : TypeRef}

theorem resolve_eq (respelled : ref.Respelled repo other) :
    repo.resolve ref = repo.resolve other := by
  induction respelled using headInduction with
  | handle _ => rfl
  | named _ => rfl
  | found name target present => exact Repository.find_eq_ok_iff.mpr present
  | inst _ _ _ _ _ _ ih => exact ih

theorem nameOf_eq (respelled : ref.Respelled repo other) :
    repo.nameOf ref = repo.nameOf other := by
  induction respelled using headInduction with
  | handle _ => rfl
  | named _ => rfl
  | found name target present =>
      obtain ⟨d, known, rfl⟩ := Repository.exists_of_find? present
      simp [Repository.nameOf, Repository.get, known, Except.map]
  | inst _ _ _ _ _ _ ih => exact ih

theorem rootName_eq (respelled : ref.Respelled repo other) :
    repo.rootName ref = repo.rootName other := by
  rw [Repository.rootName, Repository.rootName, respelled.nameOf_eq]

theorem isInst_eq (respelled : ref.Respelled repo other) :
    ref.isInst = other.isInst := by
  cases respelled <;> rfl

/-- The handle that comes in for a name was issued. -/
theorem checkIssued_root (respelled : ref.Respelled repo other) :
    repo.checkIssued ref.rootHandles = repo.checkIssued other.rootHandles := by
  induction respelled using headInduction with
  | handle _ => rfl
  | named _ => rfl
  | found name target present =>
      obtain ⟨d, known, _⟩ := Repository.exists_of_find? present
      simp [rootHandles, Repository.checkIssued, known]
  | inst _ _ _ _ _ _ ih => exact ih

end TypeRef.Respelled

mutual

theorem TypeRef.Respelled.checkIssued_eq : ∀ {ref other : TypeRef}, ref.Respelled repo other →
    repo.checkIssued ref.printedHandles = repo.checkIssued other.printedHandles
  | _, _, .handle _ => rfl
  | _, _, .named _ => rfl
  | _, _, .found present => TypeRef.Respelled.checkIssued_root (.found present)
  | _, _, .inst heads arguments =>
      Repository.checkIssued_append_congr arguments.checkIssued_eq heads.checkIssued_root

theorem TypeSig.Respelled.checkIssued_eq : ∀ {sig other : TypeSig}, sig.Respelled repo other →
    repo.checkIssued sig.printedHandles = repo.checkIssued other.printedHandles
  | _, _, .element _ => rfl
  | _, _, .ref targets => targets.checkIssued_eq
  | _, _, .inst heads arguments =>
      Repository.checkIssued_append_congr arguments.checkIssued_eq heads.checkIssued_root
  | _, _, .param _ => rfl
  | _, _, .array items => items.checkIssued_eq

theorem TypeSig.ArgsRespelled.checkIssued_eq : ∀ {args others : List TypeSig},
    TypeSig.ArgsRespelled repo args others →
    repo.checkIssued (TypeSig.printedHandlesOfArgs args) =
      repo.checkIssued (TypeSig.printedHandlesOfArgs others)
  | _, _, .nil => rfl
  | _, _, .cons first later =>
      Repository.checkIssued_append_congr first.checkIssued_eq later.checkIssued_eq

end

mutual

theorem TypeRef.Respelled.display_eq (scope : Scope) : ∀ {ref other : TypeRef},
    ref.Respelled repo other → displayType repo scope ref = displayType repo scope other
  | _, _, .handle _ => rfl
  | _, _, .named _ => rfl
  | _, _, .found present => by
      rw [displayType, displayType, ← TypeRef.Respelled.rootName_eq (.found present)]
      rfl
  | _, _, .inst heads arguments => by
      rw [displayType, displayType, heads.rootName_eq, arguments.display_eq scope]

theorem TypeSig.Respelled.display_eq (scope : Scope) : ∀ {sig other : TypeSig},
    sig.Respelled repo other → displaySig repo scope sig = displaySig repo scope other
  | _, _, .element _ => rfl
  | _, _, .ref targets => by
      rw [displaySig, displaySig, targets.display_eq scope]
  | _, _, .inst heads arguments => by
      rw [displaySig, displaySig, heads.rootName_eq, arguments.display_eq scope]
  | _, _, .param _ => rfl
  | _, _, .array items => by
      rw [displaySig, displaySig, items.display_eq scope]

theorem TypeSig.ArgsRespelled.display_eq (scope : Scope) : ∀ {args others : List TypeSig},
    TypeSig.ArgsRespelled repo args others →
    displayArgs repo scope args = displayArgs repo scope others
  | _, _, .nil => rfl
  | _, _, .cons first later => by
      rw [displayArgs, displayArgs, first.display_eq scope, later.display_eq scope]

end

/-! ## In a respelled repository -/

variable {other : Repository}

theorem TypeDef.Respelled.attributes_eq {d e : TypeDef} (respelled : d.Respelled repo e) :
    d.attributes = e.attributes := by
  rw [respelled.rest]

theorem TypeDef.Respelled.name_eq {d e : TypeDef} (respelled : d.Respelled repo e) :
    d.name = e.name := by
  rw [respelled.rest]

namespace Repository.Alike

variable {ref refToo : TypeRef} {d e : TypeDef}

theorem resolve_eq_of_respelled (alike : repo.Alike (TypeDef.Respelled repo) other)
    (respelled : ref.Respelled repo refToo) : repo.resolve ref = other.resolve refToo :=
  respelled.resolve_eq.trans (alike.resolve_eq refToo)

theorem baseClass?_eq_of_respelled (alike : repo.Alike (TypeDef.Respelled repo) other)
    (respelled : d.Respelled repo e) : d.baseClass? repo = e.baseClass? other := by
  have bases := respelled.base
  unfold TypeDef.baseClass?
  generalize d.base = base at bases ⊢
  generalize e.base = baseToo at bases ⊢
  cases bases with
  | none => rfl
  | some respelledRef =>
      simp only [respelledRef.nameOf_eq, alike.nameOf_eq,
        alike.resolve_eq_of_respelled respelledRef]

theorem bases_eq_of_respelled (alike : repo.Alike (TypeDef.Respelled repo) other)
    (respelled : d.Respelled repo e) : d.bases repo = e.bases other :=
  alike.bases_eq_of_baseClass? (fun _ _ both => alike.baseClass?_eq_of_respelled both)
    (alike.baseClass?_eq_of_respelled respelled)

theorem isAlwaysEnabled_eq_of_respelled (alike : repo.Alike (TypeDef.Respelled repo) other) :
    repo.isAlwaysEnabled = other.isAlwaysEnabled := by
  apply alike.isAlwaysEnabled_eq
  intro a b both
  rw [both.rest]
  exact ⟨rfl, rfl⟩

theorem methodCount_eq_of_respelled (alike : repo.Alike (TypeDef.Respelled repo) other) :
    repo.methodCount = other.methodCount := by
  apply alike.methodCount_eq
  intro a b both
  rw [both.rest]

theorem display_name_eq_of_respelled (alike : repo.Alike (TypeDef.Respelled repo) other)
    (respelled : ref.Respelled repo refToo) (scope : Scope) :
    Renderer.display.name repo ref scope = Renderer.display.name other refToo scope := by
  have printed : displayType repo scope ref = displayType other scope refToo :=
    (respelled.display_eq scope).trans (displayType_eq_of_alike alike scope refToo)
  rw [Renderer.name, Renderer.name, respelled.checkIssued_eq, alike.checkIssued_eq]
  simp only [Renderer.display, printed]

theorem enter_eq_of_respelled (alike : repo.Alike (TypeDef.Respelled repo) other)
    (respelled : ref.Respelled repo refToo) (scope : Scope) :
    scope.enter repo .display ref = scope.enter other .display refToo := by
  cases respelled with
  | handle _ => rfl
  | named _ => rfl
  | found _ => rfl
  | inst _ arguments =>
      have printed := (arguments.display_eq scope).trans (displayArgs_eq_of_alike alike scope _)
      simp only [displayArgs_eq_map] at printed
      simp only [Scope.enter, Renderer.display, printed]

theorem follow_eq_of_respelled (alike : repo.Alike (TypeDef.Respelled repo) other)
    {edge edgeToo : Edge} (respelled : edge.Respelled repo edgeToo) (approach : Approach) :
    approach.follow repo .display edge = approach.follow other .display edgeToo := by
  simp only [Approach.follow, Edge.isDefault, Edge.isOverridable, respelled.2,
    alike.enter_eq_of_respelled respelled.1]

end Repository.Alike

end
end InterfaceSurface
