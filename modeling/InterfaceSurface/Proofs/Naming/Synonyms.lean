import InterfaceSurface.Marshaling
import InterfaceSurface.MethodView
import InterfaceSurface.Proofs.Metadata.Respelling
import InterfaceSurface.Proofs.Naming.Unambiguous

/-! # Synonymous signatures

A definition that is present can be given by its name or by the handle the name leads to, and
an instantiation can stand as a reference or as a signature of its own.  Signatures are
synonymous when no more than that sets them apart, at any depth.  The name of the identifier
value type has no synonym: it says a struct and is never looked up, while a handle is whatever
its definition says.

Synonymous signatures have one canonical form (`TypeSig.Synonymous.canonical_eq`), so they are
printed alike.  What is told from the outermost part of a signature, whether it has an
asynchronous shape and how its values are marshaled, is the same as well
(`TypeSig.synonyms_alike`). -/
set_option autoImplicit false
namespace InterfaceSurface

/-! ## The least congruence -/

mutual

/-- Whatever stands in a reference may be exchanged for a synonym. -/
inductive TypeRef.Synonymous (repo : Repository) : TypeRef → TypeRef → Prop
  | refl (ref : TypeRef) : TypeRef.Synonymous repo ref ref
  | symm {ref other : TypeRef} (synonymous : TypeRef.Synonymous repo ref other) :
      TypeRef.Synonymous repo other ref
  | trans {ref middle other : TypeRef} (first : TypeRef.Synonymous repo ref middle)
      (later : TypeRef.Synonymous repo middle other) : TypeRef.Synonymous repo ref other
  | found {name : TypeName} {target : Handle} (present : repo.find? name = some target)
      (usual : name ≠ TypeName.systemGuid) :
      TypeRef.Synonymous repo (.named name) (.handle target)
  | inst {head headToo : TypeRef} {args argsToo : List TypeSig}
      (heads : TypeRef.Synonymous repo head headToo)
      (arguments : TypeSig.ArgsSynonymous repo args argsToo) :
      TypeRef.Synonymous repo (.inst head args) (.inst headToo argsToo)

inductive TypeSig.Synonymous (repo : Repository) : TypeSig → TypeSig → Prop
  | refl (sig : TypeSig) : TypeSig.Synonymous repo sig sig
  | symm {sig other : TypeSig} (synonymous : TypeSig.Synonymous repo sig other) :
      TypeSig.Synonymous repo other sig
  | trans {sig middle other : TypeSig} (first : TypeSig.Synonymous repo sig middle)
      (later : TypeSig.Synonymous repo middle other) : TypeSig.Synonymous repo sig other
  | ref {target targetToo : TypeRef} (targets : TypeRef.Synonymous repo target targetToo) :
      TypeSig.Synonymous repo (.ref target) (.ref targetToo)
  | flat (head : TypeRef) (args : List TypeSig) :
      TypeSig.Synonymous repo (.ref (.inst head args)) (.inst head args)
  | inst {head headToo : TypeRef} {args argsToo : List TypeSig}
      (heads : TypeRef.Synonymous repo head headToo)
      (arguments : TypeSig.ArgsSynonymous repo args argsToo) :
      TypeSig.Synonymous repo (.inst head args) (.inst headToo argsToo)
  | array {item itemToo : TypeSig} (items : TypeSig.Synonymous repo item itemToo) :
      TypeSig.Synonymous repo (.array item) (.array itemToo)

inductive TypeSig.ArgsSynonymous (repo : Repository) : List TypeSig → List TypeSig → Prop
  | nil : TypeSig.ArgsSynonymous repo [] []
  | cons {arg argToo : TypeSig} {rest restToo : List TypeSig}
      (first : TypeSig.Synonymous repo arg argToo)
      (later : TypeSig.ArgsSynonymous repo rest restToo) :
      TypeSig.ArgsSynonymous repo (arg :: rest) (argToo :: restToo)

end

variable {repo : Repository}

/-! ## What synonymous references have in common -/

theorem Marshaling.ofRef_of_present {name : TypeName} {target : Handle}
    (present : repo.find? name = some target) (usual : name ≠ TypeName.systemGuid) :
    ofRef repo (.named name) = ofRef repo (.handle target) := by
  rw [ofRef, ofRef, if_neg usual, Repository.find_eq_ok_iff.mpr present]
  rfl

namespace TypeRef.Synonymous

/-- What a name and its handle have in common, and instantiations whatever their arguments if
their heads do, synonymous references have in common. -/
theorem observed_eq {α : Type} (observed : TypeRef → α)
    (found : ∀ {name target}, repo.find? name = some target → name ≠ TypeName.systemGuid →
      observed (.named name) = observed (.handle target))
    (inst : ∀ {head headToo} (args argsToo), observed head = observed headToo →
      observed (.inst head args) = observed (.inst headToo argsToo)) :
    ∀ {ref other : TypeRef}, ref.Synonymous repo other → observed ref = observed other
  | _, _, .refl _ => rfl
  | _, _, .symm synonymous => (observed_eq observed found inst synonymous).symm
  | _, _, .trans first later =>
      (observed_eq observed found inst first).trans (observed_eq observed found inst later)
  | _, _, .found present usual => found present usual
  | _, _, .inst heads _ => inst _ _ (observed_eq observed found inst heads)

variable {ref other : TypeRef}

theorem nameOf_eq (synonymous : ref.Synonymous repo other) :
    repo.nameOf ref = repo.nameOf other :=
  synonymous.observed_eq repo.nameOf
    (fun present _ => (TypeRef.Respelled.found present).nameOf_eq) fun _ _ heads => heads

theorem isInst_eq (synonymous : ref.Synonymous repo other) : ref.isInst = other.isInst :=
  synonymous.observed_eq TypeRef.isInst (fun _ _ => rfl) fun _ _ _ => rfl

theorem checkIssued_root (synonymous : ref.Synonymous repo other) :
    repo.checkIssued ref.rootHandles = repo.checkIssued other.rootHandles :=
  synonymous.observed_eq (fun ref => repo.checkIssued ref.rootHandles)
    (fun present _ => (TypeRef.Respelled.found present).checkIssued_root) fun _ _ heads => heads

theorem ofRef_eq (synonymous : ref.Synonymous repo other) :
    Marshaling.ofRef repo ref = Marshaling.ofRef repo other :=
  synonymous.observed_eq (Marshaling.ofRef repo) Marshaling.ofRef_of_present fun _ _ _ => rfl

end TypeRef.Synonymous

/-! ## Printing -/

mutual

theorem TypeRef.Synonymous.canonical_eq : ∀ {ref other : TypeRef}, ref.Synonymous repo other →
    ref.canonical repo = other.canonical repo
  | _, _, .refl _ => rfl
  | _, _, .symm synonymous => synonymous.canonical_eq.symm
  | _, _, .trans first later => first.canonical_eq.trans later.canonical_eq
  | _, _, .found present _ => congrArg TypeRef.named (TypeRef.Respelled.found present).rootName_eq
  | _, _, .inst heads arguments => by
      rw [TypeRef.canonical, TypeRef.canonical, heads.canonical_eq, arguments.canonical_eq]

theorem TypeSig.Synonymous.canonical_eq : ∀ {sig other : TypeSig}, sig.Synonymous repo other →
    sig.canonical repo = other.canonical repo
  | _, _, .refl _ => rfl
  | _, _, .symm synonymous => synonymous.canonical_eq.symm
  | _, _, .trans first later => first.canonical_eq.trans later.canonical_eq
  | _, _, .ref targets => by
      rw [TypeSig.canonical, TypeSig.canonical, targets.canonical_eq]
  | _, _, .flat _ _ => by
      rw [TypeSig.canonical, TypeSig.canonical, TypeRef.canonical, TypeRef.asSig]
  | _, _, .inst heads arguments => by
      rw [TypeSig.canonical, TypeSig.canonical, heads.canonical_eq, arguments.canonical_eq]
  | _, _, .array items => by
      rw [TypeSig.canonical, TypeSig.canonical, items.canonical_eq]

theorem TypeSig.ArgsSynonymous.canonical_eq : ∀ {args others : List TypeSig},
    TypeSig.ArgsSynonymous repo args others →
    TypeSig.canonicalArgs repo args = TypeSig.canonicalArgs repo others
  | _, _, .nil => rfl
  | _, _, .cons first later => by
      rw [TypeSig.canonicalArgs, TypeSig.canonicalArgs, first.canonical_eq, later.canonical_eq]

end

mutual

theorem TypeRef.Synonymous.checkIssued_eq : ∀ {ref other : TypeRef}, ref.Synonymous repo other →
    repo.checkIssued ref.printedHandles = repo.checkIssued other.printedHandles
  | _, _, .refl _ => rfl
  | _, _, .symm synonymous => synonymous.checkIssued_eq.symm
  | _, _, .trans first later => first.checkIssued_eq.trans later.checkIssued_eq
  | _, _, .found present usual => TypeRef.Synonymous.checkIssued_root (.found present usual)
  | _, _, .inst heads arguments =>
      Repository.checkIssued_append_congr arguments.checkIssued_eq heads.checkIssued_root

theorem TypeSig.Synonymous.checkIssued_eq : ∀ {sig other : TypeSig}, sig.Synonymous repo other →
    repo.checkIssued sig.printedHandles = repo.checkIssued other.printedHandles
  | _, _, .refl _ => rfl
  | _, _, .symm synonymous => synonymous.checkIssued_eq.symm
  | _, _, .trans first later => first.checkIssued_eq.trans later.checkIssued_eq
  | _, _, .ref targets => targets.checkIssued_eq
  | _, _, .flat _ _ => rfl
  | _, _, .inst heads arguments =>
      Repository.checkIssued_append_congr arguments.checkIssued_eq heads.checkIssued_root
  | _, _, .array items => items.checkIssued_eq

theorem TypeSig.ArgsSynonymous.checkIssued_eq : ∀ {args others : List TypeSig},
    TypeSig.ArgsSynonymous repo args others →
    repo.checkIssued (TypeSig.printedHandlesOfArgs args) =
      repo.checkIssued (TypeSig.printedHandlesOfArgs others)
  | _, _, .nil => rfl
  | _, _, .cons first later =>
      Repository.checkIssued_append_congr first.checkIssued_eq later.checkIssued_eq

end

namespace TypeSig

/-! ## The outermost part -/

/-- An asynchronous shape is told from the name and from whether it is that of an instantiation. -/
theorem isAsyncShape_ref (target : TypeRef) :
    (TypeSig.ref target).isAsyncShape repo = (repo.nameOf target).map fun name =>
      if target.isInst then AsyncShape.generics.contains name else name == AsyncShape.action := by
  cases target <;> rfl

theorem isAsyncShape_inst (head : TypeRef) (args : List TypeSig) :
    (TypeSig.inst head args).isAsyncShape repo =
      (repo.nameOf head).map fun name => AsyncShape.generics.contains name := rfl

namespace Synonymous

theorem isAsyncShape_eq : ∀ {sig other : TypeSig}, sig.Synonymous repo other →
    sig.isAsyncShape repo = other.isAsyncShape repo
  | _, _, .refl _ => rfl
  | _, _, .symm synonymous => synonymous.isAsyncShape_eq.symm
  | _, _, .trans first later => first.isAsyncShape_eq.trans later.isAsyncShape_eq
  | _, _, .ref targets => by
      rw [isAsyncShape_ref, isAsyncShape_ref, targets.nameOf_eq, targets.isInst_eq]
  | _, _, .flat _ _ => rfl
  | _, _, .inst heads _ => by
      rw [isAsyncShape_inst, isAsyncShape_inst, heads.nameOf_eq]
  | _, _, .array _ => rfl

theorem marshaling_eq : ∀ {sig other : TypeSig}, sig.Synonymous repo other →
    Marshaling.ofSig repo sig = Marshaling.ofSig repo other
  | _, _, .refl _ => rfl
  | _, _, .symm synonymous => synonymous.marshaling_eq.symm
  | _, _, .trans first later => first.marshaling_eq.trans later.marshaling_eq
  | _, _, .ref targets => targets.ofRef_eq
  | _, _, .flat _ _ => rfl
  | _, _, .inst _ _ => rfl
  | _, _, .array _ => rfl

theorem display_eq {sig other : TypeSig} (synonymous : sig.Synonymous repo other) (scope : Scope) :
    displaySig repo scope sig = displaySig repo scope other := by
  rw [← TypeSig.display_canonical scope sig, synonymous.canonical_eq, TypeSig.display_canonical]

end Synonymous

/-- Synonymous signatures are printed alike in every scope, or both have a handle that was never
issued; both or neither have an asynchronous shape; and their values are marshaled alike, with
the same definition or the same fault. -/
theorem synonyms_alike {a b : TypeSig} (synonymous : a.Synonymous repo b) (scope : Scope) :
    Renderer.display.sig repo a scope = Renderer.display.sig repo b scope ∧
      Renderer.display.text repo a scope = Renderer.display.text repo b scope ∧
      a.isAsyncShape repo = b.isAsyncShape repo ∧
      Marshaling.ofSig repo a = Marshaling.ofSig repo b := by
  have printed : Renderer.display.sig repo a scope = Renderer.display.sig repo b scope :=
    synonymous.display_eq scope
  refine ⟨printed, ?_, synonymous.isAsyncShape_eq, synonymous.marshaling_eq⟩
  rw [Renderer.text, Renderer.text, printed, synonymous.checkIssued_eq]

/-- An operation, at handle 0, and the struct it may yield. -/
def operations : Repository := .ofList [
  .interfaceNamed AsyncShape.space "IAsyncOperation`1" [],
  ⟨⟨"Demo", "Point"⟩, .structType, [], none, [], [], [], []⟩]

/-- The operation is a reference, by handle; what it yields is given by name. -/
def operationByHandle : TypeSig :=
  .ref (.inst (.handle ⟨0⟩) [.array (.ref (.named ⟨"Demo", "Point"⟩))])

def operationByName : TypeSig :=
  .inst (.named ⟨AsyncShape.space, "IAsyncOperation`1"⟩) [.array (.ref (.handle ⟨1⟩))]

theorem synonyms_alike_of_operations :
    operationByHandle.Synonymous operations operationByName ∧
      Renderer.display.text operations operationByHandle .empty =
        .ok "Windows.Foundation.IAsyncOperation`1<Demo.Point[]>" ∧
      operationByHandle.isAsyncShape operations = .ok true ∧
      Renderer.display.text operations operationByHandle .empty =
        Renderer.display.text operations operationByName .empty ∧
      operationByHandle.isAsyncShape operations = operationByName.isAsyncShape operations ∧
      Marshaling.ofSig operations operationByHandle =
        Marshaling.ofSig operations operationByName := by
  have operation : TypeRef.Synonymous operations (.handle ⟨0⟩)
      (.named ⟨AsyncShape.space, "IAsyncOperation`1"⟩) := .symm (.found rfl (by decide))
  have point : TypeRef.Synonymous operations (.named ⟨"Demo", "Point"⟩) (.handle ⟨1⟩) :=
    .found rfl (by decide)
  have synonymous : operationByHandle.Synonymous operations operationByName :=
    .trans (.flat _ _) (.inst operation (.cons (.array (.ref point)) .nil))
  obtain ⟨_, printed, shape, marshaling⟩ := synonyms_alike synonymous .empty
  exact ⟨synonymous, rfl, rfl, printed, shape, marshaling⟩

end TypeSig
end InterfaceSurface
