import InterfaceSurface.Proofs.Metadata.Issued
import InterfaceSurface.Proofs.Outcome
import InterfaceSurface.Surface.Closure
import InterfaceSurface.Surface.Layout

/-! # Definitions at other places

A handle is the place of a definition, so where definitions stand at other places the
handles inside records have to move with them.  `Repository.Relocated` says that one
repository holds the definitions of another so.

References then lead to the moved handles and are printed as before, and a base chain
goes through the moved handles: moving them keeps different handles apart, so a cyclic
chain is cut at the same class (`Repository.Relocated.bases_eq`). -/
set_option autoImplicit false
namespace InterfaceSurface

/-! ## Moving the handles inside records -/

section
variable (move : Handle → Handle)

mutual

def TypeRef.relocate : TypeRef → TypeRef
  | .handle target => .handle (move target)
  | .named name => .named name
  | .inst head args => .inst head.relocate (TypeSig.relocateArgs args)

def TypeSig.relocate : TypeSig → TypeSig
  | .element item => .element item
  | .ref target => .ref target.relocate
  | .inst head args => .inst head.relocate (TypeSig.relocateArgs args)
  | .param position => .param position
  | .array item => .array item.relocate

def TypeSig.relocateArgs : List TypeSig → List TypeSig
  | [] => []
  | arg :: rest => arg.relocate :: TypeSig.relocateArgs rest

end

def Edge.relocate (e : Edge) : Edge := { e with target := e.target.relocate move }

def Method.relocate (m : Method) : Method :=
  { m with
    result := m.result.map (TypeSig.relocate move)
    params := m.params.map fun param => { param with type := param.type.relocate move } }

def Field.relocate (f : Field) : Field := { f with type := f.type.relocate move }

def TypeDef.relocate (d : TypeDef) : TypeDef :=
  { d with
    base := d.base.map (TypeRef.relocate move)
    edges := d.edges.map (Edge.relocate move)
    methods := d.methods.map (Method.relocate move)
    fields := d.fields.map (Field.relocate move) }

end

section
variable {move : Handle → Handle}

theorem TypeRef.isInst_relocate (ref : TypeRef) : (ref.relocate move).isInst = ref.isInst := by
  cases ref <;> simp [TypeRef.relocate, TypeRef.isInst]

theorem TypeRef.rootHandles_relocate (ref : TypeRef) :
    (ref.relocate move).rootHandles = ref.rootHandles.map move := by
  induction ref using TypeRef.headInduction with
  | handle _ => simp [relocate, rootHandles]
  | named _ => simp [relocate, rootHandles]
  | inst head args ih => rw [relocate, rootHandles, rootHandles, ih]

mutual

theorem TypeRef.printedHandles_relocate :
    ∀ ref : TypeRef, (ref.relocate move).printedHandles = ref.printedHandles.map move
  | .handle target => by
      rw [TypeRef.relocate, TypeRef.printedHandles, TypeRef.printedHandles, List.map_singleton]
  | .named _ => by
      rw [TypeRef.relocate, TypeRef.printedHandles, List.map_nil]
  | .inst head args => by
      rw [TypeRef.relocate, TypeRef.printedHandles, TypeRef.printedHandles, List.map_append,
        TypeSig.printedHandlesOfArgs_relocate args, TypeRef.rootHandles_relocate]

theorem TypeSig.printedHandles_relocate :
    ∀ sig : TypeSig, (sig.relocate move).printedHandles = sig.printedHandles.map move
  | .element _ => by
      rw [TypeSig.relocate, TypeSig.printedHandles, List.map_nil]
  | .ref target => by
      rw [TypeSig.relocate, TypeSig.printedHandles, TypeSig.printedHandles,
        TypeRef.printedHandles_relocate target]
  | .inst head args => by
      rw [TypeSig.relocate, TypeSig.printedHandles, TypeSig.printedHandles, List.map_append,
        TypeSig.printedHandlesOfArgs_relocate args, TypeRef.rootHandles_relocate]
  | .param _ => by
      rw [TypeSig.relocate, TypeSig.printedHandles, List.map_nil]
  | .array item => by
      rw [TypeSig.relocate, TypeSig.printedHandles, TypeSig.printedHandles,
        TypeSig.printedHandles_relocate item]

theorem TypeSig.printedHandlesOfArgs_relocate : ∀ args : List TypeSig,
    TypeSig.printedHandlesOfArgs (TypeSig.relocateArgs move args) =
      (TypeSig.printedHandlesOfArgs args).map move
  | [] => by
      rw [TypeSig.relocateArgs, TypeSig.printedHandlesOfArgs, List.map_nil]
  | arg :: rest => by
      rw [TypeSig.relocateArgs, TypeSig.printedHandlesOfArgs, TypeSig.printedHandlesOfArgs,
        List.map_append, TypeSig.printedHandles_relocate arg,
        TypeSig.printedHandlesOfArgs_relocate rest]

end

end

/-! ## Repositories with the same definitions at other places -/

/-- The second repository holds each definition of the first at the place its handle is moved
to.  Handles that were never issued stay as they are. -/
structure Repository.Relocated (move : Handle → Handle) (repo other : Repository) : Prop where
  injective : Function.Injective move
  size_eq : other.size = repo.size
  get? : ∀ h, other.get? (move h) = (repo.get? h).map (TypeDef.relocate move)
  unissued : ∀ h, repo.get? h = none → move h = h
  find? : ∀ name, other.find? name = (repo.find? name).map move

namespace Repository.Relocated

variable {move : Handle → Handle} {repo other : Repository}

theorem get_eq (moved : Relocated move repo other) (h : Handle) :
    other.get (move h) = (repo.get h).map (TypeDef.relocate move) := by
  rw [Repository.get, Repository.get, moved.get?]
  cases known : repo.get? h with
  | none => simp [moved.unissued h known, Except.map]
  | some d => rfl

theorem find_eq (moved : Relocated move repo other) (name : TypeName) :
    other.find name = (repo.find name).map move := by
  rw [Repository.find, Repository.find, moved.find?]
  cases repo.find? name <;> rfl

theorem checkIssued_eq (moved : Relocated move repo other) (handles : List Handle) :
    other.checkIssued (handles.map move) = repo.checkIssued handles := by
  induction handles with
  | nil => rfl
  | cons h rest ih =>
      rw [List.map_cons, checkIssued, checkIssued, moved.get?]
      cases known : repo.get? h with
      | none => simp [moved.unissued h known]
      | some d => exact ih

theorem resolve_eq (moved : Relocated move repo other) (ref : TypeRef) :
    other.resolve (ref.relocate move) = (repo.resolve ref).map move := by
  induction ref using TypeRef.headInduction with
  | handle target =>
      rw [TypeRef.relocate]
      rfl
  | named name =>
      rw [TypeRef.relocate]
      exact moved.find_eq name
  | inst head args ih =>
      rw [TypeRef.relocate]
      exact ih

theorem nameOf_eq (moved : Relocated move repo other) (ref : TypeRef) :
    other.nameOf (ref.relocate move) = repo.nameOf ref := by
  induction ref using TypeRef.headInduction with
  | handle target =>
      rw [TypeRef.relocate, nameOf, nameOf, moved.get_eq]
      cases repo.get target <;> rfl
  | named name =>
      rw [TypeRef.relocate]
      rfl
  | inst head args ih =>
      rw [TypeRef.relocate]
      exact ih

theorem rootName_eq (moved : Relocated move repo other) (ref : TypeRef) :
    other.rootName (ref.relocate move) = repo.rootName ref := by
  rw [rootName, rootName, moved.nameOf_eq]

/-! ## Base classes -/

theorem baseClass?_eq (moved : Relocated move repo other) (d : TypeDef) :
    (d.relocate move).baseClass? other = (d.baseClass? repo).map (Option.map move) := by
  unfold TypeDef.baseClass?
  rw [TypeDef.relocate]
  cases d.base with
  | none => rfl
  | some ref =>
      dsimp only [Option.map_some]
      refine bind_eq_map_of_eq (moved.nameOf_eq ref) fun name => ?_
      by_cases root : name = TypeName.systemObject
      · simp only [root, if_true]
        rfl
      · simp only [root, if_false]
        exact bind_eq_map (moved.resolve_eq ref) fun h => rfl

theorem climb_eq (moved : Relocated move repo other) (steps : Nat) (seen : List Handle)
    (d : TypeDef) :
    other.climb steps (seen.map move) (d.relocate move) = (repo.climb steps seen d).map (List.map move) := by
  induction steps generalizing seen d with
  | zero => rfl
  | succ steps ih =>
      rw [climb, climb]
      refine bind_eq_map (moved.baseClass?_eq d) fun found => ?_
      cases found with
      | none => rfl
      | some h =>
          have before : move h ∈ seen.map move ↔ h ∈ seen := List.mem_map_of_injective moved.injective
          dsimp only [Option.map_some]
          by_cases known : h ∈ seen
          · rw [if_pos (before.mpr known), if_pos known]
            rfl
          · rw [if_neg (mt before.mp known), if_neg known]
            refine bind_eq_map (moved.get_eq h) fun base => ?_
            exact bind_eq_map (ih (h :: seen) base) fun rest => rfl

theorem bases_eq (moved : Relocated move repo other) (d : TypeDef) :
    (d.relocate move).bases other = (d.bases repo).map (List.map move) := by
  rw [TypeDef.bases, TypeDef.bases, moved.size_eq]
  exact moved.climb_eq _ [] d

/-! ## Feature gates and methods -/

theorem enumeratorName?_eq (moved : Relocated move repo other) (value : EnumValue) :
    other.enumeratorName? value = repo.enumeratorName? value := by
  unfold enumeratorName?
  rw [moved.find?]
  cases repo.find? value.enumType with
  | none => rfl
  | some h =>
      simp only [Option.map_some, Option.bind_eq_bind, Option.bind_some, moved.get?]
      cases repo.get? h with
      | none => rfl
      | some d =>
          simp only [Option.map_some, Option.bind_some, TypeDef.relocate, List.find?_map]
          have same : (fun f : Field => f.constant == some value.value) ∘ Field.relocate move =
              fun f : Field => f.constant == some value.value := rfl
          rw [same]
          cases d.fields.find? fun f => f.constant == some value.value <;> rfl

theorem isAlwaysEnabled_eq (moved : Relocated move repo other) (h : Handle) :
    other.isAlwaysEnabled (move h) = repo.isAlwaysEnabled h := by
  have gate (d : TypeDef) : (d.relocate move).isAlwaysEnabled other = d.isAlwaysEnabled repo := by
    simp only [TypeDef.isAlwaysEnabled, TypeDef.featureValue?, TypeDef.relocate,
      FeatureStage.ofEnum?, moved.enumeratorName?_eq]
  rw [isAlwaysEnabled, isAlwaysEnabled, moved.get?]
  cases repo.get? h with
  | none => rfl
  | some d => exact gate d

theorem methodCount_eq (moved : Relocated move repo other) (h : Handle) :
    other.methodCount (move h) = repo.methodCount h := by
  rw [methodCount, methodCount, moved.get?]
  cases repo.get? h with
  | none => rfl
  | some d => exact List.length_map _

end Repository.Relocated

/-! ## Printing -/

section
variable {move : Handle → Handle} {repo other : Repository}

mutual

theorem displayType_relocate (moved : repo.Relocated move other) (scope : Scope) :
    ∀ ref : TypeRef, displayType other scope (ref.relocate move) = displayType repo scope ref
  | .handle target => by
      have root := moved.rootName_eq (.handle target)
      rw [TypeRef.relocate] at root ⊢
      rw [displayType, displayType, root]
  | .named _ => by
      rw [TypeRef.relocate, displayType, displayType]
  | .inst head args => by
      rw [TypeRef.relocate, displayType, displayType, moved.rootName_eq,
        displayArgs_relocate moved scope args]

theorem displaySig_relocate (moved : repo.Relocated move other) (scope : Scope) :
    ∀ sig : TypeSig, displaySig other scope (sig.relocate move) = displaySig repo scope sig
  | .element _ => by
      rw [TypeSig.relocate, displaySig, displaySig]
  | .ref target => by
      rw [TypeSig.relocate, displaySig, displaySig, displayType_relocate moved scope target]
  | .inst head args => by
      rw [TypeSig.relocate, displaySig, displaySig, moved.rootName_eq,
        displayArgs_relocate moved scope args]
  | .param _ => by
      rw [TypeSig.relocate, displaySig, displaySig]
  | .array item => by
      rw [TypeSig.relocate, displaySig, displaySig, displaySig_relocate moved scope item]

theorem displayArgs_relocate (moved : repo.Relocated move other) (scope : Scope) :
    ∀ args : List TypeSig,
      displayArgs other scope (TypeSig.relocateArgs move args) = displayArgs repo scope args
  | [] => by
      rw [TypeSig.relocateArgs, displayArgs, displayArgs]
  | arg :: rest => by
      rw [TypeSig.relocateArgs, displayArgs, displayArgs, displaySig_relocate moved scope arg,
        displayArgs_relocate moved scope rest]

end

namespace Repository.Relocated

theorem display_name_eq (moved : repo.Relocated move other) (ref : TypeRef) (scope : Scope) :
    Renderer.display.name other (ref.relocate move) scope = Renderer.display.name repo ref scope := by
  rw [Renderer.name, Renderer.name, TypeRef.printedHandles_relocate, moved.checkIssued_eq]
  simp only [Renderer.display, displayType_relocate moved]

theorem enter_eq (moved : repo.Relocated move other) (scope : Scope) (ref : TypeRef) :
    scope.enter other .display (ref.relocate move) = scope.enter repo .display ref := by
  cases ref with
  | handle _ =>
      rw [TypeRef.relocate]
      rfl
  | named _ =>
      rw [TypeRef.relocate]
      rfl
  | inst head args =>
      have printed := displayArgs_relocate moved scope args
      simp only [displayArgs_eq_map] at printed
      simp only [TypeRef.relocate, Scope.enter, Renderer.display, printed]

theorem follow_eq (moved : repo.Relocated move other) (approach : Approach) (e : Edge) :
    approach.follow other .display (e.relocate move) = approach.follow repo .display e := by
  simp only [Approach.follow, Edge.relocate, Edge.isDefault, Edge.isOverridable, moved.enter_eq]

end Repository.Relocated

end
end InterfaceSurface
