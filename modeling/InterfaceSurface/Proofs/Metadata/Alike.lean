import InterfaceSurface.Surface.Closure
import InterfaceSurface.Surface.Layout
import Mathlib.Data.List.Forall2

/-! # Repositories that differ in some detail only

Two repositories are alike up to a relation when their definitions are related
handle by handle, and named alike.  Names lead to the same handles in both
(`Alike.find?_eq`), so references resolve alike, and where the base classes agree
too, so do the base chains (`Alike.bases_eq`).

A renderer that does not look at the detail prints the same in both
(`Renderer.PrintsAlike`); `display` looks at nothing but names. -/
set_option autoImplicit false
namespace InterfaceSurface

/-- The definitions agree in everything but the base class. -/
def TypeDef.SameButBase (d other : TypeDef) : Prop := other = { d with base := other.base }

/-- The definitions agree in everything but the edges. -/
def TypeDef.SameButEdges (d other : TypeDef) : Prop := other = { d with edges := other.edges }

namespace Repository

/-- The definitions are named alike and related, handle by handle. -/
def Alike (related : TypeDef → TypeDef → Prop) (repo other : Repository) : Prop :=
  List.Forall₂ (fun d e => d.name = e.name ∧ related d e) repo.toList other.toList

end Repository

/-- The renderer says the same of all references and signatures. -/
structure Renderer.PrintsAlike (renderer : Renderer) (repo other : Repository) : Prop where
  type : ∀ ref scope, renderer.type repo ref scope = renderer.type other ref scope
  sig : ∀ sig scope, renderer.sig repo sig scope = renderer.sig other sig scope

theorem Renderer.PrintsAlike.symm {renderer : Renderer} {repo other : Repository}
    (prints : renderer.PrintsAlike repo other) : renderer.PrintsAlike other repo :=
  ⟨fun ref scope => (prints.type ref scope).symm, fun sig scope => (prints.sig sig scope).symm⟩

theorem Repository.toList_foldl_insert (types : List TypeDef) (repo : Repository) :
    (types.foldl insert repo).toList = repo.toList ++ types := by
  induction types generalizing repo with
  | nil => simp
  | cons d rest ih =>
      rw [List.foldl_cons, ih]
      simp [insert, toList]

theorem Repository.toList_ofList (types : List TypeDef) : (ofList types).toList = types :=
  toList_foldl_insert types empty

theorem Repository.size_ofList (types : List TypeDef) : (ofList types).size = types.length := by
  rw [← toList_ofList types, size, toList, Array.length_toList, ← toList, toList_ofList]

theorem lastNamed?_congr (name : TypeName) : ∀ {types others : List TypeDef},
    types.map TypeDef.name = others.map TypeDef.name →
    lastNamed? name types = lastNamed? name others := by
  intro types
  induction types with
  | nil =>
      intro others same
      rw [List.map_eq_nil_iff.mp same.symm]
  | cons d types ih =>
      intro others same
      cases others with
      | nil => simp at same
      | cons e others =>
          simp only [List.map_cons, List.cons.injEq] at same
          rw [lastNamed?, lastNamed?, ih same.2, same.1]

namespace Repository.Alike

variable {related : TypeDef → TypeDef → Prop} {repo other : Repository}

theorem symm (alike : repo.Alike related other) : other.Alike (fun d e => related e d) repo :=
  List.Forall₂.flip (alike.imp fun _ _ both => ⟨both.1.symm, both.2⟩)

theorem mono {weaker : TypeDef → TypeDef → Prop} (alike : repo.Alike related other)
    (le : ∀ d e, related d e → weaker d e) : repo.Alike weaker other :=
  alike.imp fun d e both => ⟨both.1, le d e both.2⟩

/-! ## Look-ups -/

theorem size_eq (alike : repo.Alike related other) : repo.size = other.size :=
  alike.length_eq

theorem names_eq (alike : repo.Alike related other) :
    repo.toList.map TypeDef.name = other.toList.map TypeDef.name := by
  rw [← List.forall₂_eq_eq_eq, List.forall₂_map_left_iff, List.forall₂_map_right_iff]
  exact alike.imp fun _ _ both => both.1

theorem find?_eq (alike : repo.Alike related other) (name : TypeName) :
    repo.find? name = other.find? name := by
  rw [find?, find?, repo.index_agrees, other.index_agrees]
  exact congrArg _ (lastNamed?_congr name alike.names_eq)

theorem find_eq (alike : repo.Alike related other) (name : TypeName) :
    repo.find name = other.find name := by
  rw [find, find, alike.find?_eq]

theorem get? (alike : repo.Alike related other) {h : Handle} {d : TypeDef}
    (known : repo.get? h = some d) :
    ∃ e, other.get? h = some e ∧ d.name = e.name ∧ related d e := by
  obtain ⟨inside, rfl⟩ := Array.getElem?_eq_some_iff.mp known
  have insideToo : h.index < other.types.size := lt_of_lt_of_eq inside alike.size_eq
  exact ⟨other.types[h.index], Array.getElem?_eq_getElem insideToo,
    List.Forall₂.get alike inside insideToo⟩

theorem get?_eq_none (alike : repo.Alike related other) {h : Handle}
    (unissued : repo.get? h = none) : other.get? h = none := by
  have outside : repo.size ≤ h.index := Array.getElem?_eq_none_iff.mp unissued
  exact Array.getElem?_eq_none_iff.mpr (le_of_eq_of_le alike.size_eq.symm outside)

/-- What is done with the definition behind a handle is the same if it is the same
for related definitions. -/
theorem get_bind_congr (alike : repo.Alike related other) (h : Handle) {α : Type}
    {next nextToo : TypeDef → Except Fault α}
    (same : ∀ d e, d.name = e.name → related d e → next d = nextToo e) :
    repo.get h >>= next = other.get h >>= nextToo := by
  cases known : repo.get? h with
  | none => simp [Repository.get, known, alike.get?_eq_none known, bind, Except.bind]
  | some d =>
      obtain ⟨e, knownToo, named, both⟩ := alike.get? known
      simp [Repository.get, known, knownToo, bind, Except.bind, same d e named both]

theorem checkIssued_eq (alike : repo.Alike related other) (handles : List Handle) :
    repo.checkIssued handles = other.checkIssued handles := by
  induction handles with
  | nil => rfl
  | cons h rest ih =>
      cases known : repo.get? h with
      | none => simp [checkIssued, known, alike.get?_eq_none known]
      | some d =>
          obtain ⟨e, knownToo, _⟩ := alike.get? known
          simp [checkIssued, known, knownToo, ih]

theorem resolve_eq (alike : repo.Alike related other) (ref : TypeRef) :
    repo.resolve ref = other.resolve ref := by
  induction ref using TypeRef.headInduction with
  | handle _ => rfl
  | named name => exact alike.find_eq name
  | inst _ _ ih => exact ih

theorem nameOf_eq (alike : repo.Alike related other) (ref : TypeRef) :
    repo.nameOf ref = other.nameOf ref := by
  induction ref using TypeRef.headInduction with
  | handle target =>
      cases known : repo.get? target with
      | none => simp [nameOf, Repository.get, known, alike.get?_eq_none known]
      | some d =>
          obtain ⟨e, knownToo, named, _⟩ := alike.get? known
          simp [nameOf, Repository.get, known, knownToo, named, Except.map]
  | named _ => rfl
  | inst _ _ ih => exact ih

/-! ## Base classes -/

theorem baseClass?_eq (alike : repo.Alike related other) {d e : TypeDef} (same : d.base = e.base) :
    d.baseClass? repo = e.baseClass? other := by
  unfold TypeDef.baseClass?
  rw [same]
  cases e.base with
  | none => rfl
  | some ref => simp only [alike.nameOf_eq, alike.resolve_eq]

theorem climb_eq (alike : repo.Alike related other)
    (sameBase : ∀ d e, related d e → d.baseClass? repo = e.baseClass? other) (steps : Nat)
    (seen : List Handle) {d e : TypeDef} (same : d.baseClass? repo = e.baseClass? other) :
    repo.climb steps seen d = other.climb steps seen e := by
  induction steps generalizing seen d e with
  | zero => rfl
  | succ steps ih =>
      rw [Repository.climb, Repository.climb, same]
      refine congrArg _ (funext fun found => ?_)
      cases found with
      | none => rfl
      | some h =>
          by_cases known : h ∈ seen
          · simp only [known, if_true]
          · simp only [known, if_false]
            refine alike.get_bind_congr h fun base baseToo _ both => ?_
            rw [ih (h :: seen) (sameBase base baseToo both)]

theorem bases_eq_of_baseClass? (alike : repo.Alike related other)
    (sameBase : ∀ d e, related d e → d.baseClass? repo = e.baseClass? other) {d e : TypeDef}
    (same : d.baseClass? repo = e.baseClass? other) : d.bases repo = e.bases other := by
  rw [TypeDef.bases, TypeDef.bases, alike.size_eq]
  exact alike.climb_eq sameBase _ [] same

theorem bases_eq (alike : repo.Alike related other)
    (sameBase : ∀ d e, related d e → d.base = e.base) {d e : TypeDef} (same : d.base = e.base) :
    d.bases repo = e.bases other :=
  alike.bases_eq_of_baseClass? (fun a b both => alike.baseClass?_eq (sameBase a b both))
    (alike.baseClass?_eq same)

/-! ## Feature gates and methods -/

theorem enumeratorName?_eq (alike : repo.Alike related other)
    (sameFields : ∀ d e, related d e → d.fields = e.fields) (value : EnumValue) :
    repo.enumeratorName? value = other.enumeratorName? value := by
  unfold enumeratorName?
  rw [alike.find?_eq]
  refine congrArg _ (funext fun h => ?_)
  cases known : repo.get? h with
  | none => rw [alike.get?_eq_none known]
  | some d =>
      obtain ⟨e, knownToo, _, both⟩ := alike.get? known
      rw [knownToo, Option.bind_eq_bind, Option.bind_eq_bind, Option.bind_some, Option.bind_some,
        sameFields d e both]

theorem isAlwaysEnabled_eq (alike : repo.Alike related other)
    (same : ∀ d e, related d e → d.attributes = e.attributes ∧ d.fields = e.fields) :
    repo.isAlwaysEnabled = other.isAlwaysEnabled := by
  funext h
  unfold Repository.isAlwaysEnabled
  cases known : repo.get? h with
  | none => rw [alike.get?_eq_none known]
  | some d =>
      obtain ⟨e, knownToo, _, both⟩ := alike.get? known
      simp only [knownToo, TypeDef.isAlwaysEnabled, TypeDef.featureValue?, FeatureStage.ofEnum?,
        (same d e both).1, alike.enumeratorName?_eq fun d e both => (same d e both).2]

theorem methodCount_eq (alike : repo.Alike related other)
    (sameMethods : ∀ d e, related d e → d.methods = e.methods) :
    repo.methodCount = other.methodCount := by
  funext h
  unfold methodCount
  cases known : repo.get? h with
  | none => rw [alike.get?_eq_none known]
  | some d =>
      obtain ⟨e, knownToo, _, both⟩ := alike.get? known
      simp only [knownToo, sameMethods d e both]

end Repository.Alike

/-! ## Printing -/

section
variable {related : TypeDef → TypeDef → Prop} {repo other : Repository}

theorem Renderer.name_eq_of_alike {renderer : Renderer} (prints : renderer.PrintsAlike repo other)
    (alike : repo.Alike related other) (ref : TypeRef) (scope : Scope) :
    renderer.name repo ref scope = renderer.name other ref scope := by
  rw [name, name, alike.checkIssued_eq, prints.type]

theorem Scope.enter_eq_of_printsAlike {renderer : Renderer}
    (prints : renderer.PrintsAlike repo other) (scope : Scope) (ref : TypeRef) :
    scope.enter repo renderer ref = scope.enter other renderer ref := by
  cases ref with
  | handle target => rfl
  | named name => rfl
  | inst head args => simp only [enter, prints.sig]

theorem Approach.follow_eq_of_printsAlike {renderer : Renderer}
    (prints : renderer.PrintsAlike repo other) (approach : Approach) (e : Edge) :
    approach.follow repo renderer e = approach.follow other renderer e := by
  simp only [follow, Scope.enter_eq_of_printsAlike prints]

mutual

theorem displayType_eq_of_alike (alike : repo.Alike related other) (scope : Scope) :
    ∀ ref : TypeRef, displayType repo scope ref = displayType other scope ref
  | .handle target => by
      rw [displayType, displayType, Repository.rootName, Repository.rootName, alike.nameOf_eq]
  | .named _ => by
      rw [displayType, displayType]
  | .inst head args => by
      rw [displayType, displayType, displayArgs_eq_of_alike alike scope args,
        Repository.rootName, Repository.rootName, alike.nameOf_eq]

theorem displaySig_eq_of_alike (alike : repo.Alike related other) (scope : Scope) :
    ∀ sig : TypeSig, displaySig repo scope sig = displaySig other scope sig
  | .element _ => by
      rw [displaySig, displaySig]
  | .ref target => by
      rw [displaySig, displaySig, displayType_eq_of_alike alike scope target]
  | .inst head args => by
      rw [displaySig, displaySig, displayArgs_eq_of_alike alike scope args,
        Repository.rootName, Repository.rootName, alike.nameOf_eq]
  | .param _ => by
      rw [displaySig, displaySig]
  | .array item => by
      rw [displaySig, displaySig, displaySig_eq_of_alike alike scope item]

theorem displayArgs_eq_of_alike (alike : repo.Alike related other) (scope : Scope) :
    ∀ args : List TypeSig, displayArgs repo scope args = displayArgs other scope args
  | [] => by
      rw [displayArgs, displayArgs]
  | arg :: rest => by
      rw [displayArgs, displayArgs, displaySig_eq_of_alike alike scope arg,
        displayArgs_eq_of_alike alike scope rest]

end

theorem Renderer.display_printsAlike (alike : repo.Alike related other) :
    Renderer.display.PrintsAlike repo other where
  type ref scope := displayType_eq_of_alike alike scope ref
  sig sig scope := displaySig_eq_of_alike alike scope sig

end
end InterfaceSurface
