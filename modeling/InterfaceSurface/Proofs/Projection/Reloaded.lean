import InterfaceSurface.Projection
import InterfaceSurface.Proofs.Closure.Relocated
import InterfaceSurface.Proofs.Layout.Reordering
import InterfaceSurface.Proofs.Metadata.Alike
import Mathlib.Data.List.FinRange
import Mathlib.Data.Fin.Rev

/-! # Answers do not depend on the order of loading

Definitions with different names can be inserted in any order: the handles follow the
order, and every answer about a type stays what it was, up to the handles in it
(`answers_eq_of_reloaded`). -/
set_option autoImplicit false
namespace InterfaceSurface

variable {move : Handle → Handle} {repo other : Repository}

/-! ## Factories -/

def Factory.relocate (move : Handle → Handle) (factory : Factory) : Factory :=
  { factory with type := factory.type.map move }

namespace Factories

def relocate (move : Handle → Handle) (factories : Factories) : Factories :=
  factories.map fun _ factory => factory.relocate move

/-- What an attribute adds: nothing, or a factory under its name. -/
def added? (repo : Repository) (renderer : Renderer) (a : Attribute) :
    Except Fault (Option (String × Factory)) :=
  match FactoryKind.ofAttribute? a with
  | none => .ok none
  | some kind => do
    let factory : Factory := ⟨← Factory.typeOf repo a, kind⟩
    return some (← factory.key repo renderer, factory)

def add (factories : Factories) : Option (String × Factory) → Factories
  | none => factories
  | some (key, factory) => factories.insert key factory

theorem addAttribute_eq (renderer : Renderer) (factories : Factories) (a : Attribute) :
    addAttribute repo renderer factories a = (added? repo renderer a).map factories.add := by
  unfold addAttribute added?
  cases FactoryKind.ofAttribute? a with
  | none => rfl
  | some kind =>
      dsimp only
      cases Factory.typeOf repo a with
      | error fault => rfl
      | ok type =>
          simp only [bind, Except.bind]
          cases Factory.key repo renderer ⟨type, kind⟩ <;> rfl

theorem added?_relocate (moved : repo.Relocated move other) (a : Attribute) :
    added? other .display a =
      (added? repo .display a).map (Option.map (Prod.map id (Factory.relocate move))) := by
  unfold added?
  cases FactoryKind.ofAttribute? a with
  | none => rfl
  | some kind =>
      have type : Factory.typeOf other a = (Factory.typeOf repo a).map (Option.map move) := by
        rw [Factory.typeOf, Factory.typeOf]
        cases a.firstType? with
        | none => rfl
        | some name =>
            dsimp only
            rw [moved.find_eq]
            cases repo.find name <;> rfl
      refine bind_eq_map type fun found => ?_
      refine bind_eq_map_of_eq ?_ fun key => rfl
      cases found with
      | none => rfl
      | some h =>
          have printed := moved.display_name_eq (.handle h) .empty
          rwa [TypeRef.relocate] at printed

theorem add_relocate {factories factoriesToo : Factories}
    (same : factoriesToo.Equiv (factories.relocate move)) (found : Option (String × Factory)) :
    (factoriesToo.add (found.map (Prod.map id (Factory.relocate move)))).Equiv
      ((factories.add found).relocate move) := by
  cases found with
  | none => exact same
  | some entry =>
      refine (same.insert entry.1 (entry.2.relocate move)).trans ?_
      refine .of_forall_constGet?_eq fun key => ?_
      simp only [relocate, add, Std.TreeMap.getElem?_map, Std.TreeMap.getElem?_insert]
      split <;> rfl

end Factories

theorem TypeDef.factories_relocate (moved : repo.Relocated move other) (d : TypeDef) :
    ((d.relocate move).factories other .display).map Std.TreeMap.toList =
      (d.factories repo .display).map fun found => (found.relocate move).toList := by
  have carries : ∀ (attributes : List Attribute) (found foundToo : Factories),
      foundToo.Equiv (found.relocate move) →
      (attributes.foldlM (Factories.addAttribute other .display) foundToo).map Std.TreeMap.toList =
        (attributes.foldlM (Factories.addAttribute repo .display) found).map
          fun found => (found.relocate move).toList := by
    intro attributes
    induction attributes with
    | nil => exact fun found foundToo same => congrArg Except.ok same.toList_eq
    | cons a rest ih =>
        intro found foundToo same
        rw [List.foldlM_cons, List.foldlM_cons, Factories.addAttribute_eq,
          Factories.addAttribute_eq, Factories.added?_relocate moved]
        cases Factories.added? repo .display a with
        | error fault => rfl
        | ok added => exact ih _ _ (Factories.add_relocate same added)
  refine carries d.attributes ∅ ∅ (.of_forall_constGet?_eq fun key => ?_)
  simp [Factories.relocate]

/-! ## Producibility -/

theorem TypeDef.letsOverride_relocate (moved : repo.Relocated move other) (d : TypeDef)
    (text : String) :
    (d.relocate move).letsOverride other .display text = d.letsOverride repo .display text := by
  refine anyM_map_eq (fun e => ?_) d.edges
  have overridable : (e.relocate move).isOverridable = e.isOverridable := rfl
  rw [overridable, Edge.targets, Edge.targets, Edge.relocate, TypeRef.isInst_relocate,
    moved.display_name_eq]

theorem TypeDef.canProduce_relocate (moved : repo.Relocated move other) (d : TypeDef)
    (settings : Settings) :
    (d.relocate move).canProduce other .display settings =
      d.canProduce repo .display settings := by
  unfold canProduce exclusiveTo?
  rw [relocate]
  dsimp only
  split
  · rfl
  · refine bind_eq_of_map (moved.find_eq _) fun owner => ?_
    refine bind_eq_of_map (moved.get_eq owner) fun ownerDef => ?_
    rw [letsOverride_relocate moved]

/-! ## All answers -/

theorem TypeDef.slotCount_relocate (moved : repo.Relocated move other) (d : TypeDef)
    (laid : Surface) (settings : Settings) :
    (d.relocate move).slotCount other (laid.relocate move) settings =
      d.slotCount repo laid settings := by
  have fast : (d.relocate move).usesFastAbi settings = d.usesFastAbi settings := rfl
  rw [slotCount, slotCount, fast, Surface.leadingMethods_relocate moved]
  split
  · refine bind_eq_of_map (moved.bases_eq d) fun handles => ?_
    rw [List.length_map]
  · rfl

namespace Projection

/-- The answers about a type are those about another one, up to moved handles. -/
structure AnswersRelocated (move : Handle → Handle) (p q : Projection) (h hToo : Handle) : Prop where
  bases : (q.repo.get hToo >>= fun d => d.bases q.repo) =
    (p.repo.get h >>= fun d => d.bases p.repo).map (List.map move)
  interfaces : q.interfaces hToo = (p.interfaces h).map (Surface.relocate move)
  names : (q.interfaces hToo).map Surface.names = (p.interfaces h).map Surface.names
  slotCount : q.slotCount hToo = p.slotCount h
  factories : (q.factories hToo).map Std.TreeMap.toList =
    (p.factories h).map fun found => (found.relocate move).toList
  canProduce : q.canProduce hToo = p.canProduce h

variable {settings : Settings}

theorem interfaces_relocate (moved : repo.Relocated move other) (h : Handle) :
    interfaces ⟨other, .display, settings⟩ (move h) =
      (interfaces ⟨repo, .display, settings⟩ h).map (Surface.relocate move) := by
  refine bind_eq_map (moved.get_eq h) fun d => ?_
  refine bind_eq_map (Surface.ofDefinition_relocate moved d) fun s => ?_
  exact congrArg Except.ok (Surface.order_relocate moved s _)

theorem slotCount_relocate (moved : repo.Relocated move other) (h : Handle) :
    slotCount ⟨other, .display, settings⟩ (move h) = slotCount ⟨repo, .display, settings⟩ h := by
  refine bind_eq_of_map (moved.get_eq h) fun d => ?_
  have fast : (d.relocate move).usesFastAbi settings = d.usesFastAbi settings := rfl
  rw [fast]
  split
  · exact bind_eq_of_map (interfaces_relocate moved h) fun laid =>
      TypeDef.slotCount_relocate moved d laid settings
  · rfl

theorem answersRelocated (moved : repo.Relocated move other) (h : Handle) :
    AnswersRelocated move ⟨repo, .display, settings⟩ ⟨other, .display, settings⟩ h (move h) where
  bases := bind_eq_map (moved.get_eq h) moved.bases_eq
  interfaces := interfaces_relocate moved h
  names := by
    rw [interfaces_relocate moved]
    cases interfaces ⟨repo, .display, settings⟩ h with
    | error fault => rfl
    | ok laid => exact congrArg Except.ok laid.names_relocate
  slotCount := slotCount_relocate moved h
  factories := by
    unfold Projection.factories
    dsimp only
    rw [moved.get_eq]
    cases repo.get h with
    | error fault => rfl
    | ok d => exact TypeDef.factories_relocate moved d
  canProduce := bind_eq_of_map (moved.get_eq h) fun d => TypeDef.canProduce_relocate moved d settings

end Projection

/-! ## Loading in another order -/

/-- Where a permutation of the places takes a handle; a handle beyond them stays. -/
def Handle.reorder {count : Nat} (order : Equiv.Perm (Fin count)) (h : Handle) : Handle :=
  if inside : h.index < count then ⟨order ⟨h.index, inside⟩⟩ else h

/-- The definitions in another order, with the handles inside them moved accordingly. -/
def reloaded (types : List TypeDef) (order : Equiv.Perm (Fin types.length)) : List TypeDef :=
  .ofFn fun place => (types.get (order.symm place)).relocate (Handle.reorder order)

theorem Handle.reorder_symm_reorder {count : Nat} (order : Equiv.Perm (Fin count)) (h : Handle) :
    (h.reorder order).reorder order.symm = h := by
  by_cases inside : h.index < count
  · simp [reorder, inside]
  · simp [reorder, inside]

theorem reloaded_perm (types : List TypeDef) (order : Equiv.Perm (Fin types.length)) :
    (reloaded types order).Perm (types.map (TypeDef.relocate (Handle.reorder order))) := by
  have listed : types.map (TypeDef.relocate (Handle.reorder order)) =
      .ofFn (TypeDef.relocate (Handle.reorder order) ∘ types.get) := by
    rw [← List.map_ofFn, List.ofFn_get]
  rw [listed]
  exact Equiv.Perm.ofFn_comp_perm order.symm
    (TypeDef.relocate (Handle.reorder order) ∘ types.get)

theorem names_reloaded_nodup {types : List TypeDef} (distinct : (types.map TypeDef.name).Nodup)
    (order : Equiv.Perm (Fin types.length)) :
    ((reloaded types order).map TypeDef.name).Nodup := by
  have same := (reloaded_perm types order).map TypeDef.name
  rw [List.map_map] at same
  exact same.nodup_iff.mpr distinct

theorem get?_reloaded (types : List TypeDef) (order : Equiv.Perm (Fin types.length)) (h : Handle) :
    (Repository.ofList (reloaded types order)).get? (h.reorder order) =
      ((Repository.ofList types).get? h).map (TypeDef.relocate (Handle.reorder order)) := by
  rw [← Repository.getElem?_toList, ← Repository.getElem?_toList, Repository.toList_ofList,
    Repository.toList_ofList, reloaded, List.getElem?_ofFn]
  by_cases inside : h.index < types.length
  · simp [Handle.reorder, inside]
  · simp [Handle.reorder, inside]

theorem find?_reloaded {types : List TypeDef} (distinct : (types.map TypeDef.name).Nodup)
    (order : Equiv.Perm (Fin types.length)) (name : TypeName) :
    (Repository.ofList (reloaded types order)).find? name =
      ((Repository.ofList types).find? name).map (Handle.reorder order) := by
  have distinctOld : ((Repository.ofList types).toList.map TypeDef.name).Nodup := by
    rwa [Repository.toList_ofList]
  have distinctNew :
      ((Repository.ofList (reloaded types order)).toList.map TypeDef.name).Nodup := by
    rw [Repository.toList_ofList]
    exact names_reloaded_nodup distinct order
  ext hToo
  rw [Repository.find?_eq_some_iff distinctNew, Option.map_eq_some_iff]
  constructor
  · rintro ⟨e, known, named⟩
    have back : (hToo.reorder order.symm).reorder order = hToo :=
      Handle.reorder_symm_reorder order.symm hToo
    rw [← back, get?_reloaded] at known
    obtain ⟨d, knownOld, rfl⟩ := Option.map_eq_some_iff.mp known
    exact ⟨_, (Repository.find?_eq_some_iff distinctOld).mpr ⟨d, knownOld, named⟩, back⟩
  · rintro ⟨h, found, rfl⟩
    obtain ⟨d, known, named⟩ := Repository.exists_of_find? found
    exact ⟨d.relocate (Handle.reorder order), by rw [get?_reloaded, known]; rfl, named⟩

theorem relocated_reloaded {types : List TypeDef} (distinct : (types.map TypeDef.name).Nodup)
    (order : Equiv.Perm (Fin types.length)) :
    (Repository.ofList types).Relocated (Handle.reorder order)
      (.ofList (reloaded types order)) where
  injective := Function.LeftInverse.injective (Handle.reorder_symm_reorder order)
  size_eq := by rw [Repository.size_ofList, Repository.size_ofList, reloaded, List.length_ofFn]
  get? := get?_reloaded types order
  unissued := by
    intro h beyond
    rw [← Repository.getElem?_toList, Repository.toList_ofList, List.getElem?_eq_none_iff]
      at beyond
    exact dif_neg (Nat.not_lt.mpr beyond)
  find? := find?_reloaded distinct order

namespace Projection

/-- Definitions with different names give the same answers in whatever order they are inserted,
and every type is found by its name. -/
theorem answers_eq_of_reloaded {types : List TypeDef} (distinct : (types.map TypeDef.name).Nodup)
    (order : Equiv.Perm (Fin types.length)) (settings : Settings) {h : Handle} {d : TypeDef}
    (known : (Repository.ofList types).get? h = some d) :
    (Repository.ofList types).find? d.name = some h ∧
      (Repository.ofList (reloaded types order)).find? d.name = some (h.reorder order) ∧
      AnswersRelocated (Handle.reorder order) ⟨.ofList types, .display, settings⟩
        ⟨.ofList (reloaded types order), .display, settings⟩ h (h.reorder order) := by
  have moved := relocated_reloaded distinct order
  have found : (Repository.ofList types).find? d.name = some h := by
    rw [Repository.find?_eq_some_iff (by rwa [Repository.toList_ofList])]
    exact ⟨d, known, rfl⟩
  exact ⟨found, by rw [moved.find?, found]; rfl, answersRelocated moved h⟩

/-- The shelf, at handle 3, has an interface of its own and is a list of things; it and the board
are each other's base class. -/
def boardAndShelf : List TypeDef := [
  ⟨⟨"Demo", "IThing"⟩, .interfaceType, [], none, [], [], [], []⟩,
  ⟨⟨"Coll", "IList`1"⟩, .interfaceType, ["T"], none, [], [], [], []⟩,
  ⟨⟨"Demo", "Board"⟩, .classType, [], some (.named ⟨"Demo", "Shelf"⟩),
    [.markDefault ⟨.handle ⟨0⟩, []⟩], [], [], []⟩,
  ⟨⟨"Demo", "Shelf"⟩, .classType, [], some (.handle ⟨2⟩),
    [⟨.inst (.handle ⟨1⟩) [.array (.ref (.handle ⟨0⟩))], []⟩, .markDefault ⟨.handle ⟨4⟩, []⟩],
    [], [], [.metadata "StaticAttribute" [.type ⟨"Demo", "IThing"⟩],
      .metadata "FastAbiAttribute" []]⟩,
  ⟨⟨"Demo", "IShelf"⟩, .interfaceType, [], none, [], [.ofName "Put", .ofName "Take"], [],
    [.metadata "ExclusiveToAttribute" [.type ⟨"Demo", "Shelf"⟩]]⟩]

def backwards : Equiv.Perm (Fin boardAndShelf.length) := Fin.revPerm

def loaded : Projection := ⟨.ofList boardAndShelf, .display, fastSettings⟩

def loadedBackwards : Projection :=
  ⟨.ofList (reloaded boardAndShelf backwards), .display, fastSettings⟩

/-- What the shelf exposes: its own interfaces, and the thing that comes with the board. -/
def loadedSurface : Surface := .reorder [
  ("Coll.IList`1<Demo.IThing[]>",
    ⟨⟨1⟩, false, false, false, false, false, false, .zero, ⟨[["Demo.IThing[]"]]⟩⟩),
  ("Demo.IShelf", ⟨⟨4⟩, true, true, false, false, true, false, .zero, .empty⟩),
  ("Demo.IThing", ⟨⟨0⟩, true, false, false, true, false, false, .zero, .empty⟩)]

/-- The shelf has handle 1 when it is loaded backwards, its own interface handle 0 and the thing
handle 4.  Its own interface takes the place in front, and nobody else may produce it. -/
theorem answers_eq_of_backwards :
    (boardAndShelf.map TypeDef.name).Nodup ∧
      (∃ d, loaded.repo.get? ⟨3⟩ = some d ∧ d.name = ⟨"Demo", "Shelf"⟩ ∧
        d.bases loaded.repo = .ok [⟨2⟩, ⟨3⟩] ∧
        Handle.reorder backwards ⟨3⟩ = ⟨1⟩ ∧
        loaded.repo.find? d.name = some ⟨3⟩ ∧
        loadedBackwards.repo.find? d.name = some (Handle.reorder backwards ⟨3⟩) ∧
        AnswersRelocated (Handle.reorder backwards) loaded loadedBackwards ⟨3⟩
          (Handle.reorder backwards ⟨3⟩)) ∧
      (loaded.interfaces ⟨3⟩).map Surface.names =
        .ok ["Demo.IShelf", "Coll.IList`1<Demo.IThing[]>", "Demo.IThing"] ∧
      (loadedBackwards.interfaces ⟨1⟩).map Surface.names =
        .ok ["Demo.IShelf", "Coll.IList`1<Demo.IThing[]>", "Demo.IThing"] ∧
      loaded.slotCount ⟨3⟩ = .ok 10 ∧ loadedBackwards.slotCount ⟨1⟩ = .ok 10 ∧
      (loaded.factories ⟨3⟩).map Std.TreeMap.toList = .ok [("Demo.IThing", ⟨some ⟨0⟩, .statics⟩)] ∧
      (loadedBackwards.factories ⟨1⟩).map Std.TreeMap.toList =
        .ok [("Demo.IThing", ⟨some ⟨4⟩, .statics⟩)] ∧
      loaded.canProduce ⟨4⟩ = .ok false ∧ loadedBackwards.canProduce ⟨0⟩ = .ok false := by
  have distinct : (boardAndShelf.map TypeDef.name).Nodup := by decide
  obtain ⟨d, known, named, fast, climbed⟩ : ∃ d, loaded.repo.get? ⟨3⟩ = some d ∧
      d.name = ⟨"Demo", "Shelf"⟩ ∧ d.usesFastAbi fastSettings = true ∧
      d.bases loaded.repo = .ok [⟨2⟩, ⟨3⟩] := ⟨_, rfl, rfl, by decide, rfl⟩
  have run : Surface.ofType loaded.repo .display ⟨3⟩ = .ok loadedSurface := rfl
  rw [Surface.ofType_eq_ofDefinition known] at run
  obtain ⟨found, foundToo, answers⟩ :=
    answers_eq_of_reloaded distinct backwards fastSettings known
  obtain ⟨own, knownOwn⟩ : ∃ own, loaded.repo.get? ⟨4⟩ = some own := ⟨_, rfl⟩
  obtain ⟨_, _, answersOwn⟩ := answers_eq_of_reloaded distinct backwards fastSettings knownOwn
  have names : (loaded.interfaces ⟨3⟩).map Surface.names =
      .ok ["Demo.IShelf", "Coll.IList`1<Demo.IThing[]>", "Demo.IThing"] := by
    have ordered : (loadedSurface.order loaded.repo true).names =
        ["Demo.IShelf", "Coll.IList`1<Demo.IThing[]>", "Demo.IThing"] := by cbv
    rw [interfaces_of_fastAbi known fast run, Except.map, ordered]
  have slots : loaded.slotCount ⟨3⟩ = .ok 10 := by
    have methods : (loadedSurface.order loaded.repo true).leadingMethods loaded.repo = 2 := by cbv
    rw [slotCount_of_fastAbi known fast climbed run, methods]
    rfl
  have factories : (loaded.factories ⟨3⟩).map Std.TreeMap.toList =
      .ok [("Demo.IThing", ⟨some ⟨0⟩, .statics⟩)] := rfl
  have producible : loaded.canProduce ⟨4⟩ = .ok false := rfl
  exact ⟨distinct, ⟨d, known, named, climbed, by decide, found, foundToo, answers⟩, names,
    answers.names.trans names, slots, answers.slotCount.trans slots, factories,
    answers.factories.trans rfl, producible, answersOwn.canProduce.trans producible⟩

end Projection
end InterfaceSurface
