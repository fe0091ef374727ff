import InterfaceSurface.Factory
import InterfaceSurface.Proofs.Attributes.Reading
import InterfaceSurface.Proofs.Metadata.Issued
import InterfaceSurface.Proofs.Outcome

/-! # Factories are those of the last contracts

The contracts of a class are its attributes that tell of a factory.  Each is kept under the
printed name of the type it names, or under the empty name if it names none, and takes the place
of an earlier one with the same name (`Factories.addAttribute_cases`).  So what is found under
a name is what the last contract of that name says (`Factories.KeptLast`), and there is an answer
just if every type named by a contract is present; a later contract does not make up for one
whose type is absent (`TypeDef.factories_eq_lastContracts`). -/
set_option autoImplicit false
namespace InterfaceSurface

/-! ## Contracts -/

namespace Attribute

/-- The attribute tells of a factory. -/
def isContract (a : Attribute) : Bool :=
  a.isKnown .activatable || a.isKnown .static || a.isKnown .composable

/-- The type that the attribute names is present, if it names one. -/
def NamesPresent (repo : Repository) (a : Attribute) : Prop :=
  ∀ name ∈ a.firstType?, repo.find? name ≠ none

instance (repo : Repository) (a : Attribute) : Decidable (a.NamesPresent repo) :=
  inferInstanceAs (Decidable (∀ name ∈ a.firstType?, repo.find? name ≠ none))

/-- The attribute names a type, and that is absent. -/
def NamesAbsent (repo : Repository) (a : Attribute) (name : TypeName) : Prop :=
  a.firstType? = some name ∧ repo.find? name = none

/-- The text that a factory told of by the attribute is kept under. -/
def factoryName (repo : Repository) (renderer : Renderer) (a : Attribute) : String :=
  match a.firstType?.bind repo.find? with
  | some h => renderer.type repo (.handle h) .empty
  | none => ""

end Attribute

def TypeDef.contracts (d : TypeDef) : List Attribute := d.attributes.filter Attribute.isContract

/-- The factory is what the attribute says: its type is the one named first, and its one kind is
that of the attribute; it is visible if the first enum value says that everyone may construct. -/
structure Factory.ToldBy (factory : Factory) (repo : Repository) (a : Attribute) : Prop where
  type_eq : factory.type = a.firstType?.bind repo.find?
  activatable_iff : factory.kind = .activatable ↔ a.isKnown .activatable = true
  statics_iff : factory.kind = .statics ↔ a.isKnown .static = true
  composable_iff : factory.kind.isComposable = true ↔ a.isKnown .composable = true
  visible_iff : factory.kind = .composable true ↔
    a.isKnown .composable = true ∧ ∃ value, a.firstEnum? = some value ∧ value.value = 2

theorem FactoryKind.ofAttribute?_eq_none_iff {a : Attribute} :
    ofAttribute? a = none ↔ a.isContract = false := by
  unfold ofAttribute? Attribute.isContract
  cases a.isKnown .activatable <;> cases a.isKnown .static <;> cases a.isKnown .composable <;> simp

theorem FactoryKind.toldBy_of_ofAttribute? {a : Attribute} {kind : FactoryKind}
    (told : ofAttribute? a = some kind) (repo : Repository) :
    Factory.ToldBy ⟨a.firstType?.bind repo.find?, kind⟩ repo a := by
  unfold ofAttribute? at told
  split at told
  case isTrue activatable =>
    cases told
    have noStatics : a.isKnown .static = false := Attribute.isKnown_eq_false activatable nofun
    have noComposable : a.isKnown .composable = false :=
      Attribute.isKnown_eq_false activatable nofun
    constructor <;> simp [activatable, noStatics, noComposable, isComposable]
  case isFalse noActivatable =>
    split at told
    case isTrue statics =>
      cases told
      have noComposable : a.isKnown .composable = false :=
        Attribute.isKnown_eq_false statics nofun
      constructor <;> simp [noActivatable, statics, noComposable, isComposable]
    case isFalse noStatics =>
      split at told
      case isTrue composable =>
        cases told
        constructor <;>
          simp [noActivatable, noStatics, composable, isComposable, publicComposition,
            Option.any_eq_true]
      case isFalse => cases told

/-! ## One attribute -/

section
variable {repo : Repository} {a : Attribute}

theorem Attribute.present_or_absent (repo : Repository) (a : Attribute) :
    a.NamesPresent repo ∨ ∃ name, a.NamesAbsent repo name := by
  by_cases absent : ∃ name, a.NamesAbsent repo name
  · exact .inr absent
  · exact .inl fun name named missing => absent ⟨name, named, missing⟩

theorem Factory.typeOf_of_present (present : a.NamesPresent repo) :
    typeOf repo a = .ok (a.firstType?.bind repo.find?) := by
  unfold typeOf
  cases named : a.firstType? with
  | none => rfl
  | some name =>
      obtain ⟨h, found⟩ := Option.ne_none_iff_exists'.mp (present name named)
      simp [Repository.find_eq_ok_iff.mpr found, found, Except.map]

theorem Factory.typeOf_of_absent {name : TypeName} (absent : a.NamesAbsent repo name) :
    typeOf repo a = .error (.unresolved name) := by
  obtain ⟨named, missing⟩ := absent
  simp [typeOf, named, Repository.find_eq_error_iff.mpr ⟨missing, rfl⟩, Except.map]

theorem Factory.key_of_named (renderer : Renderer) (kind : FactoryKind) :
    key repo renderer ⟨a.firstType?.bind repo.find?, kind⟩ = .ok (a.factoryName repo renderer) := by
  unfold key Attribute.factoryName
  cases found : a.firstType?.bind repo.find? with
  | none => rfl
  | some h =>
      obtain ⟨name, _, there⟩ := Option.bind_eq_some_iff.mp found
      obtain ⟨d, known, _⟩ := Repository.exists_of_find? there
      refine renderer.name_of_issued .empty fun inside listed => ?_
      rw [List.mem_singleton.mp listed]
      exact Repository.issued_iff.mpr ⟨d, known⟩

end

namespace Factories

variable {repo : Repository} {renderer : Renderer}

/-- A step passes over what is no contract, keeps what a contract says, or ends at a type that is
absent. -/
theorem addAttribute_cases (repo : Repository) (renderer : Renderer) (found : Factories)
    (a : Attribute) :
    (a.isContract = false ∧ addAttribute repo renderer found a = .ok found) ∨
      (a.isContract = true ∧ a.NamesPresent repo ∧ ∃ factory : Factory, factory.ToldBy repo a ∧
        addAttribute repo renderer found a =
          .ok (found.insert (a.factoryName repo renderer) factory)) ∨
      (a.isContract = true ∧ ∃ name, a.NamesAbsent repo name ∧
        addAttribute repo renderer found a = .error (.unresolved name)) := by
  unfold addAttribute
  cases told : FactoryKind.ofAttribute? a with
  | none => exact .inl ⟨FactoryKind.ofAttribute?_eq_none_iff.mp told, rfl⟩
  | some kind =>
      have contract : a.isContract = true := by
        rw [← Bool.not_eq_false, ← FactoryKind.ofAttribute?_eq_none_iff, told]
        exact nofun
      rcases a.present_or_absent repo with present | ⟨name, absent⟩
      · refine .inr (.inl ⟨contract, present, _, FactoryKind.toldBy_of_ofAttribute? told repo, ?_⟩)
        simp only [Factory.typeOf_of_present present, Factory.key_of_named, bind, Except.bind]
        rfl
      · refine .inr (.inr ⟨contract, name, absent, ?_⟩)
        simp only [Factory.typeOf_of_absent absent, bind, Except.bind]

/-! ## All attributes -/

/-- The last of the contracts with the name tells of the factory. -/
def KeptLast (repo : Repository) (renderer : Renderer) (contracts : List Attribute) (name : String)
    (factory : Factory) : Prop :=
  ∃ front a back, contracts = front ++ a :: back ∧ a.factoryName repo renderer = name ∧
    factory.ToldBy repo a ∧ ∀ later ∈ back, later.factoryName repo renderer ≠ name

/-- The names are those of the contracts, and the last contract of each tells of its factory. -/
structure OfContracts (found : Factories) (repo : Repository) (renderer : Renderer)
    (contracts : List Attribute) : Prop where
  mem_iff : ∀ name, name ∈ found ↔ ∃ a ∈ contracts, a.factoryName repo renderer = name
  kept : ∀ name factory, found[name]? = some factory →
    KeptLast repo renderer contracts name factory

theorem ofContracts_empty : OfContracts ∅ repo renderer [] where
  mem_iff := by simp
  kept := by simp

variable {found : Factories} {contracts : List Attribute} {a : Attribute} {factory : Factory}

theorem OfContracts.insert (before : found.OfContracts repo renderer contracts)
    (told : factory.ToldBy repo a) :
    OfContracts (found.insert (a.factoryName repo renderer) factory) repo renderer
      (contracts ++ [a]) where
  mem_iff name := by
    rw [Std.TreeMap.mem_insert, before.mem_iff]
    simp [or_and_right, exists_or, or_comm]
  kept name other there := by
    rw [Std.TreeMap.getElem?_insert] at there
    split at there
    case isTrue same =>
      cases there
      exact ⟨contracts, a, [], rfl, by simpa using same, told, nofun⟩
    case isFalse apart =>
      obtain ⟨front, b, back, rfl, named, toldToo, last⟩ := before.kept name other there
      have lastToo : a.factoryName repo renderer ≠ name := by simpa using apart
      refine ⟨front, b, back ++ [a], by simp, named, toldToo, ?_⟩
      exact List.forall_mem_append.mpr ⟨last, List.forall_mem_singleton.mpr lastToo⟩

/-- What becomes of the contracts: they are all kept, or a first one names an absent type. -/
def Outcome (repo : Repository) (renderer : Renderer) (contracts : List Attribute) :
    Except Fault Factories → Prop
  | .ok found =>
    (∀ a ∈ contracts, a.NamesPresent repo) ∧ found.OfContracts repo renderer contracts
  | .error fault =>
    ∃ front a back name, contracts = front ++ a :: back ∧
      (∀ earlier ∈ front, earlier.NamesPresent repo) ∧ a.NamesAbsent repo name ∧
      fault = .unresolved name

theorem outcome_addAttribute {before : Except Fault Factories}
    (far : Outcome repo renderer contracts before) (a : Attribute) :
    Outcome repo renderer (contracts ++ [a].filter Attribute.isContract)
      (before >>= fun found => addAttribute repo renderer found a) := by
  cases before with
  | error fault =>
      obtain ⟨front, first, back, name, rfl, present, absent, same⟩ := far
      exact ⟨front, first, back ++ [a].filter Attribute.isContract, name, by simp, present, absent,
        same⟩
  | ok found =>
      obtain ⟨present, kept⟩ := far
      change Outcome repo renderer _ (addAttribute repo renderer found a)
      rcases addAttribute_cases repo renderer found a with
        ⟨other, step⟩ | ⟨contract, presentToo, factory, told, step⟩ | ⟨contract, name, absent, step⟩
      · rw [step, List.filter_singleton, other]
        simpa using ⟨present, kept⟩
      · rw [step, List.filter_singleton, contract]
        refine ⟨?_, kept.insert told⟩
        exact List.forall_mem_append.mpr ⟨present, List.forall_mem_singleton.mpr presentToo⟩
      · rw [step, List.filter_singleton, contract]
        exact ⟨contracts, a, [], name, rfl, present, absent, rfl⟩

theorem outcome_foldlM (attributes : List Attribute) :
    Outcome repo renderer (attributes.filter Attribute.isContract)
      (attributes.foldlM (addAttribute repo renderer) ∅) := by
  induction attributes using List.reverseRecOn with
  | nil => exact ⟨nofun, ofContracts_empty⟩
  | append_singleton attributes a ih =>
      have step := outcome_addAttribute ih a
      simpa [List.foldlM_append] using step

end Factories

/-- Where every type that a contract names is present, the factories are those of the last
contract with each name; else the first contract whose type is absent is to blame. -/
theorem TypeDef.factories_eq_lastContracts (repo : Repository) (renderer : Renderer) (d : TypeDef) :
    ((∀ a ∈ d.contracts, a.NamesPresent repo) →
        ∃ found, d.factories repo renderer = .ok found ∧
          found.OfContracts repo renderer d.contracts) ∧
      (¬ (∀ a ∈ d.contracts, a.NamesPresent repo) →
        ∃ front a back name, d.contracts = front ++ a :: back ∧
          (∀ earlier ∈ front, earlier.NamesPresent repo) ∧ a.NamesAbsent repo name ∧
          d.factories repo renderer = .error (.unresolved name)) := by
  have outcome : Factories.Outcome repo renderer d.contracts (d.factories repo renderer) :=
    Factories.outcome_foldlM d.attributes
  cases run : d.factories repo renderer with
  | ok found =>
      rw [run] at outcome
      exact ⟨fun _ => ⟨found, rfl, outcome.2⟩, fun missing => absurd outcome.1 missing⟩
  | error fault =>
      rw [run] at outcome
      obtain ⟨front, a, back, name, split, present, absent, rfl⟩ := outcome
      refine ⟨fun all => ?_, fun _ => ⟨front, a, back, name, split, present, absent, rfl⟩⟩
      exact absurd absent.2 (all a (by simp [split]) name absent.1)

/-- A class constructed as the attributes say. -/
def TypeDef.workpiece (attributes : List Attribute) : TypeDef :=
  ⟨⟨"Demo", "Workpiece"⟩, .classType, [], none, [], [], [], attributes⟩

def Repository.workshop : Repository :=
  .ofList [⟨⟨"Demo", "ITool"⟩, .interfaceType, [], none, [], [], [], []⟩]

/-- A contract that names a type and an enum value. -/
def Attribute.contractFor (kind : KnownAttribute) (name : String) (reach : Int) : Attribute :=
  .metadata kind.simpleName
    [.word 1, .type ⟨"Demo", name⟩, .enumerator ⟨⟨"Demo", "Reach"⟩, reach⟩]

/-- The tool is kept as a composition, though it was activated and made static before; a later
tool is no help to the machine that is absent. -/
theorem TypeDef.factories_eq_lastContracts_of_workshop :
    let tools := workpiece [.contractFor .activatable "ITool" 2, .contractFor .static "ITool" 2,
      .contractFor .composable "ITool" 2, .metadata KnownAttribute.activatable.simpleName []]
    let machines := workpiece [.contractFor .static "IMachine" 2, .contractFor .static "ITool" 2]
    (∀ a ∈ tools.contracts, a.NamesPresent .workshop) ∧
      (∃ found, tools.factories .workshop .display = .ok found ∧
        found.OfContracts .workshop .display tools.contracts ∧
        found["Demo.ITool"]? = some ⟨some ⟨0⟩, .composable true⟩) ∧
      (¬ ∀ a ∈ machines.contracts, a.NamesPresent .workshop) ∧
      ∃ front a back name, machines.contracts = front ++ a :: back ∧
        (∀ earlier ∈ front, earlier.NamesPresent .workshop) ∧ a.NamesAbsent .workshop name ∧
        machines.factories .workshop .display = .error (.unresolved name) := by
  intro tools machines
  have present : ∀ a ∈ tools.contracts, a.NamesPresent .workshop := by decide
  have missing : ¬ ∀ a ∈ machines.contracts, a.NamesPresent .workshop := by decide
  obtain ⟨found, run, kept⟩ := (factories_eq_lastContracts .workshop .display tools).1 present
  refine ⟨present, ⟨found, run, kept, ?_⟩, missing,
    (factories_eq_lastContracts .workshop .display machines).2 missing⟩
  cases run
  rfl

end InterfaceSurface
