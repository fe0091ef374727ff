import InterfaceSurface.FeatureStage
import InterfaceSurface.Proofs.Attributes.Reading
import InterfaceSurface.Proofs.Metadata.Insertions
import InterfaceSurface.Proofs.Projection.Producible

/-! # Stages named by a loaded enum

The enum value of a feature gate should be read by the enum alone once that is loaded: its first
field with the constant names the stage, and a constant that no field has names none
(`TypeDef.GateToldBy`).  The constant is read as a well-known number as well, though, where the
loaded enum has no such field.  So the answers about the gate are those told by the enum just if
the enum has the constant, or the constant is no well-known number
(`TypeDef.gateToldBy_iff`). -/
set_option autoImplicit false
namespace InterfaceSurface

namespace FeatureStage

/-- The well-known number of a stage. -/
def number : FeatureStage → Int
  | .alwaysDisabled => 0
  | .disabledByDefault => 1
  | .enabledByDefault => 2
  | .alwaysEnabled => 3

variable {stage : FeatureStage}

theorem ofName?_eq_some_iff {text : String} : ofName? text = some stage ↔ text = stage.name := by
  unfold ofName?
  constructor
  · intro found
    have named := List.find?_some found
    exact (beq_iff_eq.mp named).symm
  · rintro rfl
    cases stage <;> rfl

theorem ofValue?_eq_some_iff {value : Int} :
    ofValue? value = some stage ↔ value = stage.number := by
  constructor
  · intro found
    unfold ofValue? at found
    split at found
    case isTrue counted =>
      obtain ⟨place, rfl⟩ := Int.eq_ofNat_of_zero_le counted
      match place, found with
      | 0, rfl | 1, rfl | 2, rfl | 3, rfl => rfl
    case isFalse => cases found
  · rintro rfl
    cases stage <;> rfl

end FeatureStage

/-! ## The fields of an enum -/

namespace TypeDef

/-- The first field of the enum with that constant has the name. -/
def Enumerates (e : TypeDef) (value : Int) (text : String) : Prop :=
  ∃ front field back, e.fields = front ++ field :: back ∧ field.constant = some value ∧
    field.name = text ∧ ∀ earlier ∈ front, earlier.constant ≠ some value

/-- No field of the enum has that constant. -/
def Lacks (e : TypeDef) (value : Int) : Prop := ∀ field ∈ e.fields, field.constant ≠ some value

instance (e : TypeDef) (value : Int) : Decidable (e.Lacks value) :=
  inferInstanceAs (Decidable (∀ field ∈ e.fields, field.constant ≠ some value))

variable {e : TypeDef} {value : Int} {text : String}

theorem enumerates_iff_find? :
    e.Enumerates value text ↔
      ∃ field, e.fields.find? (·.constant == some value) = some field ∧ field.name = text := by
  simp only [List.find?_eq_some_iff_append]
  constructor
  · rintro ⟨front, field, back, split, same, named, first⟩
    exact ⟨field, ⟨beq_iff_eq.mpr same, front, back, split, by simpa using first⟩, named⟩
  · rintro ⟨field, ⟨same, front, back, split, first⟩, named⟩
    exact ⟨front, field, back, split, beq_iff_eq.mp same, named, by simpa using first⟩

theorem lacks_iff_find? :
    e.Lacks value ↔ e.fields.find? (·.constant == some value) = none := by
  simp [Lacks, List.find?_eq_none]

theorem not_enumerates_of_lacks (lacks : e.Lacks value) : ¬ e.Enumerates value text := by
  rintro ⟨front, field, back, split, same, -, -⟩
  exact lacks field (by simp [split]) same

end TypeDef

/-! ## What names an enumerator -/

namespace Repository

variable {repo : Repository}

/-- The latest definition of the name. -/
def Latest (repo : Repository) (name : TypeName) (d : TypeDef) : Prop :=
  ∃ front back, repo.toList = front ++ d :: back ∧ d.name = name ∧
    ∀ later ∈ back, later.name ≠ name

theorem definition?_of_latest {name : TypeName} {d : TypeDef} (latest : repo.Latest name d) :
    repo.definition? name = some d := by
  obtain ⟨front, back, split, named, noLater⟩ := latest
  have stands : repo.toList[front.length]? = some d := by simp [split]
  have last : LastNamed name repo.toList front.length := by
    refine ⟨d, stands, named, fun later e after there => noLater e ?_⟩
    rw [split, List.getElem?_append_right (by omega)] at there
    obtain ⟨gap, rfl⟩ : ∃ gap, later = front.length + (gap + 1) :=
      ⟨later - front.length - 1, by omega⟩
    rw [Nat.add_sub_cancel_left, List.getElem?_cons_succ] at there
    exact List.mem_of_getElem? there
  have found : repo.find? name = some ⟨front.length⟩ := find?_eq_some_iff_lastNamed.mpr last
  rw [definition?, found, Option.bind_some, ← getElem?_toList]
  exact stands

theorem enumeratorName?_eq_of_loaded {value : EnumValue} {e : TypeDef}
    (loaded : repo.definition? value.enumType = some e) :
    repo.enumeratorName? value =
      (e.fields.find? (·.constant == some value.value)).map Field.name := by
  obtain ⟨h, found, known⟩ := Option.bind_eq_some_iff.mp loaded
  unfold enumeratorName?
  simp only [found, known, Option.bind_eq_bind, Option.bind_some]
  cases e.fields.find? (·.constant == some value.value) <;> rfl

end Repository

theorem FeatureStage.ofEnum?_eq_some_iff {repo : Repository} {value : EnumValue} {e : TypeDef}
    (loaded : repo.definition? value.enumType = some e) {stage : FeatureStage} :
    ofEnum? repo value = some stage ↔
      e.Enumerates value.value stage.name ∨ e.Lacks value.value ∧ value.value = stage.number := by
  rw [TypeDef.enumerates_iff_find?, TypeDef.lacks_iff_find?, ofEnum?,
    Repository.enumeratorName?_eq_of_loaded loaded]
  cases e.fields.find? (·.constant == some value.value) with
  | some field => simp [ofName?_eq_some_iff]
  | none => simp [ofValue?_eq_some_iff]

/-! ## What a gate says -/

namespace TypeDef

/-- The first feature attribute has the enum value first among its enum arguments. -/
def GatedBy (d : TypeDef) (value : EnumValue) : Prop :=
  ∃ gate, Attribute.FirstOf .feature d.attributes gate ∧
    ∃ before after, gate.args = before ++ .enumerator value :: after ∧
      ∀ other, AttributeArg.enumerator other ∉ before

/-- The answers about the gate of a type are told by the fields of the enum alone. -/
structure GateToldBy (d : TypeDef) (repo : Repository) (e : TypeDef) (value : Int) : Prop where
  stage_iff : ∀ stage, d.featureStage? repo = some stage ↔ e.Enumerates value stage.name
  enabled_iff : d.isAlwaysEnabled repo = true ↔ e.Enumerates value "AlwaysEnabled"
  disabled_iff : ∀ settings, d.isAlwaysDisabled repo settings = true ↔
    settings.ignoreVelocity = false ∧ e.Enumerates value "AlwaysDisabled"

variable {d e : TypeDef} {repo : Repository} {value : EnumValue}

theorem featureValue?_eq_some_iff : d.featureValue? = some value ↔ d.GatedBy value := by
  simp only [featureValue?, GatedBy, Option.bind_eq_some_iff, Attribute.firstKnown?_eq_some_iff,
    Attribute.firstEnum?_eq_some_iff]

theorem featureStage?_of_gated (gated : d.GatedBy value) :
    d.featureStage? repo = FeatureStage.ofEnum? repo value := by
  rw [featureStage?, featureValue?_eq_some_iff.mpr gated]
  rfl

theorem isAlwaysEnabled_iff (gated : d.GatedBy value) :
    d.isAlwaysEnabled repo = true ↔ d.featureStage? repo = some .alwaysEnabled := by
  rw [featureStage?_of_gated gated, isAlwaysEnabled, featureValue?_eq_some_iff.mpr gated]
  exact beq_iff_eq

theorem isAlwaysDisabled_iff {settings : Settings} :
    d.isAlwaysDisabled repo settings = true ↔
      settings.ignoreVelocity = false ∧ d.featureStage? repo = some .alwaysDisabled := by
  simp [isAlwaysDisabled]

/-- All that is said of a gate is told by its stage. -/
theorem gateToldBy_iff_stage (gated : d.GatedBy value) {constant : Int} :
    d.GateToldBy repo e constant ↔
      ∀ stage, d.featureStage? repo = some stage ↔ e.Enumerates constant stage.name := by
  constructor
  · exact GateToldBy.stage_iff
  · intro told
    exact {
      stage_iff := told
      enabled_iff := (isAlwaysEnabled_iff gated).trans (told .alwaysEnabled)
      disabled_iff := fun _ =>
        isAlwaysDisabled_iff.trans (and_congr_right' (told .alwaysDisabled)) }

/-- The stage is named by the loaded enum, or counted where the enum lacks the constant; so the
enum alone tells of the gate just if it has the constant, or no stage has that number. -/
theorem gateToldBy_iff (gated : d.GatedBy value) (loaded : repo.Latest value.enumType e) :
    (∀ stage, d.featureStage? repo = some stage ↔
        e.Enumerates value.value stage.name ∨
          e.Lacks value.value ∧ value.value = stage.number) ∧
      (d.GateToldBy repo e value.value ↔
        ¬ e.Lacks value.value ∨ ∀ stage : FeatureStage, value.value ≠ stage.number) := by
  have stages : ∀ stage, d.featureStage? repo = some stage ↔
      e.Enumerates value.value stage.name ∨ e.Lacks value.value ∧ value.value = stage.number := by
    intro stage
    rw [featureStage?_of_gated gated]
    exact FeatureStage.ofEnum?_eq_some_iff (Repository.definition?_of_latest loaded)
  refine ⟨stages, ?_⟩
  rw [gateToldBy_iff_stage gated]
  constructor
  · intro told
    by_cases lacks : e.Lacks value.value
    · right
      intro stage number
      have named := (told stage).mp ((stages stage).mpr (.inr ⟨lacks, number⟩))
      exact not_enumerates_of_lacks lacks named
    · exact .inl lacks
  · intro uncounted stage
    rw [stages]
    refine or_iff_left fun counted => ?_
    rcases uncounted with has | noNumber
    · exact has counted.1
    · exact noNumber stage counted.2

/-- The enum of the stages, with the given fields. -/
def stageEnum (fields : List Field) : TypeDef :=
  ⟨⟨Attribute.metadataSpace, "FeatureStage"⟩, .enumType, [], none, [], [], fields, []⟩

/-- An interface behind a gate with that constant of the stage enum. -/
def gatedInterface (name : String) (constant : Int) : TypeDef :=
  ⟨⟨"Demo", name⟩, .interfaceType, [], none, [], [], [],
    [.metadata KnownAttribute.feature.simpleName
      [.enumerator ⟨⟨Attribute.metadataSpace, "FeatureStage"⟩, constant⟩]]⟩

theorem gatedBy_gatedInterface (name : String) (constant : Int) :
    (gatedInterface name constant).GatedBy
      ⟨⟨Attribute.metadataSpace, "FeatureStage"⟩, constant⟩ :=
  featureValue?_eq_some_iff.mp rfl

/-- Two stages have one constant, and zero is the constant of none. -/
def renumberedEnum : TypeDef :=
  stageEnum [.enumerator "AlwaysDisabled" 5, .enumerator "AlwaysEnabled" 5]

/-- The stages are loaded twice, renumbered the second time. -/
def renumberedStages : Repository := .ofList [
  stageEnum [.enumerator "AlwaysEnabled" 0],
  gatedInterface "INamed" 5,
  gatedInterface "ICounted" 0,
  renumberedEnum]

theorem latest_renumberedStages :
    renumberedStages.Latest ⟨Attribute.metadataSpace, "FeatureStage"⟩ renumberedEnum :=
  ⟨[_, _, _], [], rfl, rfl, nofun⟩

/-- The earlier of the two fields with the constant names the stage. -/
theorem gateToldBy_of_renumberedStages :
    (gatedInterface "INamed" 5).GatedBy ⟨⟨Attribute.metadataSpace, "FeatureStage"⟩, 5⟩ ∧
      renumberedStages.Latest ⟨Attribute.metadataSpace, "FeatureStage"⟩ renumberedEnum ∧
      (gatedInterface "INamed" 5).featureStage? renumberedStages = some .alwaysDisabled ∧
      (gatedInterface "INamed" 5).GateToldBy renumberedStages renumberedEnum 5 := by
  have gated := gatedBy_gatedInterface "INamed" 5
  obtain ⟨stages, told⟩ := gateToldBy_iff gated latest_renumberedStages
  have named : renumberedEnum.Enumerates 5 FeatureStage.alwaysDisabled.name :=
    ⟨[], _, [.enumerator "AlwaysEnabled" 5], rfl, rfl, rfl, nofun⟩
  exact ⟨gated, latest_renumberedStages, (stages _).mpr (.inl named), told.mpr (.inl (by decide))⟩

/-- No field of the loaded enum has the constant zero, which is read as a stage all the same. -/
theorem not_gateToldBy_of_renumberedStages :
    renumberedStages.Closed ∧
      (gatedInterface "ICounted" 0).GatedBy ⟨⟨Attribute.metadataSpace, "FeatureStage"⟩, 0⟩ ∧
      renumberedStages.Latest ⟨Attribute.metadataSpace, "FeatureStage"⟩ renumberedEnum ∧
      renumberedEnum.Lacks 0 ∧
      (gatedInterface "ICounted" 0).featureStage? renumberedStages = some .alwaysDisabled ∧
      ¬ (gatedInterface "ICounted" 0).GateToldBy renumberedStages renumberedEnum 0 := by
  have lacks : renumberedEnum.Lacks 0 := by decide
  have counted :
      (gatedInterface "ICounted" 0).featureStage? renumberedStages = some .alwaysDisabled := rfl
  refine ⟨by decide, gatedBy_gatedInterface _ _, latest_renumberedStages, lacks, counted, ?_⟩
  intro told
  exact not_enumerates_of_lacks lacks ((told.stage_iff .alwaysDisabled).mp counted)

end TypeDef
end InterfaceSurface
