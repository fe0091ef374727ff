import InterfaceSurface.Metadata.Repository
import InterfaceSurface.Settings

/-! # Feature gates

The first feature attribute of a type names its stage by an enum value.  Where
the enum has a field of that value, the field's name is the stage, even if it is
no stage at all; only a value without such a field is read as one of the four
well-known numbers.  A type without a gate is available everywhere. -/
set_option autoImplicit false
namespace InterfaceSurface

inductive FeatureStage
  | alwaysDisabled
  | disabledByDefault
  | enabledByDefault
  | alwaysEnabled
deriving DecidableEq, Repr

namespace FeatureStage

def name : FeatureStage → String
  | .alwaysDisabled => "AlwaysDisabled"
  | .disabledByDefault => "DisabledByDefault"
  | .enabledByDefault => "EnabledByDefault"
  | .alwaysEnabled => "AlwaysEnabled"

def all : List FeatureStage :=
  [.alwaysDisabled, .disabledByDefault, .enabledByDefault, .alwaysEnabled]

def ofName? (text : String) : Option FeatureStage := all.find? (·.name == text)

/-- The well-known values count the stages from zero. -/
def ofValue? (value : Int) : Option FeatureStage :=
  if 0 ≤ value then all[value.toNat]? else none

def ofEnum? (repo : Repository) (value : EnumValue) : Option FeatureStage :=
  match repo.enumeratorName? value with
  | some text => ofName? text
  | none => ofValue? value.value

end FeatureStage

namespace TypeDef

/-- The enum value of the feature gate, if the type has a well-formed one. -/
def featureValue? (d : TypeDef) : Option EnumValue :=
  (Attribute.firstKnown? d.attributes .feature).bind Attribute.firstEnum?

def featureStage? (d : TypeDef) (repo : Repository) : Option FeatureStage :=
  d.featureValue?.bind (FeatureStage.ofEnum? repo)

/-- Compiled out of every build; never so when feature gates are ignored. -/
def isAlwaysDisabled (d : TypeDef) (repo : Repository) (settings : Settings) : Bool :=
  !settings.ignoreVelocity && d.featureStage? repo == some .alwaysDisabled

def isAlwaysEnabled (d : TypeDef) (repo : Repository) : Bool :=
  match d.featureValue? with
  | none => true
  | some value => FeatureStage.ofEnum? repo value == some .alwaysEnabled

/-- The type asks for the fast dispatch layout, and the run honours it. -/
def usesFastAbi (d : TypeDef) (settings : Settings) : Bool :=
  settings.fastAbi && Attribute.hasKnown d.attributes .fastAbi

end TypeDef
end InterfaceSurface
