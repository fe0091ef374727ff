import InterfaceSurface.Exclusivity
import InterfaceSurface.FeatureStage
import InterfaceSurface.Proofs.Attributes.Reading
import InterfaceSurface.Proofs.Metadata.BuiltMethod
import InterfaceSurface.Version

/-! # Malformed attributes

An attribute that cannot be read as one of its kind should count as absent, so that deleting it
changes no answer.  For versions it is so: the first attribute that can be read is taken.  For
feature gates, owners and overload names the first attribute of the kind is taken and then read,
so a malformed one covers the next of its kind (`Attribute.Covers`).  Deleting it changes an
answer just if what it covers can be read (`Attribute.answers_without_malformed_iff`). -/
set_option autoImplicit false
namespace InterfaceSurface

/-! ## Being readable -/

namespace Attribute

/-- The attribute can be read as one of the kind. -/
def Readable (kind : KnownAttribute) (a : Attribute) : Prop :=
  match kind with
  | .feature => ∃ value, .enumerator value ∈ a.args
  | .exclusiveTo => ∃ owner, .type owner ∈ a.args
  | .overload => ∃ text, a.args[0]? = some (.text text)
  | .version => ∃ packed, a.args[0]? = some (.word packed)
  | .contractVersion => ∃ packed, a.args[if a.args.length = 1 then 0 else 1]? = some (.word packed)
  | _ => True

/-- The attribute is of a kind that it cannot be read as. -/
def Malformed (a : Attribute) : Prop := ∃ kind, a.isKnown kind = true ∧ ¬ a.Readable kind

/-- Between the two lists the attribute is the first of its kind, and without it `next` is. -/
def Covers (kind : KnownAttribute) (front : List Attribute) (a : Attribute) (back : List Attribute)
    (next : Attribute) : Prop :=
  a.isKnown kind = true ∧ (∀ b ∈ front, b.isKnown kind = false) ∧ FirstOf kind back next

variable {a : Attribute} {kind : KnownAttribute}

theorem Malformed.not_readable (malformed : a.Malformed) (known : a.isKnown kind = true) :
    ¬ a.Readable kind := by
  obtain ⟨kindToo, knownToo, unreadable⟩ := malformed
  rwa [eq_of_isKnown known knownToo]

theorem firstEnum?_eq_none_iff_not_readable : a.firstEnum? = none ↔ ¬ a.Readable .feature := by
  rw [firstEnum?_eq_none_iff, Readable, not_exists]

theorem firstType?_eq_none_iff_not_readable : a.firstType? = none ↔ ¬ a.Readable .exclusiveTo := by
  rw [firstType?_eq_none_iff, Readable, not_exists]

theorem textArg?_eq_none_iff_not_readable : a.textArg? 0 = none ↔ ¬ a.Readable .overload := by
  simp only [Option.eq_none_iff_forall_ne_some, Readable, ← textArg?_eq_some_iff, not_exists, ne_eq]

theorem Malformed.version_eq_none (malformed : a.Malformed) : Version.ofAttribute? a = none := by
  have unread : ∀ {position : Nat}, (∀ packed, a.args[position]? ≠ some (.word packed)) →
      a.wordArg? position = none := by
    intro position unread
    exact Option.eq_none_iff_forall_ne_some.mpr fun packed read =>
      unread packed (wordArg?_eq_some_iff.mp read)
  unfold Version.ofAttribute?
  split
  case isTrue contract =>
    have unreadable := malformed.not_readable contract
    simp only [Readable, not_exists] at unreadable
    rw [← apply_ite a.wordArg?]
    exact unread unreadable
  case isFalse =>
    split
    case isTrue plain =>
      have unreadable := malformed.not_readable plain
      simp only [Readable, not_exists] at unreadable
      exact unread unreadable
    case isFalse => rfl

/-! ## Taking the first of a kind, and reading it -/

section
variable {α : Type} (read : Attribute → Option α) {front back : List Attribute}

theorem firstKnown?_of_covers {next : Attribute} (covers : Covers kind front a back next) :
    firstKnown? (front ++ a :: back) kind = some a ∧
      firstKnown? (front ++ back) kind = some next := by
  obtain ⟨known, first, knownToo, between, behind, rfl, skipped⟩ := covers
  constructor
  · exact firstKnown?_eq_some_iff.mpr ⟨known, front, _, rfl, first⟩
  · refine firstKnown?_eq_some_iff.mpr ⟨knownToo, front ++ between, behind, by simp, ?_⟩
    exact List.forall_mem_append.mpr ⟨first, skipped⟩

theorem bind_firstKnown?_of_covers {next : Attribute} (unread : read a = none)
    (covers : Covers kind front a back next) :
    (firstKnown? (front ++ a :: back) kind).bind read = none ∧
      (firstKnown? (front ++ back) kind).bind read = read next := by
  obtain ⟨covering, covered⟩ := firstKnown?_of_covers covers
  rw [covering, covered]
  exact ⟨unread, rfl⟩

/-- Deleting an attribute that cannot be read changes what is read just if it covers one that
can. -/
theorem bind_firstKnown?_delete_iff (unread : a.isKnown kind = true → read a = none) :
    (firstKnown? (front ++ a :: back) kind).bind read =
        (firstKnown? (front ++ back) kind).bind read ↔
      ∀ next, Covers kind front a back next → read next = none := by
  constructor
  · intro same next covers
    obtain ⟨covering, covered⟩ := bind_firstKnown?_of_covers read (unread covers.1) covers
    rw [← covered, ← same, covering]
  · intro unreadToo
    simp only [firstKnown?, List.find?_append, List.find?_cons]
    cases inFront : front.find? (·.isKnown kind) with
    | some b => rfl
    | none =>
        cases known : a.isKnown kind with
        | false => rfl
        | true =>
            have first : ∀ b ∈ front, b.isKnown kind = false := by simpa using inFront
            have nothing := unread known
            cases behind : back.find? (·.isKnown kind) with
            | none => simpa using nothing
            | some next =>
                have covers : Covers kind front a back next :=
                  ⟨known, first, firstKnown?_eq_some_iff.mp behind⟩
                simpa [nothing] using (unreadToo next covers).symm

end

end Attribute

/-! ## Answers about definitions -/

namespace TypeDef

def withAttributes (d : TypeDef) (attributes : List Attribute) : TypeDef :=
  { d with attributes }

/-- What is told from the attributes of the one is told from those of the other. -/
structure SameAnswers (repo : Repository) (d e : TypeDef) : Prop where
  featureStage : d.featureStage? repo = e.featureStage? repo
  alwaysEnabled : d.isAlwaysEnabled repo = e.isAlwaysEnabled repo
  alwaysDisabled : ∀ settings, d.isAlwaysDisabled repo settings = e.isAlwaysDisabled repo settings
  exclusiveTo : d.exclusiveTo? = e.exclusiveTo?
  canProduce : ∀ renderer settings,
    d.canProduce repo renderer settings = e.canProduce repo renderer settings
  version : d.version = e.version

variable {repo : Repository} {d e : TypeDef} {a : Attribute} {front back : List Attribute}

open Attribute

/-- Only a type without a readable gate is always enabled and has no stage. -/
theorem featureValue?_eq_none_iff (repo : Repository) (d : TypeDef) :
    d.featureValue? = none ↔ d.featureStage? repo = none ∧ d.isAlwaysEnabled repo = true := by
  unfold featureStage? isAlwaysEnabled
  cases d.featureValue? with
  | none => simp
  | some value => cases stage : FeatureStage.ofEnum? repo value <;> simp [stage]

theorem sameAnswers_of_values (gates : d.featureValue? = e.featureValue?)
    (owners : d.exclusiveTo? = e.exclusiveTo?) (versions : d.version = e.version)
    (names : d.name = e.name) : d.SameAnswers repo e where
  featureStage := by rw [featureStage?, featureStage?, gates]
  alwaysEnabled := by rw [isAlwaysEnabled, isAlwaysEnabled, gates]
  alwaysDisabled settings := by
    rw [isAlwaysDisabled, isAlwaysDisabled, featureStage?, featureStage?, gates]
  exclusiveTo := owners
  canProduce renderer settings := by rw [TypeDef.canProduce, TypeDef.canProduce, owners, names]
  version := versions

theorem version_delete (malformed : a.Malformed) :
    (d.withAttributes (front ++ a :: back)).version =
      (d.withAttributes (front ++ back)).version := by
  simp only [version, withAttributes, List.findSome?_append, List.findSome?_cons,
    malformed.version_eq_none]

theorem sameAnswers_delete_iff (malformed : a.Malformed) :
    (d.withAttributes (front ++ a :: back)).SameAnswers repo (d.withAttributes (front ++ back)) ↔
      (∀ next, Covers .feature front a back next → ¬ next.Readable .feature) ∧
        ∀ next, Covers .exclusiveTo front a back next → ¬ next.Readable .exclusiveTo := by
  have noGate : a.isKnown .feature = true → a.firstEnum? = none := fun known =>
    firstEnum?_eq_none_iff_not_readable.mpr (malformed.not_readable known)
  have noOwner : a.isKnown .exclusiveTo = true → a.firstType? = none := fun known =>
    firstType?_eq_none_iff_not_readable.mpr (malformed.not_readable known)
  simp only [← firstEnum?_eq_none_iff_not_readable, ← firstType?_eq_none_iff_not_readable]
  rw [← bind_firstKnown?_delete_iff firstType? noOwner]
  constructor
  · intro same
    refine ⟨fun next covers => ?_, same.exclusiveTo⟩
    obtain ⟨covering, covered⟩ := bind_firstKnown?_of_covers firstEnum? (noGate covers.1) covers
    rw [← covered]
    have ungated := (featureValue?_eq_none_iff repo (d.withAttributes _)).mp covering
    rw [same.featureStage, same.alwaysEnabled] at ungated
    exact (featureValue?_eq_none_iff repo _).mpr ungated
  · rintro ⟨unread, owners⟩
    exact sameAnswers_of_values ((bind_firstKnown?_delete_iff firstEnum? noGate).mpr unread) owners
      (version_delete malformed) rfl

end TypeDef

/-! ## Names of methods -/

def Method.withAttributes (m : Method) (attributes : List Attribute) : Method :=
  { m with attributes }

namespace MethodView

/-- The views name their methods alike. -/
structure SameNames (v w : MethodView) : Prop where
  name : v.name = w.name
  abiName : v.abiName = w.abiName

/-- The view of the method with other attributes. -/
def withAttributes (v : MethodView) (attributes : List Attribute) : MethodView :=
  { v with method := v.method.withAttributes attributes }

variable {repo : Repository} {m : Method} {v w : MethodView} {a : Attribute}
  {front back : List Attribute}

open Attribute

theorem ofMethod_withAttributes (viewed : ofMethod repo m = .ok v) (attributes : List Attribute) :
    ofMethod repo (m.withAttributes attributes) = .ok (v.withAttributes attributes) := by
  obtain ⟨isAsync, told, rfl⟩ := ofMethod_eq_ok_iff.mp viewed
  exact ofMethod_eq_ok_iff.mpr ⟨isAsync, told, rfl⟩

theorem names_of_overload {text : String} (overloaded : v.method.overloadName? = some text) :
    v.name = text ∧ v.abiName = text := by
  rw [name, abiName, overloaded]
  exact ⟨rfl, rfl⟩

theorem sameNames_of_overload (names : v.method.name = w.method.name)
    (flags : v.method.flags = w.method.flags)
    (same : v.method.overloadName? = w.method.overloadName?) : v.SameNames w where
  name := by rw [MethodView.name, MethodView.name, same, names, flags]
  abiName := by rw [MethodView.abiName, MethodView.abiName, same, names]

theorem sameNames_delete_iff (malformed : a.Malformed)
    (split : v.method.attributes = front ++ a :: back) :
    v.SameNames (v.withAttributes (front ++ back)) ↔
      ∀ next text, Covers .overload front a back next → next.args[0]? = some (.text text) →
        v.name = text ∧ v.abiName = text := by
  have unread : a.isKnown .overload = true → a.textArg? 0 = none := fun known =>
    textArg?_eq_none_iff_not_readable.mpr (malformed.not_readable known)
  have named : ∀ next text, Covers .overload front a back next →
      next.textArg? 0 = some text → (v.withAttributes (front ++ back)).name = text ∧
        (v.withAttributes (front ++ back)).abiName = text := by
    intro next text covers read
    obtain ⟨_, covered⟩ := bind_firstKnown?_of_covers (·.textArg? 0) (unread covers.1) covers
    exact names_of_overload (covered.trans read)
  simp only [← textArg?_eq_some_iff]
  constructor
  · intro same next text covers read
    rw [same.name, same.abiName]
    exact named next text covers read
  · intro texts
    by_cases unreadToo : ∀ next, Covers .overload front a back next → next.textArg? 0 = none
    · refine sameNames_of_overload rfl rfl ?_
      rw [Method.overloadName?, split]
      exact (bind_firstKnown?_delete_iff _ unread).mpr unreadToo
    · push Not at unreadToo
      obtain ⟨next, covers, readable⟩ := unreadToo
      obtain ⟨text, read⟩ := Option.ne_none_iff_exists'.mp readable
      obtain ⟨name, abiName⟩ := texts next text covers read
      obtain ⟨nameToo, abiNameToo⟩ := named next text covers read
      exact ⟨name.trans nameToo.symm, abiName.trans abiNameToo.symm⟩

end MethodView

/-! ## Deleting a malformed attribute -/

namespace Attribute

/-- The version stays.  The answers about a gate and about an owner stay just if what the
attribute covers is malformed too; so do the names of a method, unless it has the name anyway
that its covered attribute would give it. -/
theorem answers_without_malformed_iff {a : Attribute} (malformed : a.Malformed)
    (front back : List Attribute) :
    (∀ d : TypeDef, (d.withAttributes (front ++ a :: back)).version =
        (d.withAttributes (front ++ back)).version) ∧
      (∀ repo (d : TypeDef), (d.withAttributes (front ++ a :: back)).SameAnswers repo
          (d.withAttributes (front ++ back)) ↔
        (∀ next, Covers .feature front a back next → ¬ next.Readable .feature) ∧
          ∀ next, Covers .exclusiveTo front a back next → ¬ next.Readable .exclusiveTo) ∧
      ∀ repo (m : Method) v,
        MethodView.ofMethod repo (m.withAttributes (front ++ a :: back)) = .ok v →
          ∃ w, MethodView.ofMethod repo (m.withAttributes (front ++ back)) = .ok w ∧
            (v.SameNames w ↔
              ∀ next text, Covers .overload front a back next →
                next.args[0]? = some (.text text) → v.name = text ∧ v.abiName = text) := by
  refine ⟨fun d => TypeDef.version_delete malformed,
    fun repo d => TypeDef.sameAnswers_delete_iff malformed, ?_⟩
  intro repo m v viewed
  refine ⟨_, MethodView.ofMethod_withAttributes viewed (front ++ back), ?_⟩
  obtain ⟨isAsync, _, rfl⟩ := MethodView.ofMethod_eq_ok_iff.mp viewed
  exact MethodView.sameNames_delete_iff malformed rfl

/-- An attribute without arguments. -/
def blank (kind : KnownAttribute) : Attribute := .metadata kind.simpleName []

/-- A gate that is always disabled. -/
def closedGate : Attribute :=
  .metadata KnownAttribute.feature.simpleName [.enumerator ⟨⟨metadataSpace, "FeatureStage"⟩, 0⟩]

def ownerMark : Attribute :=
  .metadata KnownAttribute.exclusiveTo.simpleName [.type ⟨"Demo", "Owner"⟩]

def drawAt : Attribute := .metadata KnownAttribute.overload.simpleName [.text "DrawAt"]

theorem malformed_blank {kind : KnownAttribute} (unreadable : ¬ (blank kind).Readable kind) :
    (blank kind).Malformed :=
  ⟨kind, beq_self_eq_true _, unreadable⟩

theorem malformed_blanks :
    (blank .feature).Malformed ∧ (blank .exclusiveTo).Malformed ∧ (blank .overload).Malformed :=
  ⟨malformed_blank (by simp [Readable, blank, metadata]),
    malformed_blank (by simp [Readable, blank, metadata]),
    malformed_blank (by simp [Readable, blank, metadata])⟩

def onlyOwner : Repository := .ofList [⟨⟨"Demo", "Owner"⟩, .classType, [], none, [], [], [], []⟩]

def pad : TypeDef := ⟨⟨"Demo", "IPad"⟩, .interfaceType, [], none, [], [], [], []⟩

/-- A blank gate may be deleted behind another one, and not in front of it. -/
theorem answers_without_blankGate :
    (blank .feature).Malformed ∧
      (pad.withAttributes [closedGate, blank .feature]).SameAnswers onlyOwner
        (pad.withAttributes [closedGate]) ∧
      ¬ (pad.withAttributes [blank .feature, closedGate]).SameAnswers onlyOwner
        (pad.withAttributes [closedGate]) := by
  have malformed := malformed_blanks.1
  refine ⟨malformed, ?_, ?_⟩
  · have behind := (answers_without_malformed_iff malformed [closedGate] []).2.1 onlyOwner pad
    refine behind.mpr ⟨?_, ?_⟩
    · rintro next ⟨_, first, _⟩
      cases first closedGate (by simp)
    · rintro next ⟨known, _⟩
      cases known
  · intro same
    have inFront := (answers_without_malformed_iff malformed [] [closedGate]).2.1 onlyOwner pad
    have covers : Covers .feature [] (blank .feature) [closedGate] closedGate :=
      ⟨rfl, nofun, rfl, [], [], rfl, nofun⟩
    exact (inFront.mp same).1 closedGate covers ⟨_, List.mem_singleton.mpr rfl⟩

/-- In front of another of its kind, a blank attribute hides the gate, the owner and the overload
name. -/
theorem answers_lost_of_blanks :
    ((blank .feature).Malformed ∧ (blank .exclusiveTo).Malformed ∧ (blank .overload).Malformed) ∧
      (pad.withAttributes [closedGate]).featureStage? onlyOwner = some .alwaysDisabled ∧
      (pad.withAttributes [blank .feature, closedGate]).featureStage? onlyOwner = none ∧
      (pad.withAttributes [blank .feature, closedGate]).isAlwaysEnabled onlyOwner = true ∧
      (pad.withAttributes [ownerMark]).canProduce onlyOwner .display .off = .ok false ∧
      (pad.withAttributes [blank .exclusiveTo, ownerMark]).exclusiveTo? = none ∧
      (pad.withAttributes [blank .exclusiveTo, ownerMark]).canProduce onlyOwner .display .off =
        .ok true ∧
      (MethodView.ofMethod onlyOwner ((Method.ofName "Draw").withAttributes [drawAt])).map
        MethodView.name = .ok "DrawAt" ∧
      (MethodView.ofMethod onlyOwner
        ((Method.ofName "Draw").withAttributes [blank .overload, drawAt])).map
        MethodView.name = .ok "Draw" :=
  ⟨malformed_blanks, rfl, rfl, rfl, rfl, rfl, rfl, rfl, rfl⟩

end Attribute
end InterfaceSurface
