import InterfaceSurface.Exclusivity
import InterfaceSurface.Proofs.Naming.Unambiguous
import InterfaceSurface.Proofs.Outcome

/-! # Names and texts in what is produced

Whether a definition is produced should be told from names: from the class it is exclusive to,
and from the interfaces that this class lets derived types override (`TypeDef.producible`).
It is worked out from texts instead: what the renderer prints for an overridable interface is
compared with the dotted name of the definition, which no renderer has to print.

Faults are the same (`TypeDef.canProduce_eq_error_iff`).  Answers are the same exactly if the
renderer prints an overridable interface by the dotted name just when there is one of that name
(`TypeDef.canProduce_eq_producible_iff`), as `display` does where names are readable
(`TypeDef.canProduce_display_eq`).  A renderer that puts a mark before every text tells as
much apart as without it, but no class then lets anything be overridden
(`TypeDef.canProduce_marked_eq`). -/
set_option autoImplicit false
namespace InterfaceSurface

/-! ## Told from names -/

def Repository.definition? (repo : Repository) (name : TypeName) : Option TypeDef :=
  (repo.find? name).bind repo.get?

namespace TypeDef

/-- The edges that derived types may override; an instantiation is none of them. -/
def openEdges (d : TypeDef) : List Edge :=
  d.edges.filter fun e => e.isOverridable && !e.target.isInst

/-- Derived types may override the interface of that name. -/
def opens (d : TypeDef) (repo : Repository) (name : TypeName) : Bool :=
  d.openEdges.any fun e => (repo.nameOf e.target).toOption == some name

/-- Derived types may override an interface printed so. -/
def opensPrinted (d : TypeDef) (repo : Repository) (renderer : Renderer) (text : String) : Bool :=
  d.openEdges.any fun e => renderer.type repo e.target .empty == text

/-- Whether the definition is to be produced, if it is known which owners open it to derived
types. -/
def producedIf (d : TypeDef) (repo : Repository) (settings : Settings) (opened : TypeDef → Bool) :
    Except Fault Bool :=
  match d.exclusiveTo? with
  | none => .ok true
  | some owner =>
    match repo.definition? owner with
    | none => .error (.unresolved owner)
    | some ownerDef =>
      .ok (opened ownerDef ||
        (settings.component && settings.componentFilter.includes owner.display))

/-- Whether the definition is to be produced, told from names. -/
def producible (d : TypeDef) (repo : Repository) (settings : Settings) : Except Fault Bool :=
  d.producedIf repo settings fun ownerDef => ownerDef.opens repo d.name

end TypeDef

variable {repo : Repository}

namespace Repository

theorem definition?_eq_none_iff {name : TypeName} :
    repo.definition? name = none ↔ repo.find? name = none := by
  unfold definition?
  cases found : repo.find? name with
  | none => simp
  | some h =>
      obtain ⟨d, known, _⟩ := exists_of_find? found
      simp [known]

theorem find_bind_get_of_absent {name : TypeName} (absent : repo.definition? name = none) :
    (repo.find name >>= repo.get) = .error (.unresolved name) := by
  rw [find_eq_error_iff.mpr ⟨definition?_eq_none_iff.mp absent, rfl⟩]
  rfl

theorem find_bind_get_of_known {name : TypeName} {d : TypeDef}
    (known : repo.definition? name = some d) : (repo.find name >>= repo.get) = .ok d := by
  obtain ⟨h, found, stored⟩ := Option.bind_eq_some_iff.mp known
  rw [find_eq_ok_iff.mpr found]
  exact get_eq_ok_iff.mpr stored

end Repository

namespace TypeDef

variable {d : TypeDef} {renderer : Renderer} {settings : Settings}

theorem opens_eq_true_iff {name : TypeName} :
    d.opens repo name = true ↔ ∃ e ∈ d.openEdges, repo.nameOf e.target = .ok name := by
  rw [opens, List.any_eq_true]
  refine exists_congr fun e => and_congr_right fun _ => ?_
  cases repo.nameOf e.target <;> simp [Except.toOption]

theorem opensPrinted_eq_true_iff {text : String} :
    d.opensPrinted repo renderer text = true ↔
      ∃ e ∈ d.openEdges, renderer.type repo e.target .empty = text := by
  simp [opensPrinted]

section
variable {opened openedToo : TypeDef → Bool} {owner : TypeName}

theorem producedIf_of_unowned (unowned : d.exclusiveTo? = none) :
    d.producedIf repo settings opened = .ok true := by
  rw [producedIf, unowned]

theorem producedIf_of_absent (owned : d.exclusiveTo? = some owner)
    (absent : repo.definition? owner = none) :
    d.producedIf repo settings opened = .error (.unresolved owner) := by
  simp only [producedIf, owned, absent]

theorem producedIf_of_known {ownerDef : TypeDef} (owned : d.exclusiveTo? = some owner)
    (known : repo.definition? owner = some ownerDef) :
    d.producedIf repo settings opened =
      .ok (opened ownerDef ||
        (settings.component && settings.componentFilter.includes owner.display)) := by
  simp only [producedIf, owned, known]

theorem producedIf_eq_error_iff {fault : Fault} :
    d.producedIf repo settings opened = .error fault ↔
      ∃ owner, d.exclusiveTo? = some owner ∧ repo.find? owner = none ∧
        fault = .unresolved owner := by
  constructor
  · intro failed
    cases owned : d.exclusiveTo? with
    | none => cases (producedIf_of_unowned owned).symm.trans failed
    | some owner =>
        cases known : repo.definition? owner with
        | none =>
            cases (producedIf_of_absent owned known).symm.trans failed
            exact ⟨owner, rfl, Repository.definition?_eq_none_iff.mp known, rfl⟩
        | some ownerDef => cases (producedIf_of_known owned known).symm.trans failed
  · rintro ⟨owner, owned, absent, rfl⟩
    exact producedIf_of_absent owned (Repository.definition?_eq_none_iff.mpr absent)

/-- Two opinions about who opens the definition give one answer exactly if they agree on its
owner, or the filter admits the owner anyway. -/
theorem producedIf_eq_iff :
    d.producedIf repo settings opened = d.producedIf repo settings openedToo ↔
      ∀ owner ownerDef, d.exclusiveTo? = some owner → repo.definition? owner = some ownerDef →
        (settings.component && settings.componentFilter.includes owner.display) = true ∨
          opened ownerDef = openedToo ownerDef := by
  constructor
  · intro same owner ownerDef owned known
    rw [producedIf_of_known owned known, producedIf_of_known owned known] at same
    have answers := Except.ok.inj same
    cases filtered : settings.component && settings.componentFilter.includes owner.display with
    | true => exact .inl rfl
    | false =>
        rw [filtered, Bool.or_false, Bool.or_false] at answers
        exact .inr answers
  · intro agree
    cases owned : d.exclusiveTo? with
    | none => rw [producedIf_of_unowned owned, producedIf_of_unowned owned]
    | some owner =>
        cases known : repo.definition? owner with
        | none => rw [producedIf_of_absent owned known, producedIf_of_absent owned known]
        | some ownerDef =>
            rw [producedIf_of_known owned known, producedIf_of_known owned known]
            rcases agree owner ownerDef owned known with admitted | same
            · rw [admitted, Bool.or_true, Bool.or_true]
            · rw [same]

end

end TypeDef

/-! ## Told from texts -/

theorem Edge.targets_of_issued {e : Edge} (renderer : Renderer) (text : String)
    (issued : ∀ h ∈ e.target.handles, repo.Issued h) :
    e.targets repo renderer text =
      .ok (!e.target.isInst && renderer.type repo e.target .empty == text) :=
  targets_of_printed (renderer.name_of_issued .empty issued) text

namespace TypeDef

variable {d : TypeDef} {renderer : Renderer} {settings : Settings}

theorem letsOverride_of_issued (renderer : Renderer) (text : String)
    (issued : ∀ e ∈ d.edges, ∀ h ∈ e.target.handles, repo.Issued h) :
    d.letsOverride repo renderer text = .ok (d.opensPrinted repo renderer text) := by
  have each : ∀ e ∈ d.edges,
      (if e.isOverridable then e.targets repo renderer text else return false) =
        .ok (e.isOverridable && !e.target.isInst &&
          renderer.type repo e.target .empty == text) := by
    intro e listed
    rw [e.targets_of_issued renderer text (issued e listed)]
    cases e.isOverridable <;> rfl
  rw [letsOverride, anyM_of_ok each, opensPrinted, openEdges, List.any_filter]

/-- What is worked out: an owner opens what one of its open edges is printed as. -/
theorem canProduce_eq_producedIf (closed : repo.Closed) (d : TypeDef) (renderer : Renderer)
    (settings : Settings) :
    d.canProduce repo renderer settings =
      d.producedIf repo settings fun ownerDef =>
        ownerDef.opensPrinted repo renderer d.name.display := by
  unfold canProduce
  cases owned : d.exclusiveTo? with
  | none => exact (producedIf_of_unowned owned).symm
  | some owner =>
      dsimp only
      -- Finding the owner and reading it are one look-up, which fails only where it is absent.
      rw [← bind_assoc]
      cases known : repo.definition? owner with
      | none =>
          rw [Repository.find_bind_get_of_absent known, producedIf_of_absent owned known]
          rfl
      | some ownerDef =>
          obtain ⟨h, _, stored⟩ := Option.bind_eq_some_iff.mp known
          have opened := letsOverride_of_issued renderer d.name.display fun e listed inside within =>
            closed.issued stored inside (mem_handles_of_edge listed within)
          rw [Repository.find_bind_get_of_known known, producedIf_of_known owned known]
          change (ownerDef.letsOverride repo renderer d.name.display >>= _) = _
          rw [opened]
          cases ownerDef.opensPrinted repo renderer d.name.display <;> rfl

/-- A fault says that the owner is absent, whatever the renderer. -/
theorem canProduce_eq_error_iff (closed : repo.Closed) {fault : Fault} :
    d.canProduce repo renderer settings = .error fault ↔
      ∃ owner, d.exclusiveTo? = some owner ∧ repo.find? owner = none ∧
        fault = .unresolved owner := by
  rw [canProduce_eq_producedIf closed]
  exact producedIf_eq_error_iff

/-- The answer is the one told from names exactly if the filter admits the owner anyway, or an
interface that may be overridden is printed by the dotted name just when one has that name. -/
theorem canProduce_eq_producible_iff (closed : repo.Closed) (d : TypeDef) (renderer : Renderer)
    (settings : Settings) :
    d.canProduce repo renderer settings = d.producible repo settings ↔
      ∀ owner ownerDef, d.exclusiveTo? = some owner → repo.definition? owner = some ownerDef →
        (settings.component && settings.componentFilter.includes owner.display) = true ∨
          ((∃ e ∈ ownerDef.openEdges, renderer.type repo e.target .empty = d.name.display) ↔
            ∃ e ∈ ownerDef.openEdges, repo.nameOf e.target = .ok d.name) := by
  rw [canProduce_eq_producedIf closed, producible, producedIf_eq_iff]
  refine forall₄_congr fun owner ownerDef _ _ => or_congr_right ?_
  rw [Bool.eq_iff_iff, opensPrinted_eq_true_iff, opens_eq_true_iff]

/-- An interface that is exclusive to the widget. -/
def widgetOnly (name : String) : TypeDef :=
  ⟨⟨"Demo", name⟩, .interfaceType, [], none, [], [], [],
    [.metadata KnownAttribute.exclusiveTo.simpleName [.type ⟨"Demo", "Widget"⟩]]⟩

/-- The widget, at handle 2, lets derived types override one of the two interfaces that are
exclusive to it. -/
def widgets : Repository := .ofList [
  widgetOnly "IWidget",
  widgetOnly "IWidgetOverrides",
  ⟨⟨"Demo", "Widget"⟩, .classType, [], none,
    [.markDefault ⟨.named ⟨"Demo", "IWidget"⟩, []⟩, .markOverridable ⟨.handle ⟨1⟩, []⟩],
    [], [], []⟩]

theorem canProduce_eq_producible_of_widgets :
    widgets.Closed ∧ (widgetOnly "IWidgetOverrides").producible widgets .off = .ok true ∧
      (widgetOnly "IWidgetOverrides").canProduce widgets .display .off =
        (widgetOnly "IWidgetOverrides").producible widgets .off := by
  have closed : widgets.Closed := by decide
  refine ⟨closed, rfl, (canProduce_eq_producible_iff closed _ .display .off).mpr ?_⟩
  intro owner ownerDef owned known
  cases owned
  cases known
  exact .inr (iff_of_true ⟨_, List.mem_singleton.mpr rfl, rfl⟩ ⟨_, List.mem_singleton.mpr rfl, rfl⟩)

end TypeDef

/-! ## Where names are readable -/

theorem Renderer.display_type_of_plain {ref : TypeRef} (plain : ref.isInst = false)
    (scope : Scope) : Renderer.display.type repo ref scope = (repo.rootName ref).display := by
  cases ref with
  | handle _ => rfl
  | named _ => rfl
  | inst _ _ => cases plain

theorem TypeRef.Readable.nameOf {ref : TypeRef} (plain : ref.isInst = false)
    (readable : ref.Readable repo) : repo.nameOf ref = .ok (repo.rootName ref) := by
  cases ref with
  | handle target =>
      obtain ⟨d, known, _⟩ := readable
      simp [Repository.rootName, Repository.nameOf, Repository.get, known, Except.map]
  | named _ => rfl
  | inst _ _ => cases plain

namespace TypeDef

theorem opensPrinted_display_eq {d : TypeDef} {name : TypeName} (readable : name.Readable)
    (edges : ∀ e ∈ d.openEdges, e.target.Readable repo) :
    d.opensPrinted repo .display name.display = d.opens repo name := by
  rw [Bool.eq_iff_iff, opensPrinted_eq_true_iff, opens_eq_true_iff]
  refine exists_congr fun e => and_congr_right fun listed => ?_
  have plain : e.target.isInst = false := by
    have kept := (List.mem_filter.mp listed).2
    simpa using (Bool.and_eq_true_iff.mp kept).2
  have readableToo := edges e listed
  rw [readableToo.nameOf plain, Except.ok.injEq]
  constructor
  · intro same
    rw [Renderer.display_type_of_plain plain] at same
    exact (readableToo.rootName plain).eq_of_display readable same
  · rintro rfl
    exact Renderer.display_type_of_plain plain .empty

/-- Where names are readable, `display` gives the answers told from names. -/
theorem canProduce_display_eq (closed : repo.Closed) {d : TypeDef} (readable : d.name.Readable)
    (edges : ∀ owner ∈ repo.toList, ∀ e ∈ owner.openEdges, e.target.Readable repo)
    (settings : Settings) :
    d.canProduce repo .display settings = d.producible repo settings := by
  rw [canProduce_eq_producedIf closed, producible, producedIf_eq_iff]
  intro owner ownerDef _ known
  obtain ⟨h, _, stored⟩ := Option.bind_eq_some_iff.mp known
  have listed := Array.mem_toList_iff.mpr (Array.mem_of_getElem? stored)
  exact .inr (opensPrinted_display_eq readable (edges ownerDef listed))

end TypeDef

/-! ## Behind a mark -/

namespace Renderer

/-- Every text of the renderer, behind a mark. -/
def marked (renderer : Renderer) (mark : String) : Renderer :=
  renderer.map (mark ++ ·)

variable {renderer : Renderer} {mark : String} {scope : Scope}

theorem marked_type_eq_iff {a b : TypeRef} :
    (renderer.marked mark).type repo a scope = (renderer.marked mark).type repo b scope ↔
      renderer.type repo a scope = renderer.type repo b scope :=
  String.append_right_inj mark

theorem marked_sig_eq_iff {a b : TypeSig} :
    (renderer.marked mark).sig repo a scope = (renderer.marked mark).sig repo b scope ↔
      renderer.sig repo a scope = renderer.sig repo b scope :=
  String.append_right_inj mark

end Renderer

namespace TypeDef

/-- Behind a mark that its dotted name does not start with, no owner opens the definition. -/
theorem canProduce_marked_eq (closed : repo.Closed) {d : TypeDef} {mark : String}
    (unmarked : ¬ mark.toList <+: d.name.display.toList) (renderer : Renderer)
    (settings : Settings) :
    d.canProduce repo (renderer.marked mark) settings =
      d.producedIf repo settings fun _ => false := by
  rw [canProduce_eq_producedIf closed, producedIf_eq_iff]
  intro owner ownerDef _ _
  refine .inr (Bool.eq_false_iff.mpr fun opened => unmarked ?_)
  obtain ⟨e, _, printed⟩ := opensPrinted_eq_true_iff.mp opened
  rw [← printed]
  exact ⟨_, String.toList_append.symm⟩

/-- Behind a mark, `display` tells as much apart as before, but the widget opens nothing. -/
theorem canProduce_ne_producible_of_mark :
    widgets.Closed ∧
      (∀ a b scope, (Renderer.display.marked "~").type widgets a scope =
          (Renderer.display.marked "~").type widgets b scope ↔
        Renderer.display.type widgets a scope = Renderer.display.type widgets b scope) ∧
      (∀ a b scope, (Renderer.display.marked "~").sig widgets a scope =
          (Renderer.display.marked "~").sig widgets b scope ↔
        Renderer.display.sig widgets a scope = Renderer.display.sig widgets b scope) ∧
      (widgetOnly "IWidgetOverrides").producible widgets .off = .ok true ∧
      (widgetOnly "IWidgetOverrides").canProduce widgets (Renderer.display.marked "~") .off =
        .ok false :=
  ⟨by decide, fun _ _ _ => Renderer.marked_type_eq_iff, fun _ _ _ => Renderer.marked_sig_eq_iff,
    rfl, rfl⟩

end TypeDef
end InterfaceSurface
