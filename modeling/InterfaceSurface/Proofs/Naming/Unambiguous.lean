import InterfaceSurface.Proofs.Closure.Exact
import InterfaceSurface.Proofs.Naming.Outline

/-! # Printed signatures are unambiguous

Two signatures that `display` prints alike say the same: they differ at most in whether a
definition is given by handle or by its name, and in whether an instantiation is a
reference or a signature of its own (`Renderer.display_sig_eq_iff`).  `canonical` settles
both differences, at any depth.

The text of a readable signature is the text of its outline, which it determines, and the
canonical form can be told from the outline. -/
set_option autoImplicit false
namespace InterfaceSurface

/-! ## Canonical signatures -/

/-- The reference as a signature; an instantiation is one already. -/
def TypeRef.asSig : TypeRef → TypeSig
  | .handle target => .ref (.handle target)
  | .named name => .ref (.named name)
  | .inst head args => .inst head args

mutual

/-- Replaces every handle by the name of the definition behind it. -/
def TypeRef.canonical (repo : Repository) : TypeRef → TypeRef
  | .handle target => .named (repo.rootName (.handle target))
  | .named name => .named name
  | .inst head args => .inst (head.canonical repo) (TypeSig.canonicalArgs repo args)

def TypeSig.canonical (repo : Repository) : TypeSig → TypeSig
  | .element item => .element item
  | .ref target => (target.canonical repo).asSig
  | .inst head args => .inst (head.canonical repo) (TypeSig.canonicalArgs repo args)
  | .param position => .param position
  | .array item => .array (item.canonical repo)

def TypeSig.canonicalArgs (repo : Repository) : List TypeSig → List TypeSig
  | [] => []
  | arg :: rest => arg.canonical repo :: TypeSig.canonicalArgs repo rest

end

/-! ## Readable signatures -/

mutual

/-- All names are readable, also those behind handles, and what is instantiated is not an
instantiation itself. -/
def TypeRef.Readable (repo : Repository) : TypeRef → Prop
  | .handle target => ∃ d, repo.get? target = some d ∧ d.name.Readable
  | .named name => name.Readable
  | .inst head args =>
      head.isInst = false ∧ head.Readable repo ∧ TypeSig.ArgsReadable repo args

def TypeSig.Readable (repo : Repository) : TypeSig → Prop
  | .element _ => True
  | .ref target => target.Readable repo
  | .inst head args =>
      head.isInst = false ∧ head.Readable repo ∧ TypeSig.ArgsReadable repo args
  | .param _ => True
  | .array item => item.Readable repo

def TypeSig.ArgsReadable (repo : Repository) : List TypeSig → Prop
  | [] => True
  | arg :: rest => arg.Readable repo ∧ TypeSig.ArgsReadable repo rest

end

/-! ## Outlines of signatures -/

mutual

/-- The outline of a reference with array brackets behind it.  Brackets are counted on the way
to the item, which is printed before them. -/
def TypeRef.outline (repo : Repository) (rank : Nat) : TypeRef → Outline
  | .handle target => .plain (.dotted (repo.rootName (.handle target))) rank
  | .named name => .plain (.dotted name) rank
  | .inst head args => .inst (repo.rootName head) (TypeSig.outlines repo args) rank

def TypeSig.outline (repo : Repository) (rank : Nat) : TypeSig → Outline
  | .element item => .plain (.element item) rank
  | .ref target => target.outline repo rank
  | .inst head args => .inst (repo.rootName head) (TypeSig.outlines repo args) rank
  | .param position => .plain (.param position) rank
  | .array item => item.outline repo (rank + 1)

def TypeSig.outlines (repo : Repository) : List TypeSig → List Outline
  | [] => []
  | arg :: rest => arg.outline repo 0 :: TypeSig.outlines repo rest

end

section
variable {repo : Repository}

theorem toList_instText {head : TypeName} {texts : List String} {args : List Outline}
    (printed : texts.map String.toList = Outline.texts args) (rank : Nat) :
    (instText head.display texts).toList ++ brackets rank =
      (Outline.inst head args rank).chars := by
  simp [instText, intercalate_comma, printed, Outline.chars]

mutual

theorem TypeRef.chars_outline : ∀ (ref : TypeRef) (rank : Nat),
    (displayType repo .empty ref).toList ++ brackets rank = (ref.outline repo rank).chars
  | .handle _, _ => rfl
  | .named _, _ => rfl
  | .inst _ args, rank => toList_instText (TypeSig.texts_outlines args) rank

theorem TypeSig.chars_outline : ∀ (sig : TypeSig) (rank : Nat),
    (displaySig repo .empty sig).toList ++ brackets rank = (sig.outline repo rank).chars
  | .element _, _ => rfl
  | .ref target, rank => TypeRef.chars_outline target rank
  | .inst _ args, rank => toList_instText (TypeSig.texts_outlines args) rank
  | .param _, _ => rfl
  | .array item, rank => by
      rw [displaySig, String.toList_append, List.append_assoc]
      exact TypeSig.chars_outline item (rank + 1)

theorem TypeSig.texts_outlines : ∀ args : List TypeSig,
    (displayArgs repo .empty args).map String.toList =
      Outline.texts (TypeSig.outlines repo args)
  | [] => rfl
  | arg :: rest => by
      have first := TypeSig.chars_outline arg 0
      rw [brackets, List.append_nil] at first
      rw [displayArgs, List.map_cons, TypeSig.outlines, Outline.texts, first,
        TypeSig.texts_outlines rest]

end

theorem TypeRef.Readable.rootName : ∀ {ref : TypeRef}, ref.isInst = false → ref.Readable repo →
    (repo.rootName ref).Readable
  | .handle target, _, ⟨d, known, readable⟩ => by
      simpa [Repository.rootName, Repository.nameOf, Repository.get, known, Except.map]
        using readable
  | .named _, _, readable => readable

mutual

theorem TypeRef.readable_outline : ∀ (ref : TypeRef) (rank : Nat), ref.Readable repo →
    (ref.outline repo rank).Readable
  | .handle _, _, readable => TypeRef.Readable.rootName rfl readable
  | .named _, _, readable => readable
  | .inst _ args, _, ⟨isHead, readable, arguments⟩ =>
      ⟨TypeRef.Readable.rootName isHead readable, TypeSig.readable_outlines args arguments⟩

theorem TypeSig.readable_outline : ∀ (sig : TypeSig) (rank : Nat), sig.Readable repo →
    (sig.outline repo rank).Readable
  | .element _, _, _ => trivial
  | .ref target, rank, readable => TypeRef.readable_outline target rank readable
  | .inst _ args, _, ⟨isHead, readable, arguments⟩ =>
      ⟨TypeRef.Readable.rootName isHead readable, TypeSig.readable_outlines args arguments⟩
  | .param _, _, _ => trivial
  | .array item, rank, readable => TypeSig.readable_outline item (rank + 1) readable

theorem TypeSig.readable_outlines : ∀ args : List TypeSig, TypeSig.ArgsReadable repo args →
    Outline.AllReadable (TypeSig.outlines repo args)
  | [], _ => trivial
  | arg :: rest, ⟨first, later⟩ =>
      ⟨TypeSig.readable_outline arg 0 first, TypeSig.readable_outlines rest later⟩

end

end

/-! ## Back from outlines -/

def Word.sig : Word → TypeSig
  | .element item => .element item
  | .dotted name => .ref (.named name)
  | .param position => .param position

def TypeSig.arrays : Nat → TypeSig → TypeSig
  | 0, item => item
  | rank + 1, item => TypeSig.arrays rank (.array item)

mutual

/-- The canonical signature of an outline. -/
def Outline.sig : Outline → TypeSig
  | .plain word rank => TypeSig.arrays rank word.sig
  | .inst name args rank => TypeSig.arrays rank (.inst (.named name) (Outline.sigs args))

def Outline.sigs : List Outline → List TypeSig
  | [] => []
  | outline :: rest => outline.sig :: Outline.sigs rest

end

section
variable {repo : Repository}

theorem TypeRef.canonical_of_not_isInst : ∀ {ref : TypeRef}, ref.isInst = false →
    ref.canonical repo = .named (repo.rootName ref)
  | .handle _, _ => rfl
  | .named _, _ => rfl

mutual

theorem TypeRef.sig_outline : ∀ (ref : TypeRef) (rank : Nat), ref.Readable repo →
    (ref.outline repo rank).sig = TypeSig.arrays rank (ref.canonical repo).asSig
  | .handle _, _, _ => rfl
  | .named _, _, _ => rfl
  | .inst _ args, rank, ⟨isHead, _, arguments⟩ => by
      rw [TypeRef.outline, Outline.sig, TypeRef.canonical, TypeRef.asSig,
        TypeRef.canonical_of_not_isInst isHead, TypeSig.sigs_outlines args arguments]

theorem TypeSig.sig_outline : ∀ (sig : TypeSig) (rank : Nat), sig.Readable repo →
    (sig.outline repo rank).sig = TypeSig.arrays rank (sig.canonical repo)
  | .element _, _, _ => rfl
  | .ref target, rank, readable => TypeRef.sig_outline target rank readable
  | .inst _ args, rank, ⟨isHead, _, arguments⟩ => by
      rw [TypeSig.outline, Outline.sig, TypeSig.canonical,
        TypeRef.canonical_of_not_isInst isHead, TypeSig.sigs_outlines args arguments]
  | .param _, _, _ => rfl
  | .array item, rank, readable => TypeSig.sig_outline item (rank + 1) readable

theorem TypeSig.sigs_outlines : ∀ args : List TypeSig, TypeSig.ArgsReadable repo args →
    Outline.sigs (TypeSig.outlines repo args) = TypeSig.canonicalArgs repo args
  | [], _ => rfl
  | arg :: rest, ⟨first, later⟩ => by
      rw [TypeSig.outlines, Outline.sigs, TypeSig.canonicalArgs, TypeSig.sig_outline arg 0 first,
        TypeSig.sigs_outlines rest later, TypeSig.arrays]

end

/-! ## Canonical signatures print alike -/

theorem TypeRef.displaySig_asSig (scope : Scope) (ref : TypeRef) :
    displaySig repo scope ref.asSig = displayType repo scope ref := by
  cases ref <;> rfl

theorem Repository.rootName_canonical (ref : TypeRef) :
    repo.rootName (ref.canonical repo) = repo.rootName ref := by
  induction ref using TypeRef.headInduction with
  | handle _ => rfl
  | named _ => rfl
  | inst _ _ ih => exact ih

mutual

theorem TypeRef.display_canonical (scope : Scope) : ∀ ref : TypeRef,
    displayType repo scope (ref.canonical repo) = displayType repo scope ref
  | .handle _ => rfl
  | .named _ => rfl
  | .inst head args => by
      rw [TypeRef.canonical, displayType, displayType, Repository.rootName_canonical,
        TypeSig.display_canonicalArgs scope args]

theorem TypeSig.display_canonical (scope : Scope) : ∀ sig : TypeSig,
    displaySig repo scope (sig.canonical repo) = displaySig repo scope sig
  | .element _ => rfl
  | .ref target => by
      rw [TypeSig.canonical, TypeRef.displaySig_asSig, displaySig,
        TypeRef.display_canonical scope target]
  | .inst head args => by
      rw [TypeSig.canonical, displaySig, displaySig, Repository.rootName_canonical,
        TypeSig.display_canonicalArgs scope args]
  | .param _ => rfl
  | .array item => by
      rw [TypeSig.canonical, displaySig, displaySig, TypeSig.display_canonical scope item]

theorem TypeSig.display_canonicalArgs (scope : Scope) : ∀ args : List TypeSig,
    displayArgs repo scope (TypeSig.canonicalArgs repo args) = displayArgs repo scope args
  | [] => rfl
  | arg :: rest => by
      rw [TypeSig.canonicalArgs, displayArgs, displayArgs, TypeSig.display_canonical scope arg,
        TypeSig.display_canonicalArgs scope rest]

end

/-- Readable signatures are printed alike exactly if they are the same signature but for
spelling. -/
theorem Renderer.display_sig_eq_iff {a b : TypeSig} (readable : a.Readable repo)
    (readableToo : b.Readable repo) :
    Renderer.display.sig repo a .empty = Renderer.display.sig repo b .empty ↔
      a.canonical repo = b.canonical repo := by
  constructor
  · intro same
    have chars : (a.outline repo 0).chars ++ [] = (b.outline repo 0).chars ++ [] := by
      rw [← TypeSig.chars_outline, ← TypeSig.chars_outline]
      exact congrArg (fun text : String => text.toList ++ brackets 0 ++ []) same
    obtain ⟨outlines, _⟩ := Outline.eq_of_chars _ _ (TypeSig.readable_outline a 0 readable)
      (TypeSig.readable_outline b 0 readableToo) Closes.nil Closes.nil chars
    have sigs := congrArg Outline.sig outlines
    rwa [TypeSig.sig_outline a 0 readable, TypeSig.sig_outline b 0 readableToo] at sigs
  · intro same
    have canonicals := congrArg (displaySig repo .empty) same
    rwa [TypeSig.display_canonical, TypeSig.display_canonical] at canonicals

end

/-- Arrays of lists of what yields arrays of things, spelled in two ways. -/
def listsByHandle : TypeSig :=
  .array (.inst (.handle ⟨1⟩)
    [.ref (.inst (.named ⟨"Coll", "IIterable`1"⟩) [.array (.ref (.handle ⟨2⟩))])])

def listsByName : TypeSig :=
  .array (.ref (.inst (.named ⟨"Coll", "IList`1"⟩)
    [.inst (.handle ⟨0⟩) [.array (.ref (.named ⟨"Demo", "IThing"⟩))]]))

theorem Renderer.display_sig_eq_iff_of_lists :
    listsByHandle.Readable gadgets ∧ listsByName.Readable gadgets ∧
      Renderer.display.sig gadgets listsByHandle .empty =
        "Coll.IList`1<Coll.IIterable`1<Demo.IThing[]>>[]" ∧
      Renderer.display.sig gadgets listsByName .empty =
        "Coll.IList`1<Coll.IIterable`1<Demo.IThing[]>>[]" ∧
      (Renderer.display.sig gadgets listsByHandle .empty =
          Renderer.display.sig gadgets listsByName .empty ↔
        listsByHandle.canonical gadgets = listsByName.canonical gadgets) := by
  have iterable : (⟨"Coll", "IIterable`1"⟩ : TypeName).Readable :=
    ⟨by decide, by decide, by decide, by decide⟩
  have list : (⟨"Coll", "IList`1"⟩ : TypeName).Readable :=
    ⟨by decide, by decide, by decide, by decide⟩
  have thing : (⟨"Demo", "IThing"⟩ : TypeName).Readable :=
    ⟨by decide, by decide, by decide, by decide⟩
  have readable : listsByHandle.Readable gadgets :=
    ⟨rfl, ⟨_, rfl, list⟩, ⟨rfl, iterable, ⟨_, rfl, thing⟩, trivial⟩, trivial⟩
  have readableToo : listsByName.Readable gadgets :=
    ⟨rfl, list, ⟨rfl, ⟨_, rfl, iterable⟩, thing, trivial⟩, trivial⟩
  exact ⟨readable, readableToo, by decide, by decide,
    Renderer.display_sig_eq_iff readable readableToo⟩

end InterfaceSurface
