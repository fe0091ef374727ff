import InterfaceSurface.Proofs.Closure.Exact

/-! # Printed arguments and substituted arguments

A walk keeps the arguments of the instantiations it enters as printed texts, and a
generic parameter reads them off the innermost frame.  The same reference can be written
out instead: its parameters are replaced by the arguments they stand for, which may come
from any of the instantiations on the way (`argumentsBehind`).

Where every parameter is in reach of its own instantiation (`TypeDef.WellScoped`), the
walk prints what the written out reference prints where no scope is given
(`keyOf?_eq_writtenOut`).  A reference without arguments leaves the frame of an earlier
one on top; what it leads to mentions no parameters, so nothing reads that frame. -/
set_option autoImplicit false
namespace InterfaceSurface

/-! ## Parameters and what they stand for -/

mutual

/-- The generic parameters mentioned anywhere in a reference. -/
def TypeRef.params : TypeRef → List Nat
  | .handle _ => []
  | .named _ => []
  | .inst head args => head.params ++ TypeSig.paramsOfArgs args

def TypeSig.params : TypeSig → List Nat
  | .element _ => []
  | .ref target => target.params
  | .inst head args => head.params ++ TypeSig.paramsOfArgs args
  | .param position => [position]
  | .array item => item.params

def TypeSig.paramsOfArgs : List TypeSig → List Nat
  | [] => []
  | arg :: rest => arg.params ++ TypeSig.paramsOfArgs rest

end

mutual

/-- Replaces each generic parameter by the argument at its position. -/
def TypeRef.instantiate (actual : List TypeSig) : TypeRef → TypeRef
  | .handle target => .handle target
  | .named name => .named name
  | .inst head args => .inst (head.instantiate actual) (TypeSig.instantiateArgs actual args)

def TypeSig.instantiate (actual : List TypeSig) : TypeSig → TypeSig
  | .element item => .element item
  | .ref target => .ref (target.instantiate actual)
  | .inst head args => .inst (head.instantiate actual) (TypeSig.instantiateArgs actual args)
  | .param position => actual[position]?.getD (.param position)
  | .array item => .array (item.instantiate actual)

def TypeSig.instantiateArgs (actual : List TypeSig) : List TypeSig → List TypeSig
  | [] => []
  | arg :: rest => arg.instantiate actual :: TypeSig.instantiateArgs actual rest

end

/-- The arguments an instantiation puts in place of the parameters of its head. -/
def TypeRef.args : TypeRef → List TypeSig
  | .inst _ args => args
  | .handle _ => []
  | .named _ => []

/-- What the generic parameters stand for behind some edges: the arguments of the last one,
written out with those behind the edges before it. -/
def argumentsBehind (edges : List Edge) : List TypeSig :=
  edges.foldl (fun actual e => TypeSig.instantiateArgs actual e.target.args) []

/-- The reference at the end of some edges, with the arguments it has there. -/
def writtenOut? (edges : List Edge) : Option TypeRef :=
  edges.getLast?.map fun last => last.target.instantiate (argumentsBehind edges.dropLast)

/-- The own edges of the type and of its base classes mention no parameters, and an interface
mentions only those that the reference leading to it has arguments for. -/
structure TypeDef.WellScoped (d : TypeDef) (repo : Repository) : Prop where
  declared : ∀ declared ∈ d.origins repo, ∀ e ∈ declared, e.target.params = []
  required : ∀ (base : Bool) (path : List Edge) (last : Edge) (target : TypeDef),
    d.Reaches repo base path → path.getLast? = some last → last.targetDef? repo = some target →
    ∀ e ∈ target.edges, ∀ position ∈ e.target.params, position < last.target.args.length

theorem argumentsBehind_concat (path : List Edge) (e : Edge) :
    argumentsBehind (path ++ [e]) =
      TypeSig.instantiateArgs (argumentsBehind path) e.target.args := by
  simp [argumentsBehind]

theorem writtenOut?_concat (path : List Edge) (e : Edge) :
    writtenOut? (path ++ [e]) = some (e.target.instantiate (argumentsBehind path)) := by
  simp [writtenOut?]

theorem TypeSig.length_instantiateArgs (actual args : List TypeSig) :
    (instantiateArgs actual args).length = args.length := by
  induction args with
  | nil => rfl
  | cons arg rest ih => simp [instantiateArgs, ih]

/-! ## Writing out leaves no parameters -/

theorem TypeSig.params_of_getElem? {actual : List TypeSig}
    (ground : TypeSig.paramsOfArgs actual = []) {position : Nat} {arg : TypeSig}
    (stands : actual[position]? = some arg) : arg.params = [] := by
  induction actual generalizing position with
  | nil => simp at stands
  | cons first rest ih =>
      obtain ⟨groundFirst, groundRest⟩ := List.append_eq_nil_iff.mp ground
      cases position with
      | zero => exact Option.some.inj stands ▸ groundFirst
      | succ position => exact ih groundRest stands

section
variable {actual : List TypeSig}

mutual

theorem TypeRef.params_instantiate (ground : TypeSig.paramsOfArgs actual = []) :
    ∀ ref : TypeRef, (∀ position ∈ ref.params, position < actual.length) →
      (ref.instantiate actual).params = []
  | .handle _, _ => rfl
  | .named _, _ => rfl
  | .inst head args, inside => by
      obtain ⟨ofHead, ofArgs⟩ := List.forall_mem_append.mp inside
      rw [TypeRef.instantiate, TypeRef.params, TypeRef.params_instantiate ground head ofHead,
        TypeSig.params_instantiateArgs ground args ofArgs, List.nil_append]

theorem TypeSig.params_instantiate (ground : TypeSig.paramsOfArgs actual = []) :
    ∀ sig : TypeSig, (∀ position ∈ sig.params, position < actual.length) →
      (sig.instantiate actual).params = []
  | .element _, _ => rfl
  | .ref target, inside => TypeRef.params_instantiate ground target inside
  | .inst head args, inside => by
      obtain ⟨ofHead, ofArgs⟩ := List.forall_mem_append.mp inside
      rw [TypeSig.instantiate, TypeSig.params, TypeRef.params_instantiate ground head ofHead,
        TypeSig.params_instantiateArgs ground args ofArgs, List.nil_append]
  | .param position, inside => by
      have stands := List.getElem?_eq_getElem (inside position (List.mem_singleton.mpr rfl))
      rw [TypeSig.instantiate, stands]
      exact TypeSig.params_of_getElem? ground stands
  | .array item, inside => TypeSig.params_instantiate ground item inside

theorem TypeSig.params_instantiateArgs (ground : TypeSig.paramsOfArgs actual = []) :
    ∀ args : List TypeSig, (∀ position ∈ TypeSig.paramsOfArgs args, position < actual.length) →
      TypeSig.paramsOfArgs (TypeSig.instantiateArgs actual args) = []
  | [], _ => rfl
  | arg :: rest, inside => by
      obtain ⟨ofFirst, ofRest⟩ := List.forall_mem_append.mp inside
      rw [TypeSig.instantiateArgs, TypeSig.paramsOfArgs,
        TypeSig.params_instantiate ground arg ofFirst,
        TypeSig.params_instantiateArgs ground rest ofRest, List.nil_append]

end

/-! ## Printing what is written out -/

variable {repo : Repository} {scope : Scope}

/-- The innermost frame shows what the arguments print as on their own. -/
def Scope.Shows (scope : Scope) (repo : Repository) (actual : List TypeSig) : Prop :=
  ∀ (position : Nat) (arg : TypeSig), actual[position]? = some arg →
    scope.arg? position = some (displaySig repo .empty arg)

theorem Repository.rootName_instantiate (repo : Repository) (actual : List TypeSig)
    (ref : TypeRef) : repo.rootName (ref.instantiate actual) = repo.rootName ref := by
  induction ref using TypeRef.headInduction with
  | handle _ => rfl
  | named _ => rfl
  | inst _ _ ih => exact ih

mutual

theorem Scope.Shows.displayType_eq (shown : scope.Shows repo actual) :
    ∀ ref : TypeRef, (∀ position ∈ ref.params, position < actual.length) →
      displayType repo scope ref = displayType repo .empty (ref.instantiate actual)
  | .handle _, _ => rfl
  | .named _, _ => rfl
  | .inst head args, inside => by
      obtain ⟨_, ofArgs⟩ := List.forall_mem_append.mp inside
      rw [TypeRef.instantiate, displayType, displayType, repo.rootName_instantiate,
        Scope.Shows.displayArgs_eq shown args ofArgs]

theorem Scope.Shows.displaySig_eq (shown : scope.Shows repo actual) :
    ∀ sig : TypeSig, (∀ position ∈ sig.params, position < actual.length) →
      displaySig repo scope sig = displaySig repo .empty (sig.instantiate actual)
  | .element _, _ => rfl
  | .ref target, inside => by
      rw [TypeSig.instantiate, displaySig, displaySig,
        Scope.Shows.displayType_eq shown target inside]
  | .inst head args, inside => by
      obtain ⟨_, ofArgs⟩ := List.forall_mem_append.mp inside
      rw [TypeSig.instantiate, displaySig, displaySig, repo.rootName_instantiate,
        Scope.Shows.displayArgs_eq shown args ofArgs]
  | .param position, inside => by
      have stands := List.getElem?_eq_getElem (inside position (List.mem_singleton.mpr rfl))
      rw [TypeSig.instantiate, stands, displaySig, paramText, shown position _ stands]
      rfl
  | .array item, inside => by
      rw [TypeSig.instantiate, displaySig, displaySig,
        Scope.Shows.displaySig_eq shown item inside]

theorem Scope.Shows.displayArgs_eq (shown : scope.Shows repo actual) :
    ∀ args : List TypeSig, (∀ position ∈ TypeSig.paramsOfArgs args, position < actual.length) →
      displayArgs repo scope args = displayArgs repo .empty (TypeSig.instantiateArgs actual args)
  | [], _ => rfl
  | arg :: rest, inside => by
      obtain ⟨ofFirst, ofRest⟩ := List.forall_mem_append.mp inside
      rw [TypeSig.instantiateArgs, displayArgs, displayArgs,
        Scope.Shows.displaySig_eq shown arg ofFirst,
        Scope.Shows.displayArgs_eq shown rest ofRest]

end

theorem TypeSig.paramsOfArgs_args_subset (ref : TypeRef) :
    ∀ position ∈ TypeSig.paramsOfArgs ref.args, position ∈ ref.params := by
  cases ref with
  | handle _ => exact fun _ nothing => nothing
  | named _ => exact fun _ nothing => nothing
  | inst _ _ => exact fun _ inside => List.mem_append_right _ inside

/-- Entering a reference puts its arguments, as they stand here, on top. -/
theorem Scope.Shows.enter (shown : scope.Shows repo actual) {ref : TypeRef}
    (inside : ∀ position ∈ ref.params, position < actual.length) :
    (scope.enter repo .display ref).Shows repo (TypeSig.instantiateArgs actual ref.args) := by
  intro position arg stands
  cases ref with
  | handle _ => simp [TypeRef.args, TypeSig.instantiateArgs] at stands
  | named _ => simp [TypeRef.args, TypeSig.instantiateArgs] at stands
  | inst head args =>
      have frame := shown.displayArgs_eq args (List.forall_mem_append.mp inside).2
      rw [displayArgs_eq_map, displayArgs_eq_map] at frame
      have top : (args.map fun arg => displaySig repo scope arg)[position]? =
          some (displaySig repo .empty arg) := by
        rw [frame, List.getElem?_map]
        exact congrArg _ stands
      exact top

end

/-! ## Along a path -/

section
variable {repo : Repository} {d : TypeDef} {base : Bool}

namespace TypeDef.WellScoped

/-- The last reference of a path mentions only parameters that stand for something. -/
theorem lt_of_mem_params (wellScoped : d.WellScoped repo) {path : List Edge} {last : Edge}
    (reaches : d.Reaches repo base (path ++ [last])) :
    ∀ position ∈ last.target.params, position < (argumentsBehind path).length := by
  intro position mentioned
  cases path using List.reverseRecOn with
  | nil =>
      obtain ⟨origin, declared, starts, _, follows⟩ := reaches
      have ground :=
        wellScoped.declared declared (List.mem_of_getElem? starts) last follows.head_mem
      simp [ground] at mentioned
  | append_singleton early before =>
      obtain ⟨_, isLast, target, known, follows⟩ := reaches.rest_of_append (by simp) (by simp)
      rw [List.getLast?_concat] at isLast
      cases isLast
      -- There are as many arguments behind an edge as its reference has.
      rw [argumentsBehind_concat, TypeSig.length_instantiateArgs]
      exact wellScoped.required base _ before target (reaches.prefix_of_append (by simp))
        List.getLast?_concat known last follows.head_mem position mentioned

/-- Before the last reference of a path all arguments are written out, and the scope shows
them. -/
theorem shows_behind (wellScoped : d.WellScoped repo) {path : List Edge} {last : Edge}
    (reaches : d.Reaches repo base (path ++ [last])) :
    TypeSig.paramsOfArgs (argumentsBehind path) = [] ∧
      (scopeBehind repo .display path).Shows repo (argumentsBehind path) := by
  induction path using List.reverseRecOn generalizing last with
  | nil => exact ⟨rfl, fun position arg stands => by simp [argumentsBehind] at stands⟩
  | append_singleton early before ih =>
      have shorter := reaches.prefix_of_append (by simp)
      have inside := wellScoped.lt_of_mem_params shorter
      obtain ⟨ground, shown⟩ := ih shorter
      -- A frame is printed in the scope before it, where it shows its arguments by induction.
      rw [argumentsBehind_concat, scopeBehind_concat]
      refine ⟨TypeSig.params_instantiateArgs ground _ ?_, shown.enter inside⟩
      exact fun position mentioned =>
        inside position (TypeSig.paramsOfArgs_args_subset _ position mentioned)

end TypeDef.WellScoped

/-- At the end of a path a walk prints what the reference, written out with the arguments it
has there, prints where no scope is given; so it prints the same as an edge that declares
that instantiation directly. -/
theorem keyOf?_eq_writtenOut (wellScoped : d.WellScoped repo) {path : List Edge}
    (reaches : d.Reaches repo base path) :
    ∃ written, writtenOut? path = some written ∧ written.params = [] ∧
      keyOf? repo .display path = some (Renderer.display.type repo written .empty) ∧
      ∀ direct : Edge, direct.target = written →
        keyOf? repo .display [direct] = keyOf? repo .display path := by
  cases path using List.reverseRecOn with
  | nil => exact absurd rfl reaches.ne_nil
  | append_singleton early last =>
      have inside := wellScoped.lt_of_mem_params reaches
      obtain ⟨ground, shown⟩ := wellScoped.shows_behind reaches
      have printed : keyOf? repo .display (early ++ [last]) =
          some (Renderer.display.type repo (last.target.instantiate (argumentsBehind early))
            .empty) := by
        rw [keyOf?_concat]
        exact congrArg some (shown.displayType_eq _ inside)
      refine ⟨_, writtenOut?_concat early last, TypeRef.params_instantiate ground _ inside, printed,
        ?_⟩
      rintro direct isWritten
      rw [printed, ← isWritten]
      rfl

end

theorem TypeDef.wellScoped_of_routes {repo : Repository} {d : TypeDef} (acyclic : repo.Acyclic)
    (declared : ∀ declared ∈ d.origins repo, ∀ e ∈ declared, e.target.params = [])
    (required : ∀ entry ∈ d.routes repo, ∀ last ∈ entry.2.getLast?,
      ∀ target ∈ last.targetDef? repo, ∀ e ∈ target.edges,
        ∀ position ∈ e.target.params, position < last.target.args.length) :
    d.WellScoped repo where
  declared := declared
  required base path last target reaches isLast known := by
    obtain ⟨route, _, leads⟩ := TypeDef.Reaches.iff_route.mp reaches
    exact required (route, path) ((mem_routes_iff acyclic d route path).mpr leads) last isLast
      target known

/-- An atlas, at handle 5, is a map from texts to numbers.  A map is iterated in pairs, and
what is iterated is counted by the array.  A map is labelled too: that reference has no
arguments, so the labels are counted below the frame of the map. -/
def atlas : Repository := .ofList [
  .interfaceNamed "Coll" "ICounted`1" [],
  .interfaceNamed "Coll" "IPair`2" [],
  .interfaceNamed "Coll" "IIterable`1"
    [⟨.inst (.named ⟨"Coll", "ICounted`1"⟩) [.array (.param 0)], []⟩],
  .interfaceNamed "Demo" "ILabelled"
    [⟨.inst (.handle ⟨0⟩) [.element .string], []⟩],
  .interfaceNamed "Coll" "IMap`2"
    [⟨.inst (.handle ⟨2⟩) [.ref (.inst (.handle ⟨1⟩) [.param 1, .param 0])], []⟩,
     ⟨.named ⟨"Demo", "ILabelled"⟩, []⟩],
  ⟨⟨"Demo", "Atlas"⟩, .classType, [], none,
    [.markDefault ⟨.inst (.handle ⟨4⟩) [.element .string, .element .int32], []⟩], [], [], []⟩]

theorem keyOf?_eq_writtenOut_of_atlas :
    ∃ d path labels, atlas.get? ⟨5⟩ = some d ∧ d.WellScoped atlas ∧
      d.Reaches atlas false path ∧ d.Reaches atlas false labels ∧
      keyOf? atlas .display path = some "Coll.ICounted`1<Coll.IPair`2<Int32, String>[]>" ∧
      keyOf? atlas .display labels = some "Coll.ICounted`1<String>" ∧
      (∃ written, writtenOut? path = some written ∧ written.params = [] ∧
        keyOf? atlas .display path = some (Renderer.display.type atlas written .empty) ∧
        ∀ direct : Edge, direct.target = written →
          keyOf? atlas .display [direct] = keyOf? atlas .display path) ∧
      ∃ written, writtenOut? labels = some written ∧ written.params = [] ∧
        keyOf? atlas .display labels = some (Renderer.display.type atlas written .empty) ∧
        ∀ direct : Edge, direct.target = written →
          keyOf? atlas .display [direct] = keyOf? atlas .display labels := by
  have acyclic : atlas.Acyclic := Repository.acyclic_of_descending (by decide)
  have paths : ∃ d path labels, atlas.get? ⟨5⟩ = some d ∧ d.WellScoped atlas ∧
      Route.edges? ⟨0, [0, 0, 0]⟩ atlas d = some path ∧
      Route.edges? ⟨0, [0, 1, 0]⟩ atlas d = some labels ∧
      keyOf? atlas .display path = some "Coll.ICounted`1<Coll.IPair`2<Int32, String>[]>" ∧
      keyOf? atlas .display labels = some "Coll.ICounted`1<String>" :=
    ⟨_, _, _, rfl, TypeDef.wellScoped_of_routes acyclic (by decide) (by decide), rfl, rfl,
      by decide, by decide⟩
  obtain ⟨d, path, labels, known, wellScoped, leads, leadsToo, printed, printedToo⟩ := paths
  have reaches : d.Reaches atlas false path := TypeDef.Reaches.iff_route.mpr ⟨_, rfl, leads⟩
  have reachesToo : d.Reaches atlas false labels :=
    TypeDef.Reaches.iff_route.mpr ⟨_, rfl, leadsToo⟩
  exact ⟨d, path, labels, known, wellScoped, reaches, reachesToo, printed, printedToo,
    keyOf?_eq_writtenOut wellScoped reaches, keyOf?_eq_writtenOut wellScoped reachesToo⟩

end InterfaceSurface
