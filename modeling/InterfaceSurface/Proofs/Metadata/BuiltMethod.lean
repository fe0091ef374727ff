import InterfaceSurface.MethodView
import InterfaceSurface.Proofs.Metadata.Issued
import InterfaceSurface.Proofs.Outcome

/-! # Methods put together call by call

A method is put together by calls in any order.  What it is then can be told from the
calls alone: its parameters are those added, in order, and its result is that of the last
call that gives one (`Method.BuiltBy`).  Its rows name the parameters in step, behind the
one row of a named result.

So a view of the method pairs each parameter with the row of its own call
(`MethodView.ofMethod_build`).  Rows are told apart from that of the result by their
numbers: these stop growing at the largest one, but they never come round to zero. -/
set_option autoImplicit false
namespace InterfaceSurface

inductive BuilderCall
  | special
  | withFlags (flags : MethodFlags)
  | withAttribute (a : Attribute)
  | returning (type : TypeSig)
  | returningNamed (name : String) (type : TypeSig)
  | param (name : String) (type : TypeSig)

namespace BuilderCall

def apply (m : Method) : BuilderCall → Method
  | .special => m.special
  | .withFlags flags => m.withFlags flags
  | .withAttribute a => m.withAttribute a
  | .returning type => m.returning type
  | .returningNamed name type => m.returningNamed name type
  | .param name type => m.param name type

/-- The parameter a call adds. -/
def param? : BuilderCall → Option (String × TypeSig)
  | .param name type => some (name, type)
  | _ => none

/-- The result type a call gives. -/
def result? : BuilderCall → Option TypeSig
  | .returning type => some type
  | .returningNamed _ type => some type
  | _ => none

/-- The name a call gives to the result. -/
def resultName? : BuilderCall → Option String
  | .returningNamed name _ => some name
  | _ => none

def addedParams (calls : List BuilderCall) : List (String × TypeSig) := calls.filterMap param?

def lastResult? (calls : List BuilderCall) : Option TypeSig := calls.reverse.findSome? result?

def lastResultName? (calls : List BuilderCall) : Option String :=
  calls.reverse.findSome? resultName?

/-! ## The rows, told from the calls -/

/-- The number of the row for the parameter in some place. -/
def sequenceAt (position : Nat) : UInt16 := UInt16.ofNat (min (position + 1) 65535)

def resultRows (calls : List BuilderCall) : List ParamRow :=
  (lastResultName? calls).toList.map fun name => ⟨name, 0⟩

def paramRows (calls : List BuilderCall) : List ParamRow :=
  (addedParams calls).mapIdx fun position added => ⟨added.1, sequenceAt position⟩

theorem toNat_sequenceAt (position : Nat) :
    (sequenceAt position).toNat = min (position + 1) 65535 := by
  rw [sequenceAt, UInt16.toNat_ofNat']
  omega

theorem sequenceAt_ne_zero (position : Nat) : sequenceAt position ≠ 0 := by
  intro zero
  have number := toNat_sequenceAt position
  rw [zero] at number
  simp at number
  omega

variable {calls : List BuilderCall} {m : Method}

theorem sequence_of_mem_resultRows {row : ParamRow} (listed : row ∈ resultRows calls) :
    row.sequence = 0 := by
  obtain ⟨_, _, rfl⟩ := List.mem_map.mp listed
  rfl

theorem sequence_of_mem_paramRows {row : ParamRow} (listed : row ∈ paramRows calls) :
    row.sequence ≠ 0 := by
  obtain ⟨position, _, rfl⟩ := List.mem_mapIdx.mp listed
  exact sequenceAt_ne_zero position

/-- Who names the result gives its type as well. -/
theorem lastResult?_isSome_of_named (named : (lastResultName? calls).isSome = true) :
    (lastResult? calls).isSome = true := by
  rw [lastResultName?, List.findSome?_isSome_iff] at named
  obtain ⟨call, listed, names⟩ := named
  refine List.findSome?_isSome_iff.mpr ⟨call, listed, ?_⟩
  cases call with
  | returningNamed _ _ => rfl
  | special | withFlags _ | withAttribute _ | returning _ | param _ _ => cases names

/-! ## Call by call -/

theorem addedParams_concat (calls : List BuilderCall) (call : BuilderCall) :
    addedParams (calls ++ [call]) = addedParams calls ++ call.param?.toList := by
  rw [addedParams, List.filterMap_append]
  cases added : call.param? <;> simp [addedParams, added]

theorem lastResult?_concat (calls : List BuilderCall) (call : BuilderCall) :
    lastResult? (calls ++ [call]) = call.result?.or (lastResult? calls) := by
  rw [lastResult?, List.reverse_concat, List.findSome?_cons]
  cases call.result? <;> rfl

theorem lastResultName?_concat (calls : List BuilderCall) (call : BuilderCall) :
    lastResultName? (calls ++ [call]) = call.resultName?.or (lastResultName? calls) := by
  rw [lastResultName?, List.reverse_concat, List.findSome?_cons]
  cases call.resultName? <;> rfl

end BuilderCall

open BuilderCall

/-- What the calls make of a method. -/
structure Method.BuiltBy (m : Method) (calls : List BuilderCall) : Prop where
  result : m.result = lastResult? calls
  params : m.params.toList = (addedParams calls).map fun added => ⟨added.2, false⟩
  rows : m.rows.toList = resultRows calls ++ paramRows calls

def Method.build (name : String) (calls : List BuilderCall) : Method :=
  calls.foldl BuilderCall.apply (ofName name)

namespace Method

variable {calls : List BuilderCall} {m : Method}

theorem builtBy_ofName (name : String) : (ofName name).BuiltBy [] := ⟨rfl, rfl, rfl⟩

namespace BuiltBy

/-- A call that adds no parameter and gives no result changes nothing that is told here. -/
theorem of_quiet (built : m.BuiltBy calls) {call : BuilderCall} (addsNone : call.param? = none)
    (givesNone : call.result? = none) (namesNone : call.resultName? = none) {other : Method}
    (result : other.result = m.result) (params : other.params = m.params)
    (rows : other.rows = m.rows) : other.BuiltBy (calls ++ [call]) where
  result := by rw [result, built.result, lastResult?_concat, givesNone, Option.none_or]
  params := by
    rw [params, built.params, addedParams_concat, addsNone, Option.toList_none, List.append_nil]
  rows := by
    rw [rows, built.rows, resultRows, resultRows, paramRows, paramRows, addedParams_concat,
      lastResultName?_concat, addsNone, namesNone, Option.toList_none, List.append_nil,
      Option.none_or]

theorem returning (built : m.BuiltBy calls) (type : TypeSig) :
    (m.returning type).BuiltBy (calls ++ [.returning type]) where
  result := by
    rw [lastResult?_concat]
    rfl
  params := by
    rw [addedParams_concat]
    simpa [Method.returning, param?] using built.params
  rows := by
    rw [resultRows, paramRows, addedParams_concat, lastResultName?_concat]
    simpa [Method.returning, param?, resultName?, resultRows, paramRows] using built.rows

/-- The row of an earlier name goes, and those of the parameters stay. -/
theorem returningNamed (built : m.BuiltBy calls) (name : String) (type : TypeSig) :
    (m.returningNamed name type).BuiltBy (calls ++ [.returningNamed name type]) where
  result := by
    rw [lastResult?_concat]
    rfl
  params := by
    rw [addedParams_concat]
    simpa [Method.returningNamed, param?] using built.params
  rows := by
    have oldNames : (resultRows calls).filter (·.sequence != 0) = [] := by
      refine List.filter_eq_nil_iff.mpr fun row listed => ?_
      simp [sequence_of_mem_resultRows listed]
    have params : (paramRows calls).filter (·.sequence != 0) = paramRows calls := by
      refine List.filter_eq_self.mpr fun row listed => ?_
      simpa using sequence_of_mem_paramRows listed
    have kept : (m.rows.filter (·.sequence != 0)).toList = paramRows calls := by
      rw [Array.toList_filter, built.rows, List.filter_append, oldNames, params, List.nil_append]
    rw [resultRows, paramRows, addedParams_concat, lastResultName?_concat]
    simp [Method.returningNamed, kept, param?, resultName?, paramRows]

theorem param (built : m.BuiltBy calls) (name : String) (type : TypeSig) :
    (m.param name type).BuiltBy (calls ++ [.param name type]) where
  result := by
    rw [lastResult?_concat]
    exact built.result
  params := by
    rw [addedParams_concat]
    simp [Method.param, built.params, param?]
  rows := by
    have number : m.nextSequence = sequenceAt (addedParams calls).length := by
      have size := congrArg List.length built.params
      rw [Array.length_toList, List.length_map] at size
      rw [nextSequence, size, sequenceAt]
    rw [resultRows, paramRows, addedParams_concat, lastResultName?_concat]
    simp [Method.param, built.rows, number, param?, resultName?, resultRows, paramRows,
      List.mapIdx_append]

theorem apply (built : m.BuiltBy calls) (call : BuilderCall) :
    (call.apply m).BuiltBy (calls ++ [call]) := by
  cases call with
  | special | withFlags _ | withAttribute _ => exact built.of_quiet rfl rfl rfl rfl rfl rfl
  | returning type => exact built.returning type
  | returningNamed name type => exact built.returningNamed name type
  | param name type => exact built.param name type

end BuiltBy

theorem builtBy_build (name : String) (calls : List BuilderCall) :
    (build name calls).BuiltBy calls := by
  induction calls using List.reverseRecOn with
  | nil => exact builtBy_ofName name
  | append_singleton calls call ih =>
      rw [build, List.foldl_append]
      exact ih.apply call

/-! ## What a view reads -/

namespace BuiltBy

theorem resultRow?_eq (built : m.BuiltBy calls) :
    m.resultRow? = (lastResultName? calls).map fun name => ⟨name, 0⟩ := by
  have first : m.rows[0]? = (resultRows calls ++ paramRows calls)[0]? := by
    rw [← built.rows, Array.getElem?_toList]
  rw [resultRow?, built.result, first]
  cases named : lastResultName? calls with
  | some name =>
      have given : (lastResult? calls).isSome = true :=
        lastResult?_isSome_of_named (by simp [named])
      simp [given, resultRows, named]
  | none =>
      simp only [resultRows, named, Option.toList_none, List.map_nil, List.nil_append,
        Option.map_none, ite_eq_right_iff]
      intro _
      refine Option.filter_eq_none_iff.mpr fun row stands => ?_
      simpa using sequence_of_mem_paramRows (List.mem_of_getElem? stands)

theorem paramRowsStart_eq (built : m.BuiltBy calls) :
    m.paramRowsStart = (resultRows calls).length := by
  rw [paramRowsStart, built.resultRow?_eq, resultRows]
  cases lastResultName? calls <;> rfl

/-- Each parameter goes with the row of the call that added it. -/
theorem pairedParams_eq (built : m.BuiltBy calls) :
    m.pairedParams.toList = (addedParams calls).mapIdx fun position added =>
      (some ⟨added.1, sequenceAt position⟩, ⟨added.2, false⟩) := by
  have row : ∀ position, m.rows[m.paramRowsStart + position]? = (paramRows calls)[position]? := by
    intro position
    rw [← Array.getElem?_toList, built.rows, built.paramRowsStart_eq,
      List.getElem?_append_right (by omega), Nat.add_sub_cancel_left]
  apply List.ext_getElem?
  intro position
  rw [pairedParams, Array.toList_mapIdx, built.params]
  simp only [row, paramRows, List.getElem?_mapIdx, List.getElem?_map]
  cases (addedParams calls)[position]? <;> simp

end BuiltBy

end Method

/-! ## Where there is a view -/

/-- The handle at the root of what a signature refers to. -/
def TypeSig.rootHandles : TypeSig → List Handle
  | .ref target => target.rootHandles
  | .inst head _ => head.rootHandles
  | .element _ => []
  | .param _ => []
  | .array _ => []

variable {repo : Repository}

theorem TypeSig.exists_isAsyncShape_iff {sig : TypeSig} :
    (∃ answer, sig.isAsyncShape repo = .ok answer) ↔ ∀ h ∈ sig.rootHandles, repo.Issued h := by
  cases sig with
  | ref target =>
      cases target with
      | handle target =>
          exact exists_map_eq_ok_iff.trans (Repository.exists_nameOf_iff (.handle target))
      | named _ =>
          simp [isAsyncShape, Repository.nameOf, Except.map, rootHandles, TypeRef.rootHandles]
      | inst head _ => exact exists_map_eq_ok_iff.trans (Repository.exists_nameOf_iff head)
  | inst head _ => exact exists_map_eq_ok_iff.trans (Repository.exists_nameOf_iff head)
  | element _ | param _ | array _ => simp [isAsyncShape, rootHandles]

namespace MethodView

variable {m : Method} {v : MethodView}

theorem ofMethod_eq_ok_iff :
    ofMethod repo m = .ok v ↔ ∃ isAsync, m.isAsync repo = .ok isAsync ∧
      v = ⟨m, m.resultRow?, m.pairedParams, .ofMethod m, isAsync⟩ := by
  refine bind_eq_ok_iff.trans (exists_congr fun isAsync => and_congr_right fun _ => ?_)
  constructor
  · intro same
    exact (Except.ok.inj same).symm
  · rintro rfl
    rfl

/-- A view needs no more of the repository than the name of the result, and of a setter it does
not need that. -/
theorem exists_ofMethod_iff :
    (∃ v, ofMethod repo m = .ok v) ↔
      Accessor.ofMethod m = .put ∨ ∀ type ∈ m.result, ∀ h ∈ type.rootHandles, repo.Issued h := by
  have answered : (∃ v, ofMethod repo m = .ok v) ↔ ∃ isAsync, m.isAsync repo = .ok isAsync := by
    constructor
    · rintro ⟨v, viewed⟩
      obtain ⟨isAsync, told, _⟩ := ofMethod_eq_ok_iff.mp viewed
      exact ⟨isAsync, told⟩
    · rintro ⟨isAsync, told⟩
      exact ⟨_, ofMethod_eq_ok_iff.mpr ⟨isAsync, told, rfl⟩⟩
  rw [answered, Method.isAsync]
  by_cases setter : Accessor.ofMethod m = .put
  · simp [setter]
  · cases result : m.result with
    | none => simp [setter]
    | some type => simpa [setter] using TypeSig.exists_isAsyncShape_iff

/-- The view pairs every parameter with the row of the call that added it, and shows the result
as the last calls to give it have it. -/
structure Shows (v : MethodView) (calls : List BuilderCall) : Prop where
  size : v.params.size = (addedParams calls).length
  params : ∀ position name type, (addedParams calls)[position]? = some (name, type) →
    ∃ row, v.params[position]? = some (some row, ⟨type, false⟩) ∧ row.name = name ∧
      row.sequence.toNat = min (position + 1) 65535 ∧ v.resultRow ≠ some row
  result : v.result = lastResult? calls
  resultName : v.resultName = (lastResultName? calls).getD "impl_result"

variable {calls : List BuilderCall}

theorem shows_of_builtBy (built : m.BuiltBy calls) (isAsync : Bool) :
    Shows ⟨m, m.resultRow?, m.pairedParams, .ofMethod m, isAsync⟩ calls where
  size := by
    rw [← Array.length_toList, built.pairedParams_eq, List.length_mapIdx]
  params := by
    intro position name type added
    refine ⟨⟨name, sequenceAt position⟩, ?_, rfl, toNat_sequenceAt position, ?_⟩
    · rw [← Array.getElem?_toList, built.pairedParams_eq, List.getElem?_mapIdx, added]
      rfl
    · rw [built.resultRow?_eq]
      intro same
      obtain ⟨_, _, row⟩ := Option.map_eq_some_iff.mp same
      exact sequenceAt_ne_zero position (congrArg ParamRow.sequence row).symm
  result := built.result
  resultName := by
    simp only [resultName, built.resultRow?_eq]
    cases lastResultName? calls <;> rfl

/-- A method that was put together has a view, unless its result has no name to look at, and a
view shows what the calls put in. -/
theorem ofMethod_build (repo : Repository) (name : String) (calls : List BuilderCall) :
    ((∃ v, ofMethod repo (.build name calls) = .ok v) ↔
        Accessor.ofMethod (.build name calls) = .put ∨
          ∀ type ∈ lastResult? calls, ∀ h ∈ type.rootHandles, repo.Issued h) ∧
      ∀ v, ofMethod repo (.build name calls) = .ok v → v.Shows calls := by
  have built := Method.builtBy_build name calls
  constructor
  · rw [exists_ofMethod_iff, built.result]
  · intro v viewed
    obtain ⟨isAsync, _, rfl⟩ := ofMethod_eq_ok_iff.mp viewed
    exact shows_of_builtBy built isAsync

/-- Many parameters, and one more after the result has been named anew. -/
def longCalls (count : Nat) : List BuilderCall :=
  .returningNamed "first" (.element .string) ::
    List.replicate count (.param "item" (.element .int32)) ++
      [.returningNamed "total" (.element .int64), .special, .param "last" (.element .boolean)]

theorem addedParams_longCalls (count : Nat) :
    addedParams (longCalls count) =
      List.replicate count ("item", .element .int32) ++ [("last", .element .boolean)] := by
  rw [longCalls, addedParams, List.filterMap_append, List.filterMap_cons_none rfl,
    List.filterMap_replicate_of_some (f := param?) rfl]
  rfl

/-- The numbers of the rows have long stopped growing when the last parameter comes. -/
theorem ofMethod_build_of_longCalls :
    ∃ v row, ofMethod .empty (.build "Sum" (longCalls 70000)) = .ok v ∧
      v.params.size = 70001 ∧
      v.params[70000]? = some (some row, ⟨.element .boolean, false⟩) ∧ row.name = "last" ∧
      row.sequence.toNat = 65535 ∧ v.resultRow ≠ some row ∧
      v.result = some (.element .int64) ∧ v.resultName = "total" := by
  have added := addedParams_longCalls 70000
  have result : lastResult? (longCalls 70000) = some (.element .int64) := by
    rw [longCalls, lastResult?, List.reverse_append]
    rfl
  have resultName : lastResultName? (longCalls 70000) = some "total" := by
    rw [longCalls, lastResultName?, List.reverse_append]
    rfl
  have last : (addedParams (longCalls 70000))[70000]? = some ("last", .element .boolean) := by
    rw [added, List.getElem?_append_right (by rw [List.length_replicate]), List.length_replicate]
    rfl
  obtain ⟨answered, shown⟩ := ofMethod_build .empty "Sum" (longCalls 70000)
  have issued : ∀ type ∈ lastResult? (longCalls 70000), ∀ h ∈ type.rootHandles,
      Repository.empty.Issued h := by
    rw [result]
    rintro _ ⟨⟩ h root
    cases root
  obtain ⟨v, viewed⟩ := answered.mpr (.inr issued)
  have shows := shown v viewed
  obtain ⟨row, stands, named, number, other⟩ := shows.params 70000 _ _ last
  refine ⟨v, row, viewed, ?_, stands, named, number, other, ?_, ?_⟩
  · rw [shows.size, added, List.length_append, List.length_replicate]
    rfl
  · rw [shows.result, result]
  · rw [shows.resultName, resultName]
    rfl

end MethodView
end InterfaceSurface
