import InterfaceSurface.Metadata.Repository

/-! # Methods as they are projected

A view pairs the rows of a method with its signature and tells what a projection
needs to know: the accessor role, the visible name, whether the method may fail,
and whether it may keep its arguments past its return, as property setters and
methods with an asynchronous result do. -/
set_option autoImplicit false
namespace InterfaceSurface

inductive Accessor
  | plain
  | get
  | put
  | add
  | remove
deriving DecidableEq, Repr

namespace Accessor

/-- The roles and the beginnings of the names that have them. -/
def stems : List (String × Accessor) :=
  [("get_", .get), ("put_", .put), ("add_", .add), ("remove_", .remove)]

/-- Only a method with a special name can be an accessor. -/
def ofMethod (m : Method) : Accessor :=
  if m.flags.isSpecialName then
    match stems.find? fun stem => stem.1.toList.isPrefixOf m.name.toList with
    | some stem => stem.2
    | none => .plain
  else .plain

end Accessor

namespace AsyncShape

def space : String := "Windows.Foundation"

/-- The asynchronous action, which is not generic. -/
def action : TypeName := ⟨space, "IAsyncAction"⟩

def generics : List TypeName :=
  [⟨space, "IAsyncOperation`1"⟩, ⟨space, "IAsyncActionWithProgress`1"⟩,
    ⟨space, "IAsyncOperationWithProgress`2"⟩]

end AsyncShape

def TypeSig.isAsyncShape (repo : Repository) : TypeSig → Except Fault Bool
  | .ref (.inst head _) => (repo.nameOf head).map fun name => AsyncShape.generics.contains name
  | .inst head _ => (repo.nameOf head).map fun name => AsyncShape.generics.contains name
  | .ref target => (repo.nameOf target).map fun name => name == AsyncShape.action
  | .element _ => .ok false
  | .param _ => .ok false
  | .array _ => .ok false

namespace Method

/-- Property setters and methods with an asynchronous result. -/
def isAsync (m : Method) (repo : Repository) : Except Fault Bool :=
  if Accessor.ofMethod m = .put then .ok true
  else
    match m.result with
    | some type => type.isAsyncShape repo
    | none => .ok false

/-- The row of the result: the first row, if the method has a result and that
row is numbered zero. -/
def resultRow? (m : Method) : Option ParamRow :=
  if m.result.isSome then m.rows[0]?.filter (·.sequence == 0) else none

/-- The rows left of the result's row, if there is one, name the parameters. -/
def paramRowsStart (m : Method) : Nat :=
  if m.resultRow?.isSome then 1 else 0

/-- The parameters with their rows; a parameter beyond the rows has none. -/
def pairedParams (m : Method) : Array (Option ParamRow × ParamSig) :=
  m.params.mapIdx fun position param => (m.rows[m.paramRowsStart + position]?, param)

/-- The text that the first overload attribute starts with. -/
def overloadName? (m : Method) : Option String :=
  (Attribute.firstKnown? m.attributes .overload).bind (·.textArg? 0)

/-- The part of a name behind its first underscore; the whole name if there is
none. -/
def afterUnderscore (name : String) : String :=
  match name.toList.dropWhile (· != '_') with
  | _ :: rest => String.ofList rest
  | [] => name

end Method

structure MethodView where
  method : Method
  resultRow : Option ParamRow
  params : Array (Option ParamRow × ParamSig)
  accessor : Accessor
  isAsync : Bool

namespace MethodView

def defaultResultName : String := "impl_result"

def ofMethod (repo : Repository) (m : Method) : Except Fault MethodView := do
  return {
    method := m
    resultRow := m.resultRow?
    params := m.pairedParams
    accessor := Accessor.ofMethod m
    isAsync := ← m.isAsync repo }

def result (v : MethodView) : Option TypeSig := v.method.result

def resultName (v : MethodView) : String :=
  match v.resultRow with
  | some row => row.name
  | none => defaultResultName

/-- Removers never fail; other methods declare it. -/
def isNoexcept (v : MethodView) : Bool :=
  v.accessor == .remove || Attribute.hasKnown v.method.attributes .noException

/-- The name to be seen: the overload name, or else the method's name, from
which a special name loses the part up to its first underscore. -/
def name (v : MethodView) : String :=
  match v.method.overloadName? with
  | some text => text
  | none =>
    if v.method.flags.isSpecialName then Method.afterUnderscore v.method.name
    else v.method.name

/-- The name on the binary interface: the overload name, or else the method's. -/
def abiName (v : MethodView) : String :=
  v.method.overloadName?.getD v.method.name

end MethodView

def TypeDef.delegateInvoke (d : TypeDef) : Except Fault Method :=
  match d.methods.find? (·.name == "Invoke") with
  | some m => .ok m
  | none => .error (.missingDelegateInvoke d.name)

end InterfaceSurface
