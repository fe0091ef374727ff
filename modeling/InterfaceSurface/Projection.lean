import InterfaceSurface.Factory
import InterfaceSurface.Marshaling
import InterfaceSurface.MethodView
import InterfaceSurface.Surface.Closure
import InterfaceSurface.Surface.Layout

/-! # Projections

A projection answers the questions about single types that one run asks, with
one repository, one renderer and one choice of settings.  Types are given by
handle; an unissued handle is a fault of every question. -/
set_option autoImplicit false
namespace InterfaceSurface

structure Projection where
  repo : Repository
  renderer : Renderer
  settings : Settings

namespace Projection

/-- The interfaces of a type, laid out if the type asks for it. -/
def interfaces (p : Projection) (h : Handle) : Except Fault Surface := do
  let d ← p.repo.get h
  let found ← Surface.ofDefinition p.repo p.renderer d
  return found.order p.repo (d.usesFastAbi p.settings)

/-- The dispatch slots of a type; nothing is resolved for a type that has none. -/
def slotCount (p : Projection) (h : Handle) : Except Fault Nat := do
  let d ← p.repo.get h
  if d.usesFastAbi p.settings then
    d.slotCount p.repo (← p.interfaces h) p.settings
  else
    return 0

/-- The largest slot count of some types, or the first fault among them. -/
def maxSlotCount (p : Projection) (types : List Handle) : Except Fault Nat :=
  types.foldlM (fun largest h => return max largest (← p.slotCount h)) 0

def needsTearOffs (p : Projection) (h : Handle) : Except Fault Bool :=
  (p.interfaces h).map Surface.needsTearOffs

def factories (p : Projection) (h : Handle) : Except Fault Factories := do
  (← p.repo.get h).factories p.repo p.renderer

def methodView (p : Projection) (m : Method) : Except Fault MethodView :=
  MethodView.ofMethod p.repo m

def marshaling (p : Projection) (sig : TypeSig) : Except Fault Marshaling :=
  Marshaling.ofSig p.repo sig

def isAlwaysDisabled (p : Projection) (h : Handle) : Except Fault Bool :=
  (p.repo.get h).map fun d => d.isAlwaysDisabled p.repo p.settings

def isAlwaysEnabled (p : Projection) (h : Handle) : Except Fault Bool :=
  (p.repo.get h).map fun d => d.isAlwaysEnabled p.repo

def canProduce (p : Projection) (h : Handle) : Except Fault Bool := do
  (← p.repo.get h).canProduce p.repo p.renderer p.settings

def implements (p : Projection) (h : Handle) (text : String) : Except Fault Bool := do
  (← p.repo.get h).implements p.repo p.renderer text

/-- The answer for one type of a batch.  A fault belongs to its type, except
that an unissued handle stops the batch. -/
def answer (p : Projection) (h : Handle) :
    Except Fault (Handle × Except Fault Surface) :=
  match p.interfaces h with
  | .error (.unissued missing) => .error (.unissued missing)
  | found => .ok (h, found)

/-- The interfaces of many types, each on its own, in the order given. -/
def resolveAll (p : Projection) (types : List Handle) :
    Except Fault (List (Handle × Except Fault Surface)) :=
  types.mapM p.answer

end Projection
end InterfaceSurface
