import InterfaceSurface.Metadata.Repository

/-! # The handles inside records

Records may be inserted before the definitions they point at, so nothing checks
a handle when it comes in.  `Repository.Closed` says that every handle inside a
record of the repository was issued by it. -/
set_option autoImplicit false
namespace InterfaceSurface

mutual

def TypeRef.handles : TypeRef → List Handle
  | .handle target => [target]
  | .named _ => []
  | .inst head args => head.handles ++ TypeSig.handlesOfArgs args

def TypeSig.handles : TypeSig → List Handle
  | .element _ => []
  | .ref target => target.handles
  | .inst head args => head.handles ++ TypeSig.handlesOfArgs args
  | .param _ => []
  | .array item => item.handles

def TypeSig.handlesOfArgs : List TypeSig → List Handle
  | [] => []
  | arg :: rest => arg.handles ++ TypeSig.handlesOfArgs rest

end

def Method.handles (m : Method) : List Handle :=
  (m.result.map TypeSig.handles).getD [] ++ m.params.toList.flatMap (·.type.handles)

def TypeDef.handles (d : TypeDef) : List Handle :=
  (d.base.map TypeRef.handles).getD [] ++ d.edges.flatMap (·.target.handles) ++
    d.methods.flatMap Method.handles ++ d.fields.flatMap (·.type.handles)

namespace Repository

def Issued (repo : Repository) (h : Handle) : Prop := h.index < repo.size

instance (repo : Repository) (h : Handle) : Decidable (repo.Issued h) :=
  inferInstanceAs (Decidable (h.index < repo.size))

/-- Every handle inside a record was issued. -/
def Closed (repo : Repository) : Prop :=
  ∀ d ∈ repo.toList, ∀ h ∈ d.handles, repo.Issued h

instance (repo : Repository) : Decidable repo.Closed :=
  inferInstanceAs (Decidable (∀ d ∈ repo.toList, ∀ h ∈ d.handles, repo.Issued h))

end Repository
end InterfaceSurface
