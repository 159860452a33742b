import QualifierFlow.Host.Basic

/-! A host that keeps the list of what it was asked. -/
namespace QualifierFlow

inductive Query
  | attend (tree : Option (Id .tree))
  | typeValue (tree : Id .tree)
  | boundValue (tree : Id .tree)
  | supports (qualifier : String)
  | meaning (qualifier : String)
  | declarationScope (method : Id .method)
  | callScope (callee : Id .method)
  | resolve (expression : String)
  | fieldValues
  | isSideEffectFree (method : Id .method)
  deriving DecidableEq, Repr

/-- The state of a host with the queries that it has answered, in order. -/
structure Recorded (σ : Type) where
  state : σ
  queries : List Query := []

namespace Recorded
variable {σ α : Type}

def answer (query : Query) (respond : StateM σ α) : StateM (Recorded σ) α := fun recorded =>
  let (result, state) := respond.run recorded.state
  (result, ⟨state, recorded.queries ++ [query]⟩)

end Recorded

/-- The host that answers alike and records its queries. -/
def Host.recorded {σ γ V : Type} (host : Host σ γ V) : Host (Recorded σ) γ V where
  attend tree := Recorded.answer (.attend tree) (host.attend tree)
  typeValue tree := Recorded.answer (.typeValue tree.id) (host.typeValue tree)
  boundValue tree := Recorded.answer (.boundValue tree.id) (host.boundValue tree)
  supports qualifier := Recorded.answer (.supports qualifier) (host.supports qualifier)
  meaning qualifier := Recorded.answer (.meaning qualifier) (host.meaning qualifier)
  declarationScope method :=
    Recorded.answer (.declarationScope method.id) (host.declarationScope method)
  callScope call := Recorded.answer (.callScope call.method) (host.callScope call)
  resolve expression scope := Recorded.answer (.resolve expression) (host.resolve expression scope)
  fieldValues := Recorded.answer .fieldValues host.fieldValues
  isSideEffectFree method :=
    Recorded.answer (.isSideEffectFree method) (host.isSideEffectFree method)

end QualifierFlow
