import QualifierFlow.Analysis.Clauses

/-! The store at the entry of a code unit: what is declared for the parameters, what the method
requires, and what is known of the fields, a later source replacing an earlier one. -/
namespace QualifierFlow.Analysis
open Run
variable {σ γ V : Type} (analysis : Analysis σ γ V)

def enterParameters (parameters : List Parameter) (start : Store V) : Run σ V (Store V) :=
  parameters.foldlM (fun store parameter =>
    return store.bindParameter parameter.var (← analysis.typeValue parameter.tree)) start

/-- Records what a method requires, and complains of what does not resolve. -/
def enterRequirements (method : Method) (start : Store V) : Run σ V (Store V) :=
  analysis.useClauses
    { site := .declaration method.id
      build := analysis.host.declarationScope method
      clause := fun clause => clause
      apply := fun clause path store => analysis.establish store path clause.qualifier
      reject := fun clause error => do
        note (.requirementUnresolved method.name error)
        complain method clause.expression error }
    (analysis.contracts method.id).requires.keys start

/-- Records the values of fields: those of final fields, and in a constructor those of all. -/
def enterFields (method : Method) (fields : List (Field × V)) (start : Store V) : Store V :=
  fields.foldl (fun store (field, value) =>
    if field.isFinal || method.isConstructor then
      store.record (.field (.self method.declaringType) field) value
    else store) start

/-- The store at the entry of a code unit. Resolutions at the call sites of the unit before are
forgotten. -/
def entryStore (unit : CodeUnit) (parameters : List Parameter) : Run σ V (Store V) := do
  forgetCalls
  match unit with
  | .other => return .empty analysis.assumptions
  | .method method =>
    note (.entered method.name)
    let store ← analysis.enterParameters parameters (.empty analysis.assumptions)
    let store ← analysis.enterRequirements method store
    let fields ← ask analysis.host.fieldValues
    return enterFields method fields store

end QualifierFlow.Analysis
