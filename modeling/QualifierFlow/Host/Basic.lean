import QualifierFlow.Contract.Resolution
import QualifierFlow.Program

/-! The host of an analysis: the checker that knows the program's types. The analysis asks it for
the values of trees, for the meaning of qualifier names and contract expressions, and for facts
about fields and methods; every answer may depend on and change the host's own state. -/
namespace QualifierFlow

/-- A host with states `σ` and scopes `γ` in which contract expressions are resolved. -/
structure Host (σ γ V : Type) where
  /-- Names the tree whose type is being computed, for complaints raised meanwhile. -/
  attend : Option (Id .tree) → StateM σ Unit
  typeValue : Tree → StateM σ (Option V)
  /-- The value that the static type alone gives as an upper bound. -/
  boundValue : Tree → StateM σ (Option V)
  supports : String → StateM σ Bool
  meaning : String → StateM σ (Option V)
  declarationScope : Method → StateM σ γ
  callScope : Call → StateM σ γ
  resolve : String → γ → StateM σ Resolution
  /-- Values inferred so far for the fields of the enclosing class. -/
  fieldValues : StateM σ (List (Field × V))
  isSideEffectFree : Id .method → StateM σ Bool

end QualifierFlow
