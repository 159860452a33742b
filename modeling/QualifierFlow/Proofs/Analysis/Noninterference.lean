import Mathlib.Data.List.Forall2
import QualifierFlow.Proofs.Analysis.Session
import QualifierFlow.Proofs.Analysis.Transcript

/-! Which values of other nodes a step may depend on. Two runs from inputs that agree on these are
one run: they ask the same, remember the same and give the same result. -/
namespace QualifierFlow

private theorem TypeKind.isBoundOnly_iff {kind : TypeKind} :
    kind.isBoundOnly = true ↔ kind ∈ [TypeKind.typeVariable, .wildcard] := by
  cases kind <;> decide

/-- The nodes whose values the rule of the operation may look up. -/
def Operation.consulted : Operation → List (Id .node)
  | .assign _ source => [source.node]
  | .equal left right | .notEqual left right => [left.node, right.node]
  | .choose _ whenTrue whenFalse => [whenTrue.node, whenFalse.node]
  | .typeTest operand _ => [operand.node]
  | _ => []

variable {σ γ V : Type}

inductive Request.Alike : Request V → Request V → Prop
  | same (request : Request V) : Alike request request
  | step (node : Node) (incoming : Flow V) {values others : Id .node → Option V} :
    (∀ id ∈ node.operation.consulted, values id = others id) →
    Alike (.step node values incoming) (.step node others incoming)

namespace Analysis
variable (analysis : Analysis σ γ V)

section Bound
variable {target source : Operand} (bound : source.kind.isBoundOnly = true)
  (own : target.kind.isBoundOnly = false)
include bound own

private theorem storedValue_of_bound (value : Option V) :
    analysis.storedValue target source value = valueOf? analysis.boundValue source.tree := by
  unfold storedValue
  rw [bound, own]
  rfl

variable [Domain V]

private theorem assignTo_congr_of_bound (store : Store V) (value other : Option V) :
    analysis.assignTo store target source value = analysis.assignTo store target source other := by
  unfold assignTo
  rw [analysis.storedValue_of_bound bound own, analysis.storedValue_of_bound bound own]

end Bound

variable [Domain V]

section Congr
variable {values others : Id .node → Option V}

private theorem typeTest_congr {operand : Operand}
    (onOperand : values operand.node = others operand.node) (node : Node) (tested : Tree)
    (incoming : Flow V) :
    analysis.typeTest node operand tested values incoming =
      analysis.typeTest node operand tested others incoming := by
  unfold typeTest
  rw [onOperand]

variable [DecidableEq V]

private theorem comparison_congr {left right : Operand}
    (onLeft : values left.node = others left.node)
    (onRight : values right.node = others right.node) (branch : Branch) (node : Node)
    (incoming : Flow V) :
    analysis.comparison branch node left right values incoming =
      analysis.comparison branch node left right others incoming := by
  unfold comparison
  rw [onLeft, onRight]

theorem step_congr (node : Node) (incoming : Flow V)
    (agree : ∀ id ∈ node.operation.consulted, values id = others id) :
    analysis.step node values incoming = analysis.step node others incoming := by
  unfold step
  cases operation : node.operation <;> rw [operation] at agree <;> dsimp only
  case assign target source =>
    have onSource := List.forall_mem_singleton.1 agree
    rw [onSource]
  case equal left right =>
    obtain ⟨onLeft, others⟩ := List.forall_mem_cons.1 agree
    have onRight := List.forall_mem_singleton.1 others
    rw [analysis.comparison_congr onLeft onRight]
  case notEqual left right =>
    obtain ⟨onLeft, others⟩ := List.forall_mem_cons.1 agree
    have onRight := List.forall_mem_singleton.1 others
    rw [analysis.comparison_congr onLeft onRight]
  case choose condition whenTrue whenFalse =>
    obtain ⟨onTrue, others⟩ := List.forall_mem_cons.1 agree
    have onFalse := List.forall_mem_singleton.1 others
    rw [onTrue, onFalse]
  case typeTest operand tested =>
    have onOperand := List.forall_mem_singleton.1 agree
    rw [analysis.typeTest_congr onOperand]

end Congr

variable [DecidableEq V]

theorem answer_congr {request other : Request V} (alike : request.Alike other) :
    analysis.answer request = analysis.answer other := by
  cases alike with
  | same => rfl
  | step node incoming agree =>
    unfold answer
    dsimp only
    rw [analysis.step_congr node incoming agree]

/-- Values that no rule looks up change nothing in a whole session either. -/
theorem session_congr {requests others : List (Request V)}
    (alike : List.Forall₂ Request.Alike requests others) :
    analysis.session requests = analysis.session others := by
  unfold session
  induction alike with
  | nil => rfl
  | cons first _ ih =>
    rw [List.mapM_cons, List.mapM_cons, analysis.answer_congr first, ih]

/-- Two inputs with the same values for the operands that the rule may look up give the same result,
the same talk with the host and the same memory. No value of any node reaches the store when a type
variable or wildcard is assigned to what is neither. -/
theorem step_noninterference (node : Node) (incoming : Flow V) :
    (∀ values others : Id .node → Option V,
      (∀ id ∈ node.operation.consulted, values id = others id) →
      (∀ memory, (analysis.step node values incoming).run.run memory =
        (analysis.step node others incoming).run.run memory) ∧
      ∀ memory, ((analysis.transcribed.step node values incoming).run.run memory).2.host.exchanges =
        ((analysis.transcribed.step node others incoming).run.run memory).2.host.exchanges) ∧
    ∀ target source, node.operation = .assign target source →
      source.kind ∈ [TypeKind.typeVariable, .wildcard] →
      target.kind ∉ [TypeKind.typeVariable, .wildcard] →
      ∀ memory, ∃ flow after, ∀ values : Id .node → Option V,
        (analysis.step node values incoming).run.run memory =
          (.ok ⟨values source.node, flow⟩, after) := by
  refine ⟨fun values others agree => ⟨fun memory => ?_, fun memory => ?_⟩,
    fun target source assigns bound own memory => ?_⟩
  · rw [analysis.step_congr node incoming agree]
  · rw [analysis.transcribed.step_congr node incoming agree]
  · have bound := TypeKind.isBoundOnly_iff.2 bound
    have own := Bool.eq_false_iff.2 (mt TypeKind.isBoundOnly_iff.1 own)
    let visit : Run σ V Unit := Run.note (.visited node.id (Operation.assign target source).name)
    let assigned := (analysis.assignTo incoming.merge target source none).run (visit.run memory).2
    refine ⟨.plain assigned.1, assigned.2, fun values => ?_⟩
    -- the value of the source becomes that of the node, but is not what the store is given
    have same := analysis.assignTo_congr_of_bound bound own incoming.merge (values source.node) none
    unfold step
    rw [assigns]
    dsimp only
    rw [same]
    rfl

def boundedAnalysis : Analysis Unit TableScope (Qualifier .diamond) where
  host := HostTable.host
    { meaning := Hierarchy.diamond.qualifier?
      boundValues := .ofList [(⟨0⟩, Hierarchy.diamond.top)] }
  contracts _ := {}
  assumptions := {}

/-- A type variable assigned to a variable of a declared type. -/
theorem step_noninterference_typeVariable :
    let x : Operand := ⟨⟨0⟩, .var ⟨⟨0⟩, "x"⟩, .declared, none⟩
    let t : Operand := ⟨⟨1⟩, .var ⟨⟨1⟩, "t"⟩, .typeVariable, some ⟨⟨0⟩, ⟨0, 0, 0⟩, true⟩⟩
    let node : Node := ⟨⟨2⟩, none, .assign x t⟩
    let step := fun values => (boundedAnalysis.step node values (.plain (.empty {}))).run.run
      { host := () }
    let onlySource := fun id => if id = t.node then some Qualifier.left else none
    let everywhere := fun _ => some Qualifier.left
    step onlySource = step everywhere ∧ ∃ flow after,
      step everywhere = (.ok ⟨some .left, flow⟩, after) ∧
      step (fun _ => none) = (.ok ⟨none, flow⟩, after) ∧
      (flow.on .whenTrue).get? x.path = some Hierarchy.diamond.top := by
  intro x t node step onlySource everywhere
  obtain ⟨agreeing, bounded⟩ := boundedAnalysis.step_noninterference node (.plain (.empty {}))
  have agree : ∀ id ∈ node.operation.consulted, onlySource id = everywhere id := by decide
  obtain ⟨flow, after, same⟩ := bounded x t rfl (by decide) (by decide) { host := () }
  have bound : ((step everywhere).1.toOption.bind fun outcome =>
      (outcome.flow.on .whenTrue).get? x.path) = some Hierarchy.diamond.top := by
    decide +kernel
  rw [show step everywhere = _ from same everywhere] at bound
  exact ⟨(agreeing onlySource everywhere agree).1 { host := () }, flow, after, same everywhere,
    same fun _ => none, bound⟩

end Analysis
end QualifierFlow
