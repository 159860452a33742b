import QualifierFlow.Host.Table
import QualifierFlow.Proofs.Analysis.Coupling
import QualifierFlow.Proofs.Store.Precision

/-! Steps are monotone: from a more precise incoming flow a step gives a more precise value and a more
precise outgoing flow, of the same shape. It holds of each rule on its own and needs the joins of
the hierarchy only where stores are merged or aliases weakened. Fixpoint iteration rests on it. -/
namespace QualifierFlow.Analysis
open Run
variable {σ γ : Type} {H : Hierarchy} (analysis : Analysis σ γ (Qualifier H))
variable {fine coarse : Store (Qualifier H)} {incoming incoming' : Flow (Qualifier H)}

private theorem establish_related (order : fine.Refines coarse) (path : Path) (qualifier : String) :
    Run.Related Store.Refines (analysis.establish fine path qualifier)
      (analysis.establish coarse path qualifier) := by
  unfold establish
  split
  · refine (Run.Related.ask _).bind fun meaning _ same => ?_
    subst same
    cases meaning with
    | none => exact .pure order
    | some value =>
      refine (Run.Related.note _ _).bind fun _ _ _ => .pure ?_
      exact order.record path (Qualifier.le_refl value)
  · exact .pure order

private theorem usePromises_related (order : fine.Refines coarse) (node : Id .node) (call : Call) :
    Run.Related Store.Refines (analysis.usePromises node call fine)
      (analysis.usePromises node call coarse) :=
  analysis.useClauses_related _
    (fun clause path _ _ between => analysis.establish_related between path clause.qualifier)
    (fun _ _ => .note _ _) _ order

def RefinesBoth (fine coarse : Store (Qualifier H) × Store (Qualifier H)) : Prop :=
  fine.1.Refines coarse.1 ∧ fine.2.Refines coarse.2

private theorem useResultPromises_related (order : fine.Refines coarse) (node : Id .node)
    (call : Call) :
    Run.Related RefinesBoth (analysis.useResultPromises node call (fine, fine))
      (analysis.useResultPromises node call (coarse, coarse)) := by
  refine analysis.useClauses_related _ ?_ (fun _ _ => .note _ _) _ ⟨order, order⟩
  rintro clause path ⟨whenTrue, whenFalse⟩ ⟨whenTrue', whenFalse'⟩ ⟨first, second⟩
  dsimp only
  split
  · refine (analysis.establish_related first path clause.qualifier).bind fun _ _ after => ?_
    exact .pure ⟨after, second⟩
  · refine (analysis.establish_related second path clause.qualifier).bind fun _ _ after => ?_
    exact .pure ⟨first, after⟩

/-- If nothing comes of a read in the less precise run, its store knows nothing of the path. -/
private theorem readValue_related (order : fine.Refines coarse) (node : Node) (path : Path) :
    Attempt.Related
      (fun value value' => Qualifier.Refines value value' ∧ (value' = none → coarse.get? path = none))
      (analysis.readValue node fine path) (analysis.readValue node coarse path) := by
  unfold readValue
  have asked := analysis.valueOf?_related analysis.host.typeValue node.tree
  refine (Attempt.Related.lift asked).bind fun declared _ same => ?_
  subst same
  rw [Qualifier.finerOf_eq_sharper, Qualifier.finerOf_eq_sharper]
  refine .ofExcept ⟨Qualifier.sharper_mono declared (order.facts path), ?_⟩
  exact Qualifier.eq_none_of_sharper

private theorem invoke_related (merged : incoming.merge.Refines incoming'.merge) (node : Node)
    (call : Call) :
    Attempt.Related Outcome.Refines (analysis.invoke node call incoming)
      (analysis.invoke node call incoming') := by
  unfold invoke
  refine (analysis.readValue_related merged node call.path).bind fun value value' read => ?_
  have asks : analysis.calleeIsPure incoming.merge call.method =
      analysis.calleeIsPure incoming'.merge call.method := by
    unfold calleeIsPure
    rw [merged.asksAboutCallee]
  rw [asks]
  refine (Attempt.Related.lift (.ask _)).bind fun calleePure _ same => ?_
  subst same
  have after := merged.afterCall call calleePure read.1 read.2
  refine (Attempt.Related.lift (analysis.usePromises_related after node.id call)).bind
    fun store store' promised => ?_
  refine (Attempt.Related.lift (analysis.useResultPromises_related promised node.id call)).bind ?_
  rintro ⟨whenTrue, whenFalse⟩ ⟨whenTrue', whenFalse'⟩ ⟨first, second⟩
  exact .pure ⟨read.1, .split first second⟩

private theorem equate_related (order : incoming.Refines incoming') (branch : Branch)
    (operand : Operand) (value other : Option (Qualifier H)) :
    Attempt.Related (σ := σ) Flow.Refines (equate branch operand value other incoming)
      (equate branch operand value other incoming') := by
  unfold equate
  split
  · exact .pure order
  · next active =>
    obtain ⟨taught, rfl⟩ : ∃ taught, value = some taught := by
      cases value with
      | none => simp at active
      | some taught => exact ⟨taught, rfl⟩
    have sharpened := Qualifier.sharper_mono (some taught) ((order.on branch).facts operand.path)
    obtain ⟨rough, learned⟩ := Qualifier.exists_sharper_some taught
      ((incoming'.on branch).get? operand.path)
    obtain ⟨precise, learned', below⟩ := sharpened rough learned
    dsimp only
    rw [Qualifier.finerOf_eq_sharper, Qualifier.finerOf_eq_sharper, learned, learned']
    refine Attempt.Related.bind (R := fun a b => a = some precise ∧ b = some rough)
      (.ofExcept ⟨rfl, rfl⟩) ?_
    rintro _ _ ⟨rfl, rfl⟩
    refine (Attempt.Related.lift (.note _ _)).bind fun _ _ _ => .pure ?_
    exact order.adjust branch ((order.on branch).record operand.path below)

private theorem comparison_related (order : incoming.Refines incoming') (branch : Branch)
    (node : Node) (left right : Operand) (values : Id .node → Option (Qualifier H)) :
    Attempt.Related Outcome.Refines (analysis.comparison branch node left right values incoming)
      (analysis.comparison branch node left right values incoming') := by
  unfold comparison
  refine (Attempt.Related.lift (analysis.nodeValue_related node)).bind fun value _ same => ?_
  subst same
  refine (equate_related order branch right _ _).bind fun flow flow' between => ?_
  refine (equate_related between branch left _ _).bind fun flow flow' after => ?_
  exact .pure ⟨Qualifier.refines_refl value, after⟩

private theorem typeTest_related (order : incoming.Refines incoming') (node : Node)
    (operand : Operand) (tested : Tree) (values : Id .node → Option (Qualifier H)) :
    Attempt.Related Outcome.Refines (analysis.typeTest node operand tested values incoming)
      (analysis.typeTest node operand tested values incoming') := by
  unfold typeTest
  refine (Attempt.Related.lift (analysis.nodeValue_related node)).bind fun _ _ _ => ?_
  have asked := analysis.attending_related tested analysis.host.typeValue
  refine (Attempt.Related.lift asked).bind fun testedValue _ same => ?_
  subst same
  rw [Qualifier.finerOf_eq_sharper]
  refine Attempt.Related.bind (R := Eq) (.ofExcept rfl) fun value _ same => ?_
  subst same
  cases value with
  | none => exact .pure ⟨Qualifier.refines_refl none, order.diverge⟩
  | some refined =>
    dsimp only
    split
    · refine (Attempt.Related.lift (.note _ _)).bind fun _ _ _ => .pure ?_
      have learned := (order.on .whenTrue).record operand.path (Qualifier.le_refl refined)
      exact ⟨Qualifier.refines_refl _, order.adjust .whenTrue learned⟩
    · exact .pure ⟨Qualifier.refines_refl _, order.diverge⟩

section Joins
variable (acyclic : H.IsAcyclic) (joins : H.HasJoins)
include acyclic joins

private theorem assignTo_related (order : fine.Refines coarse) (target source : Operand)
    (value : Option (Qualifier H)) :
    Run.Related Store.Refines (analysis.assignTo fine target source value)
      (analysis.assignTo coarse target source value) := by
  have stored : Run.Related Eq (analysis.storedValue target source value)
      (analysis.storedValue target source value) := by
    unfold storedValue
    split
    · exact analysis.valueOf?_related analysis.host.boundValue source.tree
    · exact .pure rfl
  unfold assignTo
  refine stored.bind fun value _ same => ?_
  subst same
  split
  · refine (Run.Related.note _ _).bind fun _ _ _ => .pure ?_
    exact order.assign acyclic joins target.path (Qualifier.refines_refl value)
  · exact .pure (order.assignUnnamed target.path)

theorem step_related (order : incoming.Refines incoming') (node : Node)
    (values : Id .node → Option (Qualifier H)) :
    Attempt.Related Outcome.Refines (analysis.step node values incoming)
      (analysis.step node values incoming') := by
  have merged := order.merge acyclic joins
  have evaluated := Attempt.Related.lift (analysis.nodeValue_related node)
  unfold step
  refine (Attempt.Related.lift (.note _ _)).bind fun _ _ _ => ?_
  cases node.operation with
  | assign target source =>
    have assigned := analysis.assignTo_related acyclic joins merged target source
      (values source.node)
    refine (Attempt.Related.lift assigned).bind fun store store' after => ?_
    exact .pure ⟨Qualifier.refines_refl _, .plain after⟩
  | update target source =>
    refine evaluated.bind fun value _ same => ?_
    subst same
    have assigned := analysis.assignTo_related acyclic joins merged target source value
    refine (Attempt.Related.lift assigned).bind fun store store' after => ?_
    exact .pure ⟨Qualifier.refines_refl _, .plain after⟩
  | readField path | readVariable path =>
    refine (analysis.readValue_related merged node path).bind fun value value' read => ?_
    exact .pure ⟨read.1, .plain merged⟩
  | equal left right => exact analysis.comparison_related order .whenTrue node left right values
  | notEqual left right =>
    exact analysis.comparison_related order .whenFalse node left right values
  | negate operand =>
    refine evaluated.bind fun value _ same => ?_
    exact .pure ⟨same ▸ Qualifier.refines_refl value, order.swap⟩
  | choose condition whenTrue whenFalse =>
    exact .pure ⟨Qualifier.refines_refl _, .plain merged⟩
  | typeTest operand tested => exact analysis.typeTest_related order node operand tested values
  | invoke call => exact analysis.invoke_related merged node call
  | case switched => exact .pure ⟨Qualifier.refines_refl _, .plain merged⟩
  | declare path => exact .pure ⟨Qualifier.refines_refl _, .plain merged⟩
  | other =>
    refine evaluated.bind fun value _ same => ?_
    exact .pure ⟨same ▸ Qualifier.refines_refl value, order⟩

/-- Steps over a hierarchy that is acyclic and has all joins succeed and are monotone in what flows
in, whatever the host, the contracts and the memory. -/
theorem step_mono (node : Node) (values : Id .node → Option (Qualifier H))
    (order : incoming.Refines incoming') (memory : Memory σ (Qualifier H)) :
    ∃ precise rough, ((analysis.step node values incoming).run.run memory).1 = .ok precise ∧
      ((analysis.step node values incoming').run.run memory).1 = .ok rough ∧
      precise.Refines rough :=
  (analysis.step_related acyclic joins order node values memory memory (.refl memory)).1

end Joins

def pureCall : Call := ⟨⟨0⟩, .call (.self ⟨0⟩) ⟨0⟩ [], []⟩

def tableAnalysis : Analysis Unit TableScope (Qualifier .diamond) where
  host := HostTable.host { meaning := Hierarchy.diamond.qualifier? }
  contracts _ := {}
  assumptions := {}

def knownResult : Store (Qualifier .diamond) := (Store.empty {}).record pureCall.path .left

/-- A pure call of which only the more precise store knows the result. -/
theorem step_mono_pureCall : Hierarchy.diamond.IsAcyclic ∧ Hierarchy.diamond.HasJoins ∧
    (Flow.plain knownResult).Refines (.plain (.empty {})) ∧
    ∃ precise rough,
      ((tableAnalysis.step ⟨⟨0⟩, none, .invoke pureCall⟩ (fun _ => none)
        (.plain knownResult)).run.run { host := () }).1 = .ok precise ∧
      ((tableAnalysis.step ⟨⟨0⟩, none, .invoke pureCall⟩ (fun _ => none)
        (.plain (.empty {}))).run.run { host := () }).1 = .ok rough ∧
      precise.Refines rough := by
  have acyclic : Hierarchy.diamond.IsAcyclic := by decide
  have joins : Hierarchy.diamond.HasJoins := by decide
  have order : (Flow.plain knownResult).Refines (.plain (.empty {})) :=
    .plain ((Store.refines_refl (.empty {})).record_left .left rfl)
  exact ⟨acyclic, joins, order, step_mono tableAnalysis acyclic joins _ _ order _⟩

end QualifierFlow.Analysis
