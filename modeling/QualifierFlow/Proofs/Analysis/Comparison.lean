import QualifierFlow.Proofs.Analysis.Learning
import QualifierFlow.Proofs.Analysis.Monotonicity

/-! Comparisons. What they do to a flow is what its operands learn of each other. They differ in the
branch on which that is, and negations exchange the branches. -/
namespace QualifierFlow
variable {σ γ V : Type} {H : Hierarchy}

/-- The comparison that finds its operands equal on the given branch. -/
def Operation.comparing : Branch → Operand → Operand → Operation
  | .whenTrue => .equal
  | .whenFalse => .notEqual

namespace Analysis
open Run
variable (analysis : Analysis σ γ (Qualifier H))

/-- From every memory the step gives the node the value stated and sends the flow on as stated. -/
def Transforms [Domain V] [DecidableEq V] (analysis : Analysis σ γ V) (node : Node)
    (values : Id .node → Option V) (incoming : Flow V) (value : Memory σ V → Option V)
    (outgoing : Flow V) : Prop :=
  ∀ memory, ((analysis.step node values incoming).run.run memory).1 =
    .ok ⟨value memory, outgoing⟩

def plainValue (analysis : Analysis σ γ V) (node : Node) (memory : Memory σ V) : Option V :=
  ((analysis.nodeValue node).run memory).1

section Rules
variable [Domain V] [DecidableEq V] {analysis : Analysis σ γ V} {node : Node}
variable {values : Id .node → Option V} {incoming outgoing : Flow V}

private theorem transforms_of_coupled {rule : Run σ V (Except (Violation V) (Outcome V))}
    (ruled : (analysis.step node values incoming).run =
      (note (.visited node.id node.operation.name) : Run σ V Unit) >>= fun _ => rule)
    (coupled : Coupled Memory.Alike Memory.Alike
      (fun result value => result = .ok ⟨value, outgoing⟩) rule (analysis.nodeValue node)) :
    analysis.Transforms node values incoming (analysis.plainValue node) outgoing := by
  intro memory
  rw [ruled]
  exact (Coupled.idle (note_idle _) (fun _ => coupled) memory memory (.refl memory)).1

private theorem transforms_of_evaluates
    (ruled : (analysis.step node values incoming).run =
      (note (.visited node.id node.operation.name) : Run σ V Unit) >>= fun _ =>
        analysis.nodeValue node >>= fun value => pure (.ok ⟨value, outgoing⟩)) :
    analysis.Transforms node values incoming (analysis.plainValue node) outgoing := by
  apply transforms_of_coupled ruled
  apply Coupled.follow (analysis.nodeValue_related node)
  rintro value _ rfl
  exact Coupled.pure rfl

private theorem transforms_other (plain : node.operation = .other) :
    analysis.Transforms node values incoming (analysis.plainValue node) incoming := by
  apply transforms_of_evaluates
  unfold step
  rw [plain]
  rfl

private theorem transforms_negate {operand : Operand} (negates : node.operation = .negate operand) :
    analysis.Transforms node values incoming (analysis.plainValue node) incoming.swap := by
  apply transforms_of_evaluates
  unfold step
  rw [negates]
  rfl

end Rules

private theorem equate_teaches (branch : Branch) (values : Id .node → Option (Qualifier H))
    (flow : Flow (Qualifier H)) (first second : Operand) :
    Coupled (σ := σ) Memory.Alike Memory.Alike
      (fun result _ => result = .ok (flow.taught branch values first second))
      (equate branch second (values first.node) (values second.node) flow).run (pure ()) := by
  unfold equate Flow.taught
  by_cases teaches : first.Teaches values second
  · obtain ⟨value, known⟩ := Option.isSome_iff_exists.1 teaches.1
    obtain ⟨refined, learned⟩ :=
      Qualifier.exists_sharper_some value ((flow.on branch).get? second.path)
    rw [if_neg (Operand.teaches_iff.1 teaches), if_pos teaches, Attempt.run_ofExcept_bind, known,
      Qualifier.finerOf_eq_sharper, learned]
    refine Coupled.idle (note_idle _) fun _ => Coupled.pure ?_
    congr 1
    apply Flow.adjust_congr
    rw [Store.learn, learned]
    rfl
  · rw [if_pos (Decidable.not_not.1 (mt Operand.teaches_iff.2 teaches)), if_neg teaches]
    exact Coupled.pure rfl

private theorem comparison_teaches (branch : Branch) (node : Node) (left right : Operand)
    (values : Id .node → Option (Qualifier H)) (incoming : Flow (Qualifier H)) :
    Coupled Memory.Alike Memory.Alike
      (fun result value => result = .ok ⟨value, incoming.compared branch values left right⟩)
      (analysis.comparison branch node left right values incoming).run
      (analysis.nodeValue node) := by
  unfold comparison
  rw [Attempt.run_lift_bind]
  apply Coupled.follow (analysis.nodeValue_related node)
  rintro value _ rfl
  rw [ExceptT.run_bind]
  refine Coupled.settle (equate_teaches branch values incoming left right) ?_
  dsimp only
  rw [ExceptT.run_bind]
  refine Coupled.settle (equate_teaches branch values _ right left) ?_
  exact Coupled.pure rfl

theorem transforms_comparing {branch : Branch} {node : Node} {left right : Operand}
    (compares : node.operation = .comparing branch left right)
    (values : Id .node → Option (Qualifier H)) (incoming : Flow (Qualifier H)) :
    analysis.Transforms node values incoming (analysis.plainValue node)
      (incoming.compared branch values left right) := by
  have ruled : (analysis.step node values incoming).run =
      (note (.visited node.id node.operation.name) : Run σ (Qualifier H) Unit) >>= fun _ =>
        (analysis.comparison branch node left right values incoming).run := by
    unfold step
    rw [compares]
    cases branch <;> rfl
  exact transforms_of_coupled ruled
    (analysis.comparison_teaches branch node left right values incoming)

/-- A comparison teaches on the branch alone that finds its operands equal, and only what it says
there of the operands that have something to learn. Where these are two paths, each that the store
tracks takes over the more precise of the other's value and what the branch knew of it. If there is
nothing to learn, the comparison is a node like any other. -/
theorem comparison_teaches_one_branch (acyclic : H.IsAcyclic) {branch : Branch} {node : Node}
    {left right : Operand} (compares : node.operation = .comparing branch left right)
    (values : Id .node → Option (Qualifier H)) (incoming : Flow (Qualifier H)) :
    ∃ value outgoing,
      analysis.Transforms { node with operation := .other } values incoming value incoming ∧
      analysis.Transforms node values incoming value outgoing ∧
      (Operand.lessons values left right = [] → outgoing = incoming) ∧
      (Operand.lessons values left right ≠ [] →
        outgoing.isSplit = true ∧
        outgoing.on branch.opposite = incoming.on branch.opposite ∧
        (outgoing.on branch).assumptions = (incoming.on branch).assumptions ∧
        (∀ path, (∀ pair ∈ Operand.lessons values left right, path ≠ pair.2.path) →
          (outgoing.on branch).get? path = (incoming.on branch).get? path) ∧
        (left.path ≠ right.path → ∀ pair ∈ Operand.lessons values left right,
          (incoming.on branch).tracks pair.2.path = true →
          let known := (incoming.on branch).get? pair.2.path
          ∃ learned, Domain.finerOf (values pair.1.node) known .first = .ok (some learned) ∧
            (outgoing.on branch).get? pair.2.path = some learned ∧
            ∀ before, known = some before → before ≤ learned → learned = before)) := by
  refine ⟨_, incoming.compared branch values left right, transforms_other rfl,
    analysis.transforms_comparing compares values incoming, fun nothing => ?_, fun some => ?_⟩
  · exact incoming.compared_eq_self branch values nothing
  · refine ⟨(incoming.isSplit_compared branch values left right).2 (.inr some),
      incoming.on_opposite_compared branch values left right,
      incoming.assumptions_compared branch values left right,
      fun path => incoming.get?_compared_of_ne branch values left right, ?_⟩
    intro apart pair member tracked known
    have taught : _ = Qualifier.sharper (values pair.1.node) known :=
      incoming.get?_compared_of_mem branch values apart member tracked
    obtain ⟨value, own⟩ := Option.isSome_iff_exists.1 (Operand.mem_lessons.1 member).2.1
    obtain ⟨learned, found⟩ := Qualifier.exists_sharper_some value known
    rw [own] at taught ⊢
    refine ⟨learned, ?_, taught.trans found, ?_⟩
    · rw [Qualifier.finerOf_eq_sharper, found]
    · intro before same up
      rw [same] at found
      exact Qualifier.eq_of_le_sharper acyclic found up

def knownOperand : Operand := ⟨⟨1⟩, .var ⟨⟨0⟩, "x"⟩, .declared, none⟩

def rawOperand : Operand := ⟨⟨2⟩, .var ⟨⟨1⟩, "y"⟩, .declared, none⟩

def operandValues (id : Id .node) : Option (Qualifier .diamond) :=
  if id = knownOperand.node then some .left else none

def roughlyKnown : Store (Qualifier .diamond) :=
  (Store.empty {}).record rawOperand.path Hierarchy.diamond.top

theorem comparison_teaches_one_branch_variable :
    let node : Node := ⟨⟨0⟩, none, .equal knownOperand rawOperand⟩
    Hierarchy.diamond.IsAcyclic ∧
    node.operation = .comparing .whenTrue knownOperand rawOperand ∧
    (knownOperand, rawOperand) ∈ Operand.lessons operandValues knownOperand rawOperand ∧
    knownOperand.path ≠ rawOperand.path ∧ roughlyKnown.tracks rawOperand.path = true ∧
    ∃ value outgoing,
      tableAnalysis.Transforms node operandValues (.plain roughlyKnown) value outgoing ∧
      outgoing.isSplit = true ∧ outgoing.on .whenFalse = roughlyKnown ∧
      (outgoing.on .whenTrue).get? rawOperand.path = some .left := by
  intro node
  have acyclic : Hierarchy.diamond.IsAcyclic := by decide
  have compares : node.operation = .comparing .whenTrue knownOperand rawOperand := rfl
  have lesson : (knownOperand, rawOperand) ∈
      Operand.lessons operandValues knownOperand rawOperand :=
    Operand.mem_lessons.2 ⟨.inl rfl, by decide⟩
  have apart : knownOperand.path ≠ rawOperand.path := by decide
  have tracked : roughlyKnown.tracks rawOperand.path = true := by decide
  obtain ⟨value, outgoing, _, sent, _, taught⟩ :=
    tableAnalysis.comparison_teaches_one_branch acyclic compares operandValues
      (.plain roughlyKnown)
  obtain ⟨divided, untouched, _, _, learns⟩ := taught (List.ne_nil_of_mem lesson)
  obtain ⟨learned, sharper, found, _⟩ := learns apart _ lesson tracked
  obtain rfl : .left = learned := Option.some.inj (Except.ok.inj sharper)
  exact ⟨acyclic, compares, lesson, apart, tracked, value, outgoing, sent, divided, untouched,
    found⟩

/-- Whatever their operands are, negations send on the one flow as the other. -/
def Negates (incoming outgoing : Flow (Qualifier H)) : Prop :=
  ∀ id tree operand values, ∃ value,
    analysis.Transforms ⟨id, tree, .negate operand⟩ values incoming value outgoing

private theorem negates_swap (incoming : Flow (Qualifier H)) :
    analysis.Negates incoming incoming.swap :=
  fun _ _ _ _ => ⟨_, transforms_negate rfl⟩

/-- The laws of logic hold of comparisons. A node that finds its operands different does to the
branches what the node that finds them equal does to the exchanged ones. A negation turns the one
into the other, and cancels a negation. Operands with two paths can be exchanged. -/
theorem comparison_laws (id : Id .node) (tree : Option Tree) (left right : Operand)
    (values : Id .node → Option (Qualifier H)) :
    let equal (left right : Operand) : Node := ⟨id, tree, .equal left right⟩
    let unequal (left right : Operand) : Node := ⟨id, tree, .notEqual left right⟩
    ∃ value,
    (∀ whenTrue whenFalse, ∃ whenTrue' whenFalse',
      analysis.Transforms (equal left right) values (.split whenFalse whenTrue) value
        (.split whenFalse' whenTrue') ∧
      analysis.Transforms (unequal left right) values (.split whenTrue whenFalse) value
        (.split whenTrue' whenFalse')) ∧
    (∀ store,
      analysis.Transforms (equal left right) values (.plain store) value (.plain store) ∧
        analysis.Transforms (unequal left right) values (.plain store) value (.plain store) ∨
      ∃ whenTrue whenFalse,
        analysis.Transforms (equal left right) values (.plain store) value
          (.split whenTrue whenFalse) ∧
        analysis.Transforms (unequal left right) values (.plain store) value
          (.split whenFalse whenTrue)) ∧
    (∀ store, ∃ same other,
      analysis.Transforms (equal left right) values (.plain store) value same ∧
      analysis.Transforms (unequal left right) values (.plain store) value other ∧
      analysis.Negates same.diverge other.diverge) ∧
    (∀ whenTrue whenFalse, ∃ negated,
      analysis.Negates (.split whenTrue whenFalse) negated ∧
      analysis.Negates negated (.split whenTrue whenFalse)) ∧
    (left.path ≠ right.path → ∀ incoming, ∃ same other,
      analysis.Transforms (equal left right) values incoming value same ∧
      analysis.Transforms (equal right left) values incoming value same ∧
      analysis.Transforms (unequal left right) values incoming value other ∧
      analysis.Transforms (unequal right left) values incoming value other) := by
  intro equal unequal
  have equals (left right : Operand) (incoming : Flow (Qualifier H)) :
      analysis.Transforms (equal left right) values incoming
        (analysis.plainValue (equal left right))
        (incoming.compared .whenTrue values left right) :=
    analysis.transforms_comparing (show _ = Operation.comparing .whenTrue left right from rfl)
      values incoming
  -- The value of a node does not depend on its operation, so that all of them have this one.
  have differs (left right : Operand) (incoming : Flow (Qualifier H)) :
      analysis.Transforms (unequal left right) values incoming
        (analysis.plainValue (equal left right))
        (incoming.compared .whenFalse values left right) :=
    analysis.transforms_comparing (show _ = Operation.comparing .whenFalse left right from rfl)
      values incoming
  refine ⟨analysis.plainValue (equal left right), ?_, ?_, ?_, ?_, ?_⟩
  · intro whenTrue whenFalse
    obtain ⟨_, _, same, other⟩ :=
      Flow.exists_compared_split values left right whenTrue whenFalse
    exact ⟨_, _, same ▸ equals left right _, other ▸ differs left right _⟩
  · intro store
    rcases Flow.compared_plain values left right store with unmoved | ⟨_, _, same, other⟩
    · have same := equals left right (.plain store)
      have other := differs left right (.plain store)
      rw [unmoved] at same other
      exact .inl ⟨same, other⟩
    · exact .inr ⟨_, _, same ▸ equals left right _, other ▸ differs left right _⟩
  · intro store
    refine ⟨_, _, equals left right _, differs left right _, ?_⟩
    have exchanged := Flow.compared_opposite_plain .whenTrue values left right store
    rw [Branch.opposite] at exchanged
    rw [exchanged]
    exact analysis.negates_swap (Flow.diverge _)
  · intro whenTrue whenFalse
    exact ⟨_, analysis.negates_swap _, analysis.negates_swap _⟩
  · intro apart incoming
    refine ⟨_, _, equals left right incoming, ?_, differs left right incoming, ?_⟩
    · rw [incoming.compared_comm .whenTrue values apart]
      exact equals right left incoming
    · rw [incoming.compared_comm .whenFalse values apart]
      exact differs right left incoming

theorem comparison_laws_variables :
    let equal (left right : Operand) : Node := ⟨⟨0⟩, none, .equal left right⟩
    knownOperand.path ≠ rawOperand.path ∧ ∃ value outgoing,
      tableAnalysis.Transforms (equal knownOperand rawOperand) operandValues (.plain roughlyKnown)
        value outgoing ∧
      tableAnalysis.Transforms (equal rawOperand knownOperand) operandValues (.plain roughlyKnown)
        value outgoing := by
  intro equal
  have apart : knownOperand.path ≠ rawOperand.path := by decide
  obtain ⟨value, _, _, _, _, exchange⟩ :=
    tableAnalysis.comparison_laws ⟨0⟩ none knownOperand rawOperand operandValues
  obtain ⟨outgoing, _, same, same', _⟩ := exchange apart (.plain roughlyKnown)
  exact ⟨apart, value, outgoing, same, same'⟩

end Analysis
end QualifierFlow
