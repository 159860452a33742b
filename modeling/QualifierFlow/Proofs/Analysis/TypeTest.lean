import QualifierFlow.Proofs.Analysis.Coupling
import QualifierFlow.Proofs.Analysis.Learning
import QualifierFlow.Proofs.Analysis.Oracle
import QualifierFlow.Proofs.Hierarchy.LeastBound

/-! Type tests. On the branch where a test succeeds, its operand takes over the more precise of what
the tested type says and what the operand's node had. What the branch knew is replaced without being
compared, and may be lost; comparisons, in contrast, keep it. -/
namespace QualifierFlow
variable {σ γ V : Type} {H : Hierarchy}

private theorem Qualifier.not_lt_of_sharper {a : Option (Qualifier H)}
    {own known refined : Qualifier H}
    (found : sharper a (some own) = some refined) (below : own ≤ known) : ¬ known < refined := by
  intro lost
  cases a with
  | none =>
    obtain rfl := Option.some.inj found
    exact lost.not_ge below
  | some a =>
    obtain rfl := Option.some.inj found
    by_cases sharp : own ≤ a ∧ ¬ a ≤ own
    · rw [if_pos sharp] at lost
      exact lost.not_ge below
    · rw [if_neg sharp] at lost
      have strict : own < a := lt_of_le_of_lt below lost
      exact sharp ⟨strict.le, strict.not_ge⟩

namespace Store

/-- The path takes over a value, if there is one and facts about the path may be recorded. -/
def reveal (store : Store V) (path : Path) (value : Option V) : Store V :=
  if path.isRecordable then value.elim store (store.record path) else store

@[simp] theorem reveal_none (store : Store V) (path : Path) : store.reveal path none = store := by
  simp [reveal]

@[simp] theorem assumptions_reveal (store : Store V) (path : Path) (value : Option V) :
    (store.reveal path value).assumptions = store.assumptions := by
  unfold reveal
  split
  · cases value with
    | none => rfl
    | some refined => exact assumptions_record store path refined
  · rfl

theorem get?_reveal (store : Store V) (path : Path) (value : Option V) (other : Path) :
    (store.reveal path value).get? other =
      if other = path ∧ path.isRecordable ∧ store.tracks path then value.or (store.get? path)
      else store.get? other := by
  unfold reveal
  by_cases recordable : path.isRecordable = true
  · cases value with
    | none => by_cases same : other = path <;> simp [recordable, same]
    | some refined => simp [recordable, get?_record]
  · simp [recordable]

private theorem get?_reveal_of_ne (store : Store V) {path other : Path} (value : Option V)
    (apart : other ≠ path) : (store.reveal path value).get? other = store.get? other := by
  rw [get?_reveal, if_neg fun same => apart same.1]

private theorem get?_reveal_self (store : Store V) (path : Path) (value : Option V) :
    (store.reveal path value).get? path =
      if path.isRecordable ∧ store.tracks path then value.or (store.get? path)
      else store.get? path := by
  simp only [get?_reveal, true_and]

/-- A known fact is given up only for a value that is recorded. -/
private theorem exists_get?_reveal {store : Store (Qualifier H)} {path : Path} {known : Qualifier H}
    (before : store.get? path = some known) (value : Option (Qualifier H)) :
    ∃ after, (store.reveal path value).get? path = some after ∧
      (known < after ↔ path.isRecordable = true ∧ store.tracks path = true ∧
        ∃ refined, value = some refined ∧ known < refined) := by
  rw [get?_reveal_self, before]
  by_cases recorded : path.isRecordable = true ∧ store.tracks path = true
  · rw [if_pos recorded]
    cases value with
    | none => exact ⟨known, rfl, by simp⟩
    | some refined => exact ⟨refined, rfl, by simp [recorded]⟩
  · rw [if_neg recorded]
    refine ⟨known, rfl, iff_of_false (lt_irrefl known) ?_⟩
    rintro ⟨recordable, tracked, _⟩
    exact recorded ⟨recordable, tracked⟩

end Store

namespace Flow

/-- What flows out of a type test of a path that is found to have a value. -/
def tested (flow : Flow V) (path : Path) (value : Option V) : Flow V :=
  flow.adjust .whenTrue (·.reveal path value)

private theorem tested_eq_diverge {flow : Flow V} {path : Path} {value : Option V}
    (nothing : (flow.on .whenTrue).reveal path value = flow.on .whenTrue) :
    flow.tested path value = flow.diverge :=
  congrArg (split · _) nothing

private theorem tested_of_recordable (flow : Flow V) {path : Path}
    (recordable : path.isRecordable = true) (refined : V) :
    flow.tested path (some refined) = flow.adjust .whenTrue (·.record path refined) :=
  adjust_congr (if_pos recordable)

end Flow

namespace Analysis
open Run
variable (analysis : Analysis σ γ V)

/-- What a type test asks of its host: the value of the node, which plays no part, and that of the
tested type. -/
def testedValue (node : Node) (tested : Tree) : Run σ V (Option V) := do
  let _ ← analysis.nodeValue node
  analysis.typeValue tested

theorem step_typeTest_reveals [Domain V] [DecidableEq V] {node : Node} {operand : Operand}
    {tested : Tree} (tests : node.operation = .typeTest operand tested)
    (values : Id .node → Option V) (incoming : Flow V) :
    Coupled Memory.Alike Memory.Alike
      (fun result declared => result =
        (Domain.finerOf declared (values operand.node) .first).map fun value =>
          ⟨value, incoming.tested operand.path value⟩)
      (analysis.step node values incoming).run (analysis.testedValue node tested) := by
  unfold step
  rw [tests]
  simp only [Attempt.run_lift_bind]
  refine Coupled.idle (note_idle _) fun _ => ?_
  unfold typeTest testedValue
  simp only [Attempt.run_lift_bind, Attempt.run_ofExcept_bind]
  refine Agrees.bind (analysis.nodeValue_related node) fun _ => ?_
  refine Coupled.follow (analysis.attending_related tested analysis.host.typeValue) ?_
  rintro declared _ rfl
  cases taken : Domain.finerOf declared (values operand.node) .first with
  | error violation =>
    refine Coupled.pure ?_
    rw [taken]
    rfl
  | ok value =>
    cases value with
    | none =>
      refine Coupled.pure ?_
      rw [taken, Except.map, Flow.tested_eq_diverge (Store.reveal_none _ _)]
    | some refined =>
      dsimp only
      split
      · next recordable =>
        refine Coupled.idle (note_idle _) fun _ => Coupled.pure ?_
        rw [taken, Except.map, Flow.tested_of_recordable incoming recordable]
      · next silent =>
        refine Coupled.pure ?_
        rw [taken, Except.map, Flow.tested_eq_diverge (if_neg silent)]

theorem testedValue_yields {analysis : Analysis σ γ V} {oracle : Oracle γ V}
    (answers : analysis.host.AnswersBy oracle) (node : Node) (tested : Tree) :
    Yields (fun _ => True) (analysis.testedValue node tested) (oracle.typeValue tested) := by
  have kept : ∀ (m : Memory σ V) (host : σ), True → True := fun _ _ => id
  refine (typeValue_yields answers kept (node.tree.filter (·.typed))).bind ?_
  exact typeValue_yields answers kept (some tested)

/-- What a type test does. It takes the more precise of the tested type's value and the value of the
operand's node, and on the branch where it succeeds it records that of the operand. Nothing else
changes. A fact that the branch had gives way unseen, so that it is lost exactly if what is recorded
is strictly less precise; it is not if the operand's node had a value at least as precise. For a host
that answers by functions, the last part says what the tested type's value is. -/
theorem step_typeTest_loses_iff (analysis : Analysis σ γ (Qualifier H)) {node : Node}
    {operand : Operand} {tested : Tree} (tests : node.operation = .typeTest operand tested)
    (values : Id .node → Option (Qualifier H)) (incoming : Flow (Qualifier H))
    (memory : Memory σ (Qualifier H)) :
    let declared := ((analysis.testedValue node tested).run memory).1
    let before := incoming.on .whenTrue
    ∃ outcome, ((analysis.step node values incoming).run.run memory).1 = .ok outcome ∧
      Domain.finerOf declared (values operand.node) .first = .ok outcome.value ∧
      outcome.flow.isSplit = true ∧
      outcome.flow.on .whenFalse = incoming.on .whenFalse ∧
      (outcome.flow.on .whenTrue).assumptions = before.assumptions ∧
      (∀ path, path ≠ operand.path →
        (outcome.flow.on .whenTrue).get? path = before.get? path) ∧
      (outcome.flow.on .whenTrue).get? operand.path =
        (if operand.path.isRecordable ∧ before.tracks operand.path then
          outcome.value.or (before.get? operand.path)
        else before.get? operand.path) ∧
      (∀ known, before.get? operand.path = some known →
        ∃ after, (outcome.flow.on .whenTrue).get? operand.path = some after ∧
          (known < after ↔
            operand.path.isRecordable = true ∧ before.tracks operand.path = true ∧
              ∃ refined, outcome.value = some refined ∧ known < refined) ∧
          ∀ own, values operand.node = some own → own ≤ known → ¬ known < after) ∧
      ∀ oracle : Oracle γ (Qualifier H), analysis.host.AnswersBy oracle →
        declared = oracle.typeValue tested := by
  intro declared before
  have revealed := (analysis.step_typeTest_reveals tests values incoming memory memory
    (.refl memory)).1
  dsimp only at revealed
  rw [Qualifier.finerOf_eq_sharper] at revealed
  have sharper := Qualifier.finerOf_eq_sharper declared (values operand.node)
  refine ⟨_, revealed, sharper, incoming.isSplit_adjust .whenTrue _, ?_, ?_, ?_, ?_, ?_, ?_⟩
  · exact incoming.on_adjust .whenTrue _ .whenFalse
  · exact before.assumptions_reveal operand.path _
  · intro path apart
    exact before.get?_reveal_of_ne _ apart
  · exact before.get?_reveal_self operand.path _
  · intro known fact
    obtain ⟨after, found, lost⟩ := Store.exists_get?_reveal fact
      (Qualifier.sharper declared (values operand.node))
    refine ⟨after, found, lost, fun own read below given => ?_⟩
    -- what is recorded takes the place of the fact, but it was compared with the operand's own value
    obtain ⟨-, -, refined, taken, strict⟩ := lost.1 given
    rw [read] at taken
    exact Qualifier.not_lt_of_sharper taken below strict
  · intro oracle answers
    exact (testedValue_yields answers node tested memory trivial).1

def declaredTree : Tree := ⟨⟨2⟩, ⟨0, 0, 0⟩, true⟩

/-- Every type is the top, and a call with the given path promises a smaller qualifier of it. -/
def promisingAnalysis (call : Path) : Analysis Unit TableScope (Qualifier .diamond) where
  host := HostTable.host
    { meaning := Hierarchy.diamond.qualifier?
      typeValues := .ofList [(declaredTree.id, Hierarchy.diamond.top)]
      expressions := .ofList [("this.m()", .ok call)] }
  contracts _ := { ensures := .ofList [(⟨"this.m()", "Left"⟩, ())] }
  assumptions := {}

theorem step_typeTest_loses_iff_variable :
    let x : Path := .var ⟨⟨0⟩, "x"⟩
    let y : Path := .var ⟨⟨1⟩, "y"⟩
    let node : Node := ⟨⟨1⟩, none, .typeTest ⟨⟨0⟩, x, .declared, none⟩ declaredTree⟩
    let values (_ : Id .node) : Option (Qualifier .diamond) := some .left
    let store : Store (Qualifier .diamond) := ((Store.empty {}).record x .left).record y .right
    ∃ outcome,
      (((promisingAnalysis x).step node values (.split store (.empty {}))).run.run
        { host := () }).1 = .ok outcome ∧
      outcome.flow.on .whenFalse = .empty {} ∧
      (outcome.flow.on .whenTrue).get? y = some .right ∧
      ∃ after, (outcome.flow.on .whenTrue).get? x = some after ∧ ¬ .left < after := by
  intro x y node values store
  have tests : node.operation = .typeTest ⟨⟨0⟩, x, .declared, none⟩ declaredTree := rfl
  have known : store.get? x = some .left := by decide
  have apart : y ≠ x := by decide
  obtain ⟨outcome, succeeds, -, -, unmoved, -, others, -, facts, -⟩ :=
    (promisingAnalysis x).step_typeTest_loses_iff tests values (.split store (.empty {}))
      { host := () }
  obtain ⟨after, found, -, kept⟩ := facts .left known
  refine ⟨outcome, succeeds, unmoved, ?_, after, found, kept .left rfl (Qualifier.le_refl _)⟩
  exact (others y apart).trans (by decide)

/-- The call leaves its promise known and its node with what its type says. A test of its result
against that very type makes the promise forgotten. -/
theorem promise_lost_in_typeTest :
    let call : Path := .call (.self ⟨0⟩) ⟨0⟩ []
    let analysis := promisingAnalysis call
    let invocation : Node := ⟨⟨0⟩, some declaredTree, .invoke ⟨⟨0⟩, call, []⟩⟩
    let test : Node := ⟨⟨1⟩, none, .typeTest ⟨⟨0⟩, call, .declared, none⟩ declaredTree⟩
    let start : Flow (Qualifier .diamond) := .plain (.empty {})
    let called := (analysis.step invocation (fun _ => none) start).run.run { host := () }
    Hierarchy.diamond.IsAcyclic ∧ ∃ incoming, called.1 = .ok incoming ∧
      ∃ outgoing,
        ((analysis.step test (fun _ => incoming.value) incoming.flow).run.run called.2).1 =
          .ok outgoing ∧
        ¬ ∀ known after, (incoming.flow.on .whenTrue).get? call = some known →
          (outgoing.flow.on .whenTrue).get? call = some after → ¬ known < after := by
  intro call analysis invocation test start called
  have acyclic : Hierarchy.diamond.IsAcyclic := by decide
  let after : Store (Qualifier .diamond) := (Store.empty {}).record call .left
  have promised : called.1 = .ok ⟨some Hierarchy.diamond.top, .split after after⟩ := by
    decide +kernel
  have tested : ((analysis.step test (fun _ => some Hierarchy.diamond.top)
      (.split after after)).run.run called.2).1 =
        .ok ⟨some Hierarchy.diamond.top, .split (after.record call Hierarchy.diamond.top) after⟩ := by
    decide +kernel
  refine ⟨acyclic, _, promised, _, tested, fun keeps => ?_⟩
  have strict : .left < Hierarchy.diamond.top := ⟨by decide, by decide⟩
  exact keeps .left _ (by decide) (by decide) strict

end Analysis
end QualifierFlow
