import QualifierFlow.Proofs.Analysis.Invocation
import QualifierFlow.Proofs.Analysis.TypeTest

/-! Choosing the more precise of two values. Whatever the choice, it never gives up the preferred
value for one that is not below it. So the value that reads, calls and type tests give to a node is
never less precise than what the host says of it. -/
namespace QualifierFlow
variable {σ γ V : Type} {H : Hierarchy}

namespace Qualifier

/-- What is chosen between a preferred qualifier and another one. -/
structure IsChoice (preferred other chosen : Qualifier H) : Prop where
  among : chosen = preferred ∨ chosen = other
  below : chosen ≤ preferred
  of_comparable : preferred ≤ other ∨ other ≤ preferred → chosen ≤ other

namespace IsChoice
variable {preferred other other' chosen chosen' : Qualifier H}

theorem mono (fine : IsChoice preferred other chosen) (rough : IsChoice preferred other' chosen')
    (order : other ≤ other') : chosen ≤ chosen' := by
  rcases rough.among with rfl | rfl
  · exact fine.below
  -- the rougher choice is on the other side, hence below the preferred one, and so is the finer side
  · have down : other ≤ preferred := le_trans order rough.below
    exact le_trans (fine.of_comparable (.inr down)) order

theorem unique (acyclic : H.IsAcyclic) (left : IsChoice preferred other chosen)
    (right : IsChoice preferred other chosen') : chosen = chosen' :=
  acyclic chosen chosen' (left.mono right (le_refl other)) (right.mono left (le_refl other))

end IsChoice

theorem finerOf_isChoice (side : Side) (a b : Qualifier H) :
    ∃ chosen, Domain.finerOf (some a) (some b) side = .ok (some chosen) ∧
      IsChoice (side.pick a b) (side.pick b a) chosen := by
  by_cases up : a ≤ b
  · have found : Domain.finerOf (some a) (some b) side = .ok (some a) := by
      simp [Domain.finerOf, Domain.finer, finer, up]
    cases side with
    | first => exact ⟨a, found, .inl rfl, le_refl a, fun _ => up⟩
    | second => exact ⟨a, found, .inr rfl, up, fun _ => le_refl a⟩
  by_cases down : b ≤ a
  · have found : Domain.finerOf (some a) (some b) side = .ok (some b) := by
      simp [Domain.finerOf, Domain.finer, finer, up, down]
    cases side with
    | first => exact ⟨b, found, .inr rfl, down, fun _ => le_refl b⟩
    | second => exact ⟨b, found, .inl rfl, le_refl b, fun _ => down⟩
  · have found : Domain.finerOf (some a) (some b) side = .ok (some (side.pick a b)) := by
      simp [Domain.finerOf, Domain.finer, finer, up, down]
    cases side with
    | first => exact ⟨a, found, .inl rfl, le_refl a, fun near => (near.elim up down).elim⟩
    | second => exact ⟨b, found, .inl rfl, le_refl b, fun near => (near.elim down up).elim⟩

private theorem finerOf_pick (side : Side) (preferred other : Qualifier H) :
    ∃ chosen, Domain.finerOf (side.pick (some preferred) (some other))
        (side.pick (some other) (some preferred)) side = .ok (some chosen) ∧
      IsChoice preferred other chosen := by
  cases side with
  | first => exact finerOf_isChoice .first preferred other
  | second => exact finerOf_isChoice .second other preferred

private theorem finerOf_none_left (side : Side) (a : Option (Qualifier H)) :
    Domain.finerOf none a side = .ok a := by
  cases a <;> rfl

private theorem finerOf_none_right (side : Side) (a : Option (Qualifier H)) :
    Domain.finerOf a none side = .ok a := by
  cases a <;> rfl

theorem finerOf_refines (side : Side) (preferred other : Option (Qualifier H)) :
    ∃ chosen, Domain.finerOf (side.pick preferred other) (side.pick other preferred) side =
      .ok chosen ∧ Refines chosen preferred := by
  cases preferred with
  | none =>
    cases side with
    | first => exact ⟨other, finerOf_none_left .first other, refines_none other⟩
    | second => exact ⟨other, finerOf_none_right .second other, refines_none other⟩
  | some a =>
    cases other with
    | none => cases side <;> exact ⟨some a, rfl, refines_refl (some a)⟩
    | some b =>
      obtain ⟨chosen, found, choice⟩ := finerOf_pick side a b
      exact ⟨some chosen, found, refines_some_iff.2 choice.below⟩

theorem finerOf_mono (side : Side) (preferred : Option (Qualifier H))
    {other other' : Option (Qualifier H)} (order : Refines other other') :
    ∃ fine rough,
      Domain.finerOf (side.pick preferred other) (side.pick other preferred) side = .ok fine ∧
      Domain.finerOf (side.pick preferred other') (side.pick other' preferred) side = .ok rough ∧
      Refines fine rough := by
  cases preferred with
  | none =>
    cases side with
    | first => exact ⟨_, _, finerOf_none_left .first _, finerOf_none_left .first _, order⟩
    | second => exact ⟨_, _, finerOf_none_right .second _, finerOf_none_right .second _, order⟩
  | some a =>
    cases other' with
    | none =>
      obtain ⟨fine, found, below⟩ := finerOf_refines side (some a) other
      exact ⟨fine, some a, found, by cases side <;> rfl, below⟩
    | some upper =>
      obtain ⟨lower, rfl, below⟩ := order upper rfl
      obtain ⟨fine, found, choice⟩ := finerOf_pick side a lower
      obtain ⟨rough, found', choice'⟩ := finerOf_pick side a upper
      exact ⟨some fine, some rough, found, found', refines_some_iff.2 (choice.mono choice' below)⟩

theorem finerOf_swap (acyclic : H.IsAcyclic) (a b : Option (Qualifier H)) :
    Domain.finerOf a b .first = Domain.finerOf b a .second := by
  cases a with
  | none => cases b <;> rfl
  | some a =>
    cases b with
    | none => rfl
    | some b =>
      obtain ⟨left, found, choice⟩ := finerOf_pick .first a b
      obtain ⟨right, found', choice'⟩ := finerOf_pick .second a b
      obtain rfl := choice.unique acyclic choice'
      exact found.trans found'.symm

end Qualifier

namespace Analysis
open Run
open Qualifier (Refines)

section Read
variable [Domain V] [DecidableEq V] (analysis : Analysis σ γ V)

theorem step_read_gathers {node : Node} {path : Path}
    (reads : node.operation = .readField path ∨ node.operation = .readVariable path)
    (values : Id .node → Option V) (incoming : Flow V) :
    Coupled Memory.Alike Memory.Alike
      (fun result declared => result =
        (Domain.finerOf declared (incoming.merge.get? path) .first).map fun value =>
          ⟨value, .plain incoming.merge⟩)
      (analysis.step node values incoming).run (valueOf? analysis.typeValue node.tree) := by
  have ruled : (analysis.step node values incoming).run =
      (note (.visited node.id node.operation.name) : Run σ V Unit) >>= fun _ =>
        (analysis.readValue node incoming.merge path >>= fun value =>
          (pure ⟨value, .plain incoming.merge⟩ : Attempt σ V (Outcome V))).run := by
    unfold step
    rcases reads with reads | reads <;> rw [reads] <;> rfl
  rw [ruled]
  refine Coupled.idle (note_idle _) fun _ => ?_
  unfold readValue
  simp only [Attempt.run_lift_bind, bind_assoc, Attempt.run_ofExcept_bind]
  apply Coupled.follow (analysis.valueOf?_related analysis.host.typeValue node.tree)
  rintro declared _ rfl
  cases chosen : Domain.finerOf declared (incoming.merge.get? path) .first with
  | error violation =>
    refine Coupled.pure ?_
    rw [chosen]
    rfl
  | ok value =>
    refine Coupled.pure ?_
    rw [chosen]
    rfl

end Read

private theorem exists_value_refines
    {result : Except (Violation (Qualifier H)) (Outcome (Qualifier H))}
    {declared known : Option (Qualifier H)} {give : Option (Qualifier H) → Outcome (Qualifier H)}
    (chosen : result = (Domain.finerOf declared known .first).map give)
    (given : ∀ value, (give value).value = value) :
    ∃ outcome, result = .ok outcome ∧ Refines outcome.value declared := by
  obtain ⟨value, found, below⟩ := Qualifier.finerOf_refines .first declared known
  change Domain.finerOf declared known .first = .ok value at found
  rw [found] at chosen
  refine ⟨give value, chosen, ?_⟩
  rw [given value]
  exact below

/-- Whatever the hierarchy, two qualifiers have a more precise one: one of them, never above the
preferred one, and below both if they are comparable. It is monotone in the other one, whose absence
counts as knowing nothing, and without cycles it does not matter which of them comes first. Hence
the value of a read, a call or a type test refines what the host says of the node, or of the tested
type. For a host that answers by functions, the last part says what that is. -/
theorem finerOf_tightens (H : Hierarchy) :
    (∀ (a b : Qualifier H) (side : Side), ∃ chosen,
      Domain.finerOf (some a) (some b) side = .ok (some chosen) ∧ (chosen = a ∨ chosen = b) ∧
      chosen ≤ side.pick a b ∧ (a ≤ b ∨ b ≤ a → chosen ≤ a ∧ chosen ≤ b)) ∧
    (∀ (side : Side) (preferred other other' : Option (Qualifier H)), Refines other other' →
      ∃ fine rough,
        Domain.finerOf (side.pick preferred other) (side.pick other preferred) side = .ok fine ∧
        Domain.finerOf (side.pick preferred other') (side.pick other' preferred) side =
          .ok rough ∧
        Refines fine rough) ∧
    (H.IsAcyclic → ∀ a b : Option (Qualifier H),
      Domain.finerOf a b .first = Domain.finerOf b a .second) ∧
    ∀ {σ γ : Type} (analysis : Analysis σ γ (Qualifier H)) (node : Node)
      (values : Id .node → Option (Qualifier H)) (incoming : Flow (Qualifier H))
      (memory : Memory σ (Qualifier H)),
      let result := ((analysis.step node values incoming).run.run memory).1
      (∀ path, node.operation = .readField path ∨ node.operation = .readVariable path →
        ∃ outcome, result = .ok outcome ∧
          Refines outcome.value ((valueOf? analysis.typeValue node.tree).run memory).1) ∧
      (∀ call, node.operation = .invoke call →
        ∃ outcome, result = .ok outcome ∧
          Refines outcome.value ((valueOf? analysis.typeValue node.tree).run memory).1) ∧
      (∀ operand tested, node.operation = .typeTest operand tested →
        ∃ outcome, result = .ok outcome ∧
          Refines outcome.value ((analysis.testedValue node tested).run memory).1) ∧
      ∀ oracle : Oracle γ (Qualifier H), analysis.host.AnswersBy oracle →
        ((valueOf? analysis.typeValue node.tree).run memory).1 =
          node.tree.bind oracle.typeValue ∧
        ∀ tested,
          ((analysis.testedValue node tested).run memory).1 = oracle.typeValue tested := by
  refine ⟨fun a b side => ?_, fun side preferred _ _ => Qualifier.finerOf_mono side preferred,
    Qualifier.finerOf_swap,
    fun analysis node values incoming memory => ⟨?_, ?_, ?_, fun oracle answers => ?_⟩⟩
  · obtain ⟨chosen, found, choice⟩ := Qualifier.finerOf_isChoice side a b
    cases side with
    | first =>
      exact ⟨chosen, found, choice.among, choice.below,
        fun near => ⟨choice.below, choice.of_comparable near⟩⟩
    | second =>
      exact ⟨chosen, found, choice.among.symm, choice.below,
        fun near => ⟨choice.of_comparable near.symm, choice.below⟩⟩
  · intro path reads
    have read := analysis.step_read_gathers reads values incoming memory memory (.refl memory)
    exact exists_value_refines read.1 fun _ => rfl
  · intro call invokes
    have called := analysis.step_invoke_gathers invokes values incoming memory memory
      (.refl memory)
    exact exists_value_refines called.1 fun _ => rfl
  · intro operand tested tests
    have revealed := analysis.step_typeTest_reveals tests values incoming memory memory
      (.refl memory)
    exact exists_value_refines revealed.1 fun _ => rfl
  · have declared : Yields (fun _ => True) (valueOf? analysis.typeValue node.tree)
        (node.tree.bind oracle.typeValue) := typeValue_yields answers (fun _ _ => id) node.tree
    exact ⟨(declared memory trivial).1,
      fun tested => (testedValue_yields answers node tested memory trivial).1⟩

/-- A read of a variable of which the store knows something else than its type says. -/
theorem finerOf_tightens_diamond :
    let top := Hierarchy.diamond.top
    let left : Qualifier .diamond := .left
    let right : Qualifier .diamond := .right
    let x : Path := .var ⟨⟨0⟩, "x"⟩
    let node : Node := ⟨⟨1⟩, some declaredTree, .readVariable x⟩
    let store : Store (Qualifier .diamond) := (Store.empty {}).record x left
    let analysis := promisingAnalysis x
    Hierarchy.diamond.IsAcyclic ∧ Refines (some right) (some top) ∧
      (∃ fine rough,
        Domain.finerOf (some right) (some left) .second = .ok fine ∧
        Domain.finerOf (some top) (some left) .second = .ok rough ∧ Refines fine rough) ∧
      Domain.finerOf (some left) (some right) .first =
        Domain.finerOf (some right) (some left) .second ∧
      node.operation = .readVariable x ∧ ∃ outcome,
        ((analysis.step node (fun _ => none) (.plain store)).run.run { host := () }).1 =
          .ok outcome ∧
        Refines outcome.value ((valueOf? analysis.typeValue node.tree).run { host := () }).1 ∧
        ((valueOf? analysis.typeValue node.tree).run { host := () }).1 = some top := by
  intro top left right x node store analysis
  have acyclic : Hierarchy.diamond.IsAcyclic := by decide
  have order : Refines (some right) (some top) := Qualifier.refines_some_iff.2 (by decide)
  have reads : node.operation = .readVariable x := rfl
  obtain ⟨-, mono, swap, steps⟩ := finerOf_tightens .diamond
  obtain ⟨read, -, -, answered⟩ := steps analysis node (fun _ => none) (.plain store) { host := () }
  obtain ⟨outcome, succeeds, below⟩ := read x (.inr reads)
  have declared := (answered _ (HostTable.answersBy_oracle _)).1
  exact ⟨acyclic, order, mono .second (some left) _ _ order, swap acyclic _ _, reads, outcome,
    succeeds, below, declared⟩

end Analysis
end QualifierFlow
