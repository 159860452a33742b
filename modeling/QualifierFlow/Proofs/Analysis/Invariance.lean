import QualifierFlow.Proofs.Analysis.Simulation

/-! What all stores of an analysis have in common. A property of stores that every operation keeps,
as the rules use it, holds of whatever flows out of a step if it holds of what flows in. From
memories that cannot be told apart by what the rules ask, a step also has the same outcome. Both are
shown at once, rule by rule. -/
namespace QualifierFlow
variable {σ γ V α β : Type} {M N : Memory σ V → Memory σ V → Prop}

/-- Kept by all that an analysis does to its stores: facts are recorded, and targets assigned by
name, only if the path is recordable. -/
structure Store.IsInvariant [Domain V] (P : Store V → Prop) : Prop where
  empty (assumptions : Assumptions) : P (.empty assumptions)
  record {store : Store V} {path : Path} (value : V) :
    P store → path.isRecordable = true → P (store.record path value)
  assign {store : Store V} {target : Path} (value : Option V) :
    P store → target.isRecordable = true → P (store.assign target value)
  assignUnnamed {store : Store V} (target : Path) : P store → P (store.assignUnnamed target)
  afterCall {store : Store V} (call : Call) (calleePure : Bool) (result : Option V) :
    P store → P (store.afterCall call calleePure result)
  bindParameter {store : Store V} (parameter : Variable) (value : Option V) :
    P store → P (store.bindParameter parameter value)
  join {store other : Store V} : P store → P other → P (store.join other)

theorem Store.isInvariant_true [Domain V] : Store.IsInvariant (V := V) fun _ => True :=
  ⟨fun _ => trivial, fun _ _ _ => trivial, fun _ _ _ => trivial, fun _ _ => trivial,
    fun _ _ _ _ => trivial, fun _ _ _ => trivial, fun _ _ => trivial⟩

namespace Flow

def Holds (P : Store V → Prop) (flow : Flow V) : Prop := ∀ branch, P (flow.on branch)

variable {P : Store V → Prop} {flow : Flow V}

theorem holds_plain {store : Store V} (holds : P store) : (Flow.plain store).Holds P := by
  intro branch
  cases branch <;> exact holds

theorem holds_split {whenTrue whenFalse : Store V} (first : P whenTrue) (second : P whenFalse) :
    (Flow.split whenTrue whenFalse).Holds P := by
  intro branch
  cases branch with
  | whenTrue => exact first
  | whenFalse => exact second

theorem Holds.swap (holds : flow.Holds P) : flow.swap.Holds P :=
  holds_split (holds .whenFalse) (holds .whenTrue)

theorem Holds.diverge (holds : flow.Holds P) : flow.diverge.Holds P :=
  holds_split (holds .whenTrue) (holds .whenFalse)

theorem Holds.adjust (holds : flow.Holds P) {branch : Branch} {change : Store V → Store V}
    (changed : P (change (flow.on branch))) : (flow.adjust branch change).Holds P := by
  cases branch with
  | whenTrue => exact holds_split changed (holds .whenFalse)
  | whenFalse => exact holds_split (holds .whenTrue) changed

theorem Holds.merge [Domain V] (invariant : Store.IsInvariant P) (holds : flow.Holds P) :
    P flow.merge := by
  cases flow with
  | plain store => exact holds .whenTrue
  | split whenTrue whenFalse => exact invariant.join (holds .whenTrue) (holds .whenFalse)

end Flow

namespace Run

/-- The same result from related memories, with the property. -/
def Keeps (M N : Memory σ V → Memory σ V → Prop) (P : α → Prop) (run : Run σ V α) : Prop :=
  Coupled M N (fun a b => a = b ∧ P a) run run

theorem Keeps.pure {P : α → Prop} {a : α} (holds : P a) :
    Keeps (σ := σ) (V := V) M M P (pure a) :=
  Coupled.pure ⟨rfl, holds⟩

theorem Keeps.bind {P : α → Prop} {Q : β → Prop} {run : Run σ V α} {next : α → Run σ V β}
    (first : Keeps M M P run) (rest : ∀ a, P a → Keeps M N Q (next a)) :
    Keeps M N Q (run >>= next) := by
  refine Coupled.bind first ?_
  rintro a _ ⟨rfl, holds⟩
  exact rest a holds

theorem Agrees.keeps {run : Run σ V α} (agrees : Agrees M run) :
    Keeps M M (fun _ => True) run := by
  intro m n alike
  obtain ⟨same, after⟩ := agrees m n alike
  exact ⟨⟨same, trivial⟩, after⟩

theorem Keeps.coupled {P : α → Prop} {run : Run σ V α} (keeps : Keeps M N P run) :
    Coupled M N Eq run run := by
  intro m n alike
  obtain ⟨⟨same, _⟩, after⟩ := keeps m n alike
  exact ⟨same, after⟩

end Run

namespace Attempt

theorem run_bind_of_ok {first : Attempt σ V α} {next : α → Attempt σ V β} {m : Memory σ V} {a : α}
    (succeeds : (first.run.run m).1 = .ok a) :
    (first >>= next).run.run m = (next a).run.run (first.run.run m).2 := by
  rw [ExceptT.run_bind, StateT.run_bind]
  dsimp only [Bind.bind, Id]
  rw [succeeds]

theorem run_bind_of_error {first : Attempt σ V α} {next : α → Attempt σ V β} {m : Memory σ V}
    {violation : Violation V} (failed : (first.run.run m).1 = .error violation) :
    (first >>= next).run.run m = (.error violation, (first.run.run m).2) := by
  rw [ExceptT.run_bind, StateT.run_bind]
  dsimp only [Bind.bind, Id]
  rw [failed]
  rfl

end Attempt

def Attempt.Keeps (M : Memory σ V → Memory σ V → Prop) (P : α → Prop) (attempt : Attempt σ V α) :
    Prop :=
  Run.Keeps M M (fun result => ∀ a, result = .ok a → P a) attempt.run

namespace Attempt.Keeps

theorem pure {P : α → Prop} {a : α} (holds : P a) : Keeps (σ := σ) (V := V) M P (pure a) := by
  refine Run.Keeps.pure ?_
  rintro _ ⟨⟩
  exact holds

theorem lift {P : α → Prop} {run : Run σ V α} (keeps : Run.Keeps M M P run) :
    Keeps M P (liftM run : Attempt σ V α) := by
  intro m n alike
  obtain ⟨⟨same, holds⟩, after⟩ := keeps m n alike
  refine ⟨⟨congrArg Except.ok same, ?_⟩, after⟩
  rintro _ ⟨⟩
  exact holds

theorem ofExcept (result : Except (Violation V) α) :
    Keeps (σ := σ) M (fun _ => True) (Attempt.ofExcept result) :=
  Run.Keeps.pure fun _ _ => trivial

theorem bind {P : α → Prop} {Q : β → Prop} {attempt : Attempt σ V α} {next : α → Attempt σ V β}
    (first : Keeps M P attempt) (rest : ∀ a, P a → Keeps M Q (next a)) :
    Keeps M Q (attempt >>= next) := by
  unfold Keeps
  rw [ExceptT.run_bind]
  refine Run.Keeps.bind first fun result holds => ?_
  cases result with
  | ok a => exact rest a (holds a rfl)
  | error violation => exact Run.Keeps.pure fun _ failed => nomatch failed

end Attempt.Keeps

namespace Analysis
open Run
variable {analysis : Analysis σ γ V} (respects : analysis.Respects M)
include respects

private theorem nodeValue_agrees (node : Node) : Agrees M (analysis.nodeValue node) :=
  valueOf?_agrees respects.typeValue _

private theorem storedValue_agrees (target source : Operand) (value : Option V) :
    Agrees M (analysis.storedValue target source value) := by
  unfold storedValue
  split
  · exact valueOf?_agrees respects.boundValue _
  · exact Coupled.pure rfl

omit respects in
private theorem useClauses_keeps {κ S : Type} {P : S → Prop} {use : ClauseUse σ γ V κ S}
    (resolves : analysis.ResolvesAlike M use.site use.build)
    (apply : ∀ item path state, P state → Keeps M M P (use.apply item path state))
    (reject : ∀ item error, Agrees M (use.reject item error)) (items : List κ) {start : S}
    (holds : P start) : Keeps M M P (analysis.useClauses use items start) := by
  refine useClauses_coupled resolves ?_ reject items ⟨rfl, holds⟩
  rintro item path state _ ⟨rfl, holds⟩
  exact apply item path state holds

variable [Domain V] {P : Store V → Prop} (invariant : Store.IsInvariant P)

theorem readValue_keeps (node : Node) (store : Store V) (path : Path) :
    Attempt.Keeps M (fun _ => True) (analysis.readValue node store path) := by
  unfold readValue
  have asked := valueOf?_agrees respects.typeValue node.tree
  exact (Attempt.Keeps.lift asked.keeps).bind fun declared _ => .ofExcept _

include invariant

theorem establish_keeps {store : Store V} (holds : P store) (path : Path) (qualifier : String) :
    Keeps M M P (analysis.establish store path qualifier) := by
  unfold establish
  split
  · next recordable =>
    refine (respects.meaning qualifier).keeps.bind fun meaning _ => ?_
    cases meaning with
    | none => exact .pure holds
    | some value =>
      refine (respects.note _).keeps.bind fun _ _ => .pure ?_
      exact invariant.record value holds recordable
  · exact .pure holds

private theorem assignTo_keeps {store : Store V} (holds : P store) (target source : Operand)
    (value : Option V) : Keeps M M P (analysis.assignTo store target source value) := by
  unfold assignTo
  refine (storedValue_agrees respects target source value).keeps.bind fun value _ => ?_
  split
  · next named =>
    have recordable : target.path.isRecordable = true := (Bool.and_eq_true_iff.1 named).2
    refine (respects.note _).keeps.bind fun _ _ => .pure ?_
    exact invariant.assign value holds recordable
  · exact .pure (invariant.assignUnnamed target.path holds)

section Call
variable {node : Id .node} {call : Call}
  (resolves : analysis.ResolvesAlike M (.call node call.method) (analysis.host.callScope call))
include resolves

private theorem usePromises_keeps {store : Store V} (holds : P store) :
    Keeps M M P (analysis.usePromises node call store) := by
  unfold usePromises
  apply useClauses_keeps
  case resolves => exact resolves
  case apply =>
    exact fun clause path store holds =>
      establish_keeps respects invariant holds path clause.qualifier
  case reject => exact fun _ _ => respects.note _
  case holds => exact holds

private theorem useResultPromises_keeps {store : Store V} (holds : P store) :
    Keeps M M (fun stores => P stores.1 ∧ P stores.2)
      (analysis.useResultPromises node call (store, store)) := by
  unfold useResultPromises
  apply useClauses_keeps
  case resolves => exact resolves
  case apply =>
    rintro clause path ⟨whenTrue, whenFalse⟩ ⟨first, second⟩
    dsimp only
    split
    · refine (establish_keeps respects invariant first path clause.qualifier).bind
        fun _ after => ?_
      exact .pure ⟨after, second⟩
    · refine (establish_keeps respects invariant second path clause.qualifier).bind
        fun _ after => ?_
      exact .pure ⟨first, after⟩
  case reject => exact fun _ _ => respects.note _
  case holds => exact ⟨holds, holds⟩

end Call

private theorem invoke_keeps {node : Node} {call : Call}
    (resolves : analysis.ResolvesAlike M (.call node.id call.method) (analysis.host.callScope call))
    {incoming : Flow V} (holds : incoming.Holds P) :
    Attempt.Keeps M (fun outcome => outcome.flow.Holds P) (analysis.invoke node call incoming) := by
  unfold invoke
  have asks : Agrees M (ask (analysis.calleeIsPure incoming.merge call.method)) := by
    unfold calleeIsPure
    split
    · exact respects.isSideEffectFree call.method
    · exact Coupled.pure rfl
  refine (readValue_keeps respects node _ _).bind fun value _ => ?_
  refine (Attempt.Keeps.lift asks.keeps).bind fun calleePure _ => ?_
  have after := invariant.afterCall call calleePure value (holds.merge invariant)
  refine (Attempt.Keeps.lift (usePromises_keeps respects invariant resolves after)).bind ?_
  intro store promised
  have split := useResultPromises_keeps respects invariant resolves promised
  refine (Attempt.Keeps.lift split).bind ?_
  rintro ⟨whenTrue, whenFalse⟩ ⟨first, second⟩
  exact .pure (Flow.holds_split first second)

section Steps
variable [DecidableEq V]

private theorem equate_keeps {incoming : Flow V} (holds : incoming.Holds P) (branch : Branch)
    (operand : Operand) (value other : Option V) :
    Attempt.Keeps M (fun flow => flow.Holds P)
      (equate (σ := σ) branch operand value other incoming) := by
  unfold equate
  split
  · exact .pure holds
  · next active =>
    have recordable : operand.path.isRecordable = true := by
      simp only [Bool.or_eq_true, Bool.not_eq_true', not_or, Bool.not_eq_false] at active
      exact active.2
    refine (Attempt.Keeps.ofExcept _).bind fun value _ => ?_
    cases value with
    | none => exact .pure holds
    | some refined =>
      refine (Attempt.Keeps.lift (respects.note _).keeps).bind fun _ _ => .pure ?_
      exact holds.adjust (invariant.record refined (holds branch) recordable)

private theorem comparison_keeps {incoming : Flow V} (holds : incoming.Holds P) (branch : Branch)
    (node : Node) (left right : Operand) (values : Id .node → Option V) :
    Attempt.Keeps M (fun outcome => outcome.flow.Holds P)
      (analysis.comparison branch node left right values incoming) := by
  unfold comparison
  refine (Attempt.Keeps.lift (nodeValue_agrees respects node).keeps).bind fun value _ => ?_
  refine (equate_keeps respects invariant holds branch right _ _).bind fun flow between => ?_
  refine (equate_keeps respects invariant between branch left _ _).bind fun flow after => ?_
  exact .pure after

omit [DecidableEq V] in
private theorem typeTest_keeps {incoming : Flow V} (holds : incoming.Holds P) (node : Node)
    (operand : Operand) (tested : Tree) (values : Id .node → Option V) :
    Attempt.Keeps M (fun outcome => outcome.flow.Holds P)
      (analysis.typeTest node operand tested values incoming) := by
  unfold typeTest
  refine (Attempt.Keeps.lift (nodeValue_agrees respects node).keeps).bind fun _ _ => ?_
  refine (Attempt.Keeps.lift (respects.typeValue tested).keeps).bind fun testedValue _ => ?_
  refine (Attempt.Keeps.ofExcept _).bind fun value _ => ?_
  cases value with
  | none => exact .pure holds.diverge
  | some refined =>
    dsimp only
    split
    · next recordable =>
      refine (Attempt.Keeps.lift (respects.note _).keeps).bind fun _ _ => .pure ?_
      exact holds.adjust (invariant.record refined (holds .whenTrue) recordable)
    · exact .pure holds.diverge

/-- What holds of the stores that flow into a node holds of those that flow out, and a step from
related memories comes out the same if a call resolves alike at its node. -/
theorem step_keeps {node : Node}
    (resolves : ∀ call, node.operation = .invoke call →
      analysis.ResolvesAlike M (.call node.id call.method) (analysis.host.callScope call))
    {incoming : Flow V} (holds : incoming.Holds P) (values : Id .node → Option V) :
    Attempt.Keeps M (fun outcome => outcome.flow.Holds P)
      (analysis.step node values incoming) := by
  have merged : P incoming.merge := holds.merge invariant
  have evaluated := Attempt.Keeps.lift (nodeValue_agrees respects node).keeps
  unfold step
  refine (Attempt.Keeps.lift (respects.note _).keeps).bind fun _ _ => ?_
  cases operation : node.operation with
  | assign target source =>
    have assigned := assignTo_keeps respects invariant merged target source (values source.node)
    refine (Attempt.Keeps.lift assigned).bind fun store after => ?_
    exact .pure (Flow.holds_plain after)
  | update target source =>
    refine evaluated.bind fun value _ => ?_
    have assigned := assignTo_keeps respects invariant merged target source value
    refine (Attempt.Keeps.lift assigned).bind fun store after => ?_
    exact .pure (Flow.holds_plain after)
  | readField path | readVariable path =>
    refine (readValue_keeps respects node _ path).bind fun value _ => ?_
    exact .pure (Flow.holds_plain merged)
  | equal left right =>
    exact comparison_keeps respects invariant holds .whenTrue node left right values
  | notEqual left right =>
    exact comparison_keeps respects invariant holds .whenFalse node left right values
  | negate operand => exact evaluated.bind fun value _ => .pure holds.swap
  | choose condition whenTrue whenFalse => exact .pure (Flow.holds_plain merged)
  | typeTest operand tested =>
    exact typeTest_keeps respects invariant holds node operand tested values
  | invoke call => exact invoke_keeps respects invariant (resolves call operation) holds
  | case switched => exact .pure (Flow.holds_plain merged)
  | declare path => exact .pure (Flow.holds_plain merged)
  | other => exact evaluated.bind fun value _ => .pure holds

end Steps

omit respects in
private theorem holds_enterFields {store : Store V} (holds : P store) (method : Method)
    (fields : List (Field × V)) : P (enterFields method fields store) := by
  unfold enterFields
  induction fields generalizing store with
  | nil => exact holds
  | cons entry fields ih =>
    obtain ⟨field, value⟩ := entry
    have recordable : (Path.field (.self method.declaringType) field).isRecordable = true := by
      simp [Path.isRecordable, Path.isElement, Path.hasUnknown, Path.subpaths, Path.isUnknown]
    rw [List.foldl_cons]
    apply ih
    dsimp only
    split
    · exact invariant.record value holds recordable
    · exact holds

theorem enterParameters_keeps {store : Store V} (holds : P store) (parameters : List Parameter) :
    Keeps M M P (analysis.enterParameters parameters store) := by
  unfold enterParameters
  refine Coupled.foldlM ?_ parameters ⟨rfl, holds⟩
  rintro parameter store _ ⟨rfl, holds⟩
  refine (respects.typeValue parameter.tree).keeps.bind fun value _ => ?_
  exact Keeps.pure (invariant.bindParameter parameter.var value holds)

private theorem enterRequirements_keeps (complains : ComplainsAlike M) {method : Method}
    (resolves : analysis.ResolvesAlike M (.declaration method.id)
      (analysis.host.declarationScope method)) {store : Store V} (holds : P store) :
    Keeps M M P (analysis.enterRequirements method store) := by
  unfold enterRequirements
  apply useClauses_keeps
  case resolves => exact resolves
  case apply =>
    exact fun clause path store holds =>
      establish_keeps respects invariant holds path clause.qualifier
  case reject =>
    exact fun clause error => (respects.note _).bind fun _ => complains _ _ _
  case holds => exact holds

/-- What holds of empty stores holds of those at the entry of code units. The relation between the
memories may change there, as what was resolved at calls is forgotten. -/
theorem entryStore_keeps (complains : ComplainsAlike M)
    {before : Memory σ V → Memory σ V → Prop}
    (forgets : Coupled before M Eq (forgetCalls (σ := σ) (V := V)) forgetCalls) {unit : CodeUnit}
    (resolves : ∀ method, unit = .method method →
      analysis.ResolvesAlike M (.declaration method.id) (analysis.host.declarationScope method))
    (parameters : List Parameter) :
    Keeps before M P (analysis.entryStore unit parameters) := by
  unfold entryStore
  refine Coupled.bind forgets fun _ _ _ => ?_
  have nothing := invariant.empty analysis.assumptions
  cases unit with
  | other => exact Keeps.pure nothing
  | method method =>
    refine (respects.note _).keeps.bind fun _ _ => ?_
    refine (enterParameters_keeps respects invariant nothing parameters).bind ?_
    intro store bound
    refine (enterRequirements_keeps respects invariant complains (resolves method rfl) bound).bind ?_
    intro store required
    refine respects.fieldValues.keeps.bind fun fields _ => ?_
    exact .pure (holds_enterFields invariant required method fields)

end Analysis
end QualifierFlow
