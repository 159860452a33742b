import QualifierFlow.Proofs.Analysis.ClauseFacts
import QualifierFlow.Proofs.Analysis.Coupling
import QualifierFlow.Proofs.Store.Recording

/-! What a method invocation establishes. After a call, a store knows of each path what the last
promise about it says, a promise for one result only on the branch with that result and then before
all others; without a promise it knows what the call leaves of the facts before. -/
namespace QualifierFlow
variable {σ γ V : Type}

def ResultClause.branch (clause : ResultClause) : Branch :=
  if clause.result then .whenTrue else .whenFalse

/-- What the host and the contract of the callee say about a call. -/
structure CallAnswers (V : Type) where
  declared : Option V
  calleePure : Bool
  promised : List (Clause × Path × V)
  promisedIf : List (ResultClause × Path × V)

namespace CallAnswers

def always (answers : CallAnswers V) : List (Path × V) := answers.promised.map (·.2)

def on (answers : CallAnswers V) (branch : Branch) : List (Path × V) :=
  (answers.promisedIf.filter (·.1.branch = branch)).map (·.2)

/-- The outcome of a call with a value, by what is said about the call. -/
def outcome (answers : CallAnswers V) (store : Store V) (call : Call) (value : Option V) :
    Outcome V :=
  let after := (store.afterCall call answers.calleePure value).recordAll answers.always
  ⟨value, .split (after.recordAll (answers.on .whenTrue)) (after.recordAll (answers.on .whenFalse))⟩

end CallAnswers

namespace Analysis
open Run
variable (analysis : Analysis σ γ V)

/-- What the host and the contracts say about a call, asked in the order of a step. -/
def answersAbout (node : Node) (call : Call) (store : Store V) : Run σ V (CallAnswers V) := do
  let site := Site.call node.id call.method
  let scope := analysis.host.callScope call
  let contract := analysis.contracts call.method
  let declared ← valueOf? analysis.typeValue node.tree
  let calleePure ← ask (analysis.calleeIsPure store call.method)
  let promised ← analysis.factsOf site scope (fun clause => clause) contract.ensures.keys
  let promisedIf ← analysis.factsOf site scope ResultClause.toClause contract.ensuresIf.keys
  return ⟨declared, calleePure, promised, promisedIf⟩

private theorem usePromises_gathers (node : Id .node) (call : Call) (start : Store V) :
    Coupled Memory.Alike Memory.Alike (fun store facts => store = start.recordAll (facts.map (·.2)))
      (analysis.usePromises node call start)
      (analysis.factsOf (.call node call.method) (analysis.host.callScope call)
        (fun clause => clause) (analysis.contracts call.method).ensures.keys) := by
  simp only [Store.recordAll, List.foldl_map]
  refine useClauses_gathers ?_ ?_ (analysis.resolvesAlike_alike _ _) _ _
  · exact fun clause path store =>
      shares_alike.establish_gathers analysis store path clause.qualifier
  · exact fun _ error => note_idle (.promiseDropped node error)

def recordOn (stores : Store V × Store V) (fact : ResultClause × Path × V) : Store V × Store V :=
  if fact.1.result then (stores.1.record fact.2.1 fact.2.2, stores.2)
  else (stores.1, stores.2.record fact.2.1 fact.2.2)

private theorem foldl_recordOn (facts : List (ResultClause × Path × V))
    (stores : Store V × Store V) :
    facts.foldl recordOn stores =
      (stores.1.recordAll ((facts.filter (·.1.branch = .whenTrue)).map (·.2)),
        stores.2.recordAll ((facts.filter (·.1.branch = .whenFalse)).map (·.2))) := by
  induction facts generalizing stores with
  | nil => rfl
  | cons fact facts ih =>
    rw [List.foldl_cons, ih]
    cases result : fact.1.result <;> simp [recordOn, ResultClause.branch, result, Store.recordAll]

private theorem useResultPromises_gathers (node : Id .node) (call : Call)
    (start : Store V × Store V) :
    Coupled Memory.Alike Memory.Alike (fun stores facts => stores = facts.foldl recordOn start)
      (analysis.useResultPromises node call start)
      (analysis.factsOf (.call node call.method) (analysis.host.callScope call)
        ResultClause.toClause (analysis.contracts call.method).ensuresIf.keys) := by
  refine useClauses_gathers ?_ ?_ (analysis.resolvesAlike_alike _ _) _ _
  · rintro ⟨⟨expression, qualifier⟩, result⟩ path ⟨whenTrue, whenFalse⟩
    have established (store : Store V) :=
      shares_alike.establish_gathers analysis store path qualifier
    unfold recordOn
    cases result with
    | true =>
      apply (established whenTrue).follow
      rintro _ value rfl
      refine Coupled.pure ?_
      cases value <;> rfl
    | false =>
      apply (established whenFalse).follow
      rintro _ value rfl
      refine Coupled.pure ?_
      cases value <;> rfl
  · exact fun _ error => note_idle (.promiseDropped node error)

theorem step_invoke_gathers [Domain V] [DecidableEq V] {node : Node} {call : Call}
    (invokes : node.operation = .invoke call) (values : Id .node → Option V) (incoming : Flow V) :
    Coupled Memory.Alike (fun _ _ => True)
      (fun result answers => result =
        (Domain.finerOf answers.declared (incoming.merge.get? call.path) .first).map
          (answers.outcome incoming.merge call))
      (analysis.step node values incoming).run
      (analysis.answersAbout node call incoming.merge) := by
  unfold step
  rw [invokes]
  simp only [Attempt.run_lift_bind]
  refine Coupled.idle (note_idle _) fun _ => ?_
  unfold invoke readValue answersAbout
  simp only [Attempt.run_lift_bind, bind_assoc, Attempt.run_ofExcept_bind]
  refine Coupled.bind (analysis.valueOf?_related _ node.tree) ?_
  rintro declared _ rfl
  cases finer : Domain.finerOf declared (incoming.merge.get? call.path) .first with
  | error violation =>
    -- the step ends here, and whatever else is said about the call plays no part
    intro m n _
    refine ⟨?_, trivial⟩
    change Except.error violation =
      Except.map _ (Domain.finerOf declared (incoming.merge.get? call.path) .first)
    rw [finer]
    rfl
  | ok value =>
    dsimp only
    refine Coupled.bind (Related.ask _) ?_
    rintro calleePure _ rfl
    refine Coupled.bind (analysis.usePromises_gathers node.id call _) ?_
    rintro _ promised rfl
    refine Coupled.bind (analysis.useResultPromises_gathers node.id call _) ?_
    rintro _ promisedIf rfl
    rw [foldl_recordOn]
    intro m n _
    refine ⟨?_, trivial⟩
    change _ = Except.map _ (Domain.finerOf declared (incoming.merge.get? call.path) .first)
    rw [finer]
    rfl

end Analysis

def Oracle.answersAbout (oracle : Oracle γ V) (contract : Contract)
    (resolution : String → Resolution) (node : Node) (call : Call) (store : Store V) :
    CallAnswers V where
  declared := node.tree.bind oracle.typeValue
  calleePure := store.asksAboutCallee && oracle.isSideEffectFree call.method
  promised := contract.ensures.keys.filterMap fun clause =>
    (oracle.fact? resolution clause).map (clause, ·)
  promisedIf := contract.ensuresIf.keys.filterMap fun clause =>
    (oracle.fact? resolution clause.toClause).map (clause, ·)

namespace Analysis
open Run
variable {analysis : Analysis σ γ V} {oracle : Oracle γ V}

end Analysis
end QualifierFlow
