import QualifierFlow.Analysis.Clauses

/-! The rules of the analysis. A step takes what flows into a node and the values of the nodes
evaluated before, and gives the value of the node and what flows out of it. A condition splits the
flow, so that what it teaches holds on the right branch only. -/
namespace QualifierFlow.Analysis
open Run
variable {σ γ V : Type} [Domain V] (analysis : Analysis σ γ V)

/-- The value to store for an assignment. What is known of a type variable holds for one unknown
type argument only, so that a target of another kind gets the upper bound. -/
def storedValue (target source : Operand) (value : Option V) : Run σ V (Option V) :=
  if source.kind.isBoundOnly && !target.kind.isBoundOnly then
    valueOf? analysis.boundValue source.tree
  else return value

def assignTo (store : Store V) (target source : Operand) (value : Option V) :
    Run σ V (Store V) := do
  let value ← analysis.storedValue target source value
  if (target.path.isVariable || target.path.isField) && target.path.isRecordable then
    note (.assigned target.path value)
    return store.assign target.path value
  else return store.assignUnnamed target.path

/-- The value of a node that reads a path: the more precise of its type's and the store's. -/
def readValue (node : Node) (store : Store V) (path : Path) : Attempt σ V (Option V) := do
  let declared ← valueOf? analysis.typeValue node.tree
  Attempt.ofExcept (Domain.finerOf declared (store.get? path) .first)

/-- On the branch where two operands are equal, one takes over the value of the other, unless it
has the same value. What the branch knows already stays if it is more precise. -/
def equate [DecidableEq V] (branch : Branch) (operand : Operand) (value other : Option V)
    (flow : Flow V) : Attempt σ V (Flow V) := do
  if value.isNone || value = other || !operand.path.isRecordable then return flow
  let known := (flow.on branch).get? operand.path
  match ← Attempt.ofExcept (Domain.finerOf value known .first) with
  | none => return flow
  | some refined =>
    (note (.equated operand.path refined branch) : Run σ V Unit)
    return flow.adjust branch (·.record operand.path refined)

/-- A comparison teaches something on the branch where its operands are equal. -/
def comparison [DecidableEq V] (branch : Branch) (node : Node) (left right : Operand)
    (values : Id .node → Option V) (incoming : Flow V) : Attempt σ V (Outcome V) := do
  let leftValue := values left.node
  let rightValue := values right.node
  let value ← analysis.nodeValue node
  let flow ← equate branch right leftValue rightValue incoming
  let flow ← equate branch left rightValue leftValue flow
  return ⟨value, flow⟩

/-- A type test that succeeds gives its operand the tested qualifier; one that fails teaches
nothing. -/
def typeTest (node : Node) (operand : Operand) (tested : Tree) (values : Id .node → Option V)
    (incoming : Flow V) : Attempt σ V (Outcome V) := do
  let _ ← analysis.nodeValue node
  let testedValue ← analysis.typeValue tested
  let value ← Attempt.ofExcept (Domain.finerOf testedValue (values operand.node) .first)
  match value with
  | some refined =>
    if operand.path.isRecordable then
      (note (.typeTested operand.path refined) : Run σ V Unit)
      return ⟨value, incoming.adjust .whenTrue (·.record operand.path refined)⟩
    else return ⟨value, incoming.diverge⟩
  | none => return ⟨value, incoming.diverge⟩

/-- Whether the callee is known to be free of side effects, asked only if it matters. -/
def calleeIsPure (store : Store V) (callee : Id .method) : StateM σ Bool :=
  if store.asksAboutCallee then analysis.host.isSideEffectFree callee else return false

def usePromises (node : Id .node) (call : Call) (start : Store V) : Run σ V (Store V) :=
  analysis.useClauses
    { site := .call node call.method
      build := analysis.host.callScope call
      clause := fun clause => clause
      apply := fun clause path store => analysis.establish store path clause.qualifier
      reject := fun _ error => note (.promiseDropped node error) }
    (analysis.contracts call.method).ensures.keys start

/-- Records what a call promises for one result on the branch where it has that result. -/
def useResultPromises (node : Id .node) (call : Call) (start : Store V × Store V) :
    Run σ V (Store V × Store V) :=
  analysis.useClauses
    { site := .call node call.method
      build := analysis.host.callScope call
      clause := ResultClause.toClause
      apply := fun clause path (whenTrue, whenFalse) =>
        if clause.result then
          return (← analysis.establish whenTrue path clause.qualifier, whenFalse)
        else
          return (whenTrue, ← analysis.establish whenFalse path clause.qualifier)
      reject := fun _ error => note (.promiseDropped node error) }
    (analysis.contracts call.method).ensuresIf.keys start

/-- A call forgets what it may have changed, then records what it promises. -/
def invoke (node : Node) (call : Call) (incoming : Flow V) : Attempt σ V (Outcome V) := do
  let store := incoming.merge
  let value ← analysis.readValue node store call.path
  let calleePure ← (ask (analysis.calleeIsPure store call.method) : Run σ V Bool)
  let store ← analysis.usePromises node.id call (store.afterCall call calleePure value)
  let (whenTrue, whenFalse) ← analysis.useResultPromises node.id call (store, store)
  return ⟨value, .split whenTrue whenFalse⟩

def step [DecidableEq V] (node : Node) (values : Id .node → Option V) (incoming : Flow V) :
    Attempt σ V (Outcome V) := do
  (note (.visited node.id node.operation.name) : Run σ V Unit)
  match node.operation with
  | .assign target source =>
    let value := values source.node
    return ⟨value, .plain (← analysis.assignTo incoming.merge target source value)⟩
  | .update target source =>
    let value ← analysis.nodeValue node
    return ⟨value, .plain (← analysis.assignTo incoming.merge target source value)⟩
  | .readField path | .readVariable path =>
    let store := incoming.merge
    return ⟨← analysis.readValue node store path, .plain store⟩
  | .equal left right => analysis.comparison .whenTrue node left right values incoming
  | .notEqual left right => analysis.comparison .whenFalse node left right values incoming
  | .negate _ => return ⟨← analysis.nodeValue node, incoming.swap⟩
  | .choose _ whenTrue whenFalse =>
    return ⟨Domain.joinBoth (values whenTrue.node) (values whenFalse.node),
      .plain incoming.merge⟩
  | .typeTest operand tested => analysis.typeTest node operand tested values incoming
  | .invoke call => analysis.invoke node call incoming
  | .case _ | .declare _ => return ⟨none, .plain incoming.merge⟩
  | .other => return ⟨← analysis.nodeValue node, incoming⟩

end QualifierFlow.Analysis
