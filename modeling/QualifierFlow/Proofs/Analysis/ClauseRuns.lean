import QualifierFlow.Analysis.Entry
import QualifierFlow.Analysis.Step

/-! How clauses run. A clause is looked at in the memory that the clauses before it leave: the host
is asked whether it supports the qualifier, the expression is recalled or resolved, and the clause
is applied or rejected. -/
namespace QualifierFlow
variable {σ γ V κ S : Type}

namespace ResolutionMemory

theorem get?_forgetCalls (memory : ResolutionMemory) (question : Question) :
    memory.forgetCalls.get? question =
      if question.site.isCall then none else memory.get? question := by
  rw [get?, forgetCalls, SortedMap.get?_filter]
  cases question.site.isCall <;> rfl

theorem get?_remember_eq (memory : ResolutionMemory) (question : Question) (answer : Resolution)
    (other : Question) :
    (memory.remember question answer).get? other =
      if other = question ∧ memory.retains = true then some answer else memory.get? other := by
  unfold remember
  split
  · next retains => simp only [get?, SortedMap.get?_insert, retains, and_true]
  · next retains => rw [if_neg fun kept => retains kept.2]

theorem get?_remember {memory : ResolutionMemory} {question other : Question}
    {answer found : Resolution}
    (known : (memory.remember question answer).get? other = some found) :
    other = question ∧ found = answer ∨ memory.get? other = some found := by
  rw [get?_remember_eq] at known
  split at known
  · next asked => exact .inl ⟨asked.1, (Option.some.inj known).symm⟩
  · exact .inr known

variable {m : Type → Type} [Monad m] {memory : ResolutionMemory} {question : Question}

theorem consult_of_some {known : Resolution} (found : memory.get? question = some known)
    (resolve : m Resolution) : memory.consult question resolve = pure (known, memory) := by
  rw [consult, found]

theorem consult_of_none (unknown : memory.get? question = none) (resolve : m Resolution) :
    memory.consult question resolve = (do
      let answer ← resolve
      pure (answer, memory.remember question answer)) := by
  rw [consult, unknown]

end ResolutionMemory

namespace Analysis
open Run
variable {analysis : Analysis σ γ V} {site : Site} {build : StateM σ γ} {expression : String}
variable {m : Memory σ V}

theorem run_resolve (expression : String) (known : Option γ) (m : Memory σ V) :
    ((analysis.resolve site build expression).run known).run m =
      let consulted := (StateT.run (m.resolutions.consult ⟨site, expression⟩ do
        let scope ← scopeFrom build
        (ask (analysis.host.resolve expression scope) : Run σ V Resolution) :
          Scoped σ γ V (Resolution × ResolutionMemory)) known).run m
      ((consulted.1.1.1, consulted.1.2), { consulted.2 with resolutions := consulted.1.1.2 }) :=
  rfl

theorem run_resolve_of_some {answer : Resolution}
    (found : m.resolutions.get? ⟨site, expression⟩ = some answer) (known : Option γ) :
    ((analysis.resolve site build expression).run known).run m = ((answer, known), m) := by
  rw [run_resolve, ResolutionMemory.consult_of_some found]
  rfl

theorem run_resolve_of_none (unknown : m.resolutions.get? ⟨site, expression⟩ = none)
    (known : Option γ) :
    ((analysis.resolve site build expression).run known).run m =
      let opened := known.elim (build.run m.host) (·, m.host)
      let found := (analysis.host.resolve expression opened.1).run opened.2
      ((found.1, some opened.1),
        { m with
          host := found.2
          resolutions := m.resolutions.remember ⟨site, expression⟩ found.1 }) := by
  rw [run_resolve, ResolutionMemory.consult_of_none unknown]
  cases known <;> rfl

/-- What a clause does once its expression has been resolved. -/
def conclude (use : ClauseUse σ γ V κ S) (item : κ) (state : S) : Resolution → Scoped σ γ V S
  | .ok path => use.apply item path state
  | .error error => do
    use.reject item error
    return state

/-- A clause is passed over, applied or rejected. -/
theorem run_useClause_cases (analysis : Analysis σ γ V) (use : ClauseUse σ γ V κ S) (state : S)
    (item : κ) (scope : Option γ) (m : Memory σ V) :
    let asked := (ask (analysis.host.supports (use.clause item).qualifier)).run m
    let resolved := ((analysis.resolve use.site use.build (use.clause item).expression).run
      scope).run asked.2
    let used := ((analysis.useClause use state item).run scope).run m
    (asked.1 = false ∧ used = ((state, scope), asked.2)) ∨
    (asked.1 = true ∧ ∃ path, resolved.1.1 = .ok path ∧
      let applied := (use.apply item path state).run resolved.2
      used = ((applied.1, resolved.1.2), applied.2)) ∨
    (asked.1 = true ∧ ∃ error, resolved.1.1 = .error error ∧
      used = ((state, resolved.1.2), ((use.reject item error).run resolved.2).2)) := by
  intro asked resolved used
  have supported : used =
      ((if asked.1 = true then do
          conclude use item state
            (← analysis.resolve use.site use.build (use.clause item).expression)
        else return state).run scope).run asked.2 := rfl
  cases answer : asked.1 with
  | false =>
    rw [answer] at supported
    exact .inl ⟨rfl, supported⟩
  | true =>
    rw [answer, if_pos rfl] at supported
    have concluded : used =
        ((conclude use item state resolved.1.1).run resolved.1.2).run resolved.2 := supported
    cases result : resolved.1.1 with
    | ok path =>
      rw [result] at concluded
      exact .inr (.inl ⟨rfl, path, rfl, concluded⟩)
    | error error =>
      rw [result] at concluded
      exact .inr (.inr ⟨rfl, error, rfl, concluded⟩)

variable (analysis : Analysis σ γ V)

theorem run_establish (store : Store V) (path : Path) (qualifier : String) (m : Memory σ V) :
    (analysis.establish store path qualifier).run m =
      if path.isRecordable then
        let asked := (ask (analysis.host.meaning qualifier)).run m
        match asked.1 with
        | some value => (store.record path value, ((note (.established path value)).run asked.2).2)
        | none => (store, asked.2)
      else (store, m) := by
  unfold establish
  split
  · let asked := (ask (analysis.host.meaning qualifier)).run m
    change ((match asked.1 with
      | some value => do
        note (.established path value)
        return store.record path value
      | none => return store : Run σ V (Store V)).run asked.2) = _
    cases answer : asked.1 <;> simp only [asked, answer] <;> rfl
  · rfl

def requirementUse (method : Method) : ClauseUse σ γ V Clause (Store V) where
  site := .declaration method.id
  build := analysis.host.declarationScope method
  clause clause := clause
  apply clause path store := analysis.establish store path clause.qualifier
  reject clause error := do
    note (.requirementUnresolved method.name error)
    complain method clause.expression error

theorem enterRequirements_eq (method : Method) (start : Store V) :
    analysis.enterRequirements method start =
      analysis.useClauses (analysis.requirementUse method)
        (analysis.contracts method.id).requires.keys start :=
  rfl

def promiseUse (node : Id .node) (call : Call) : ClauseUse σ γ V Clause (Store V) where
  site := .call node call.method
  build := analysis.host.callScope call
  clause clause := clause
  apply clause path store := analysis.establish store path clause.qualifier
  reject _ error := note (.promiseDropped node error)

theorem usePromises_eq (node : Id .node) (call : Call) (start : Store V) :
    analysis.usePromises node call start =
      analysis.useClauses (analysis.promiseUse node call)
        (analysis.contracts call.method).ensures.keys start :=
  rfl

def resultPromiseUse (node : Id .node) (call : Call) :
    ClauseUse σ γ V ResultClause (Store V × Store V) where
  site := .call node call.method
  build := analysis.host.callScope call
  clause := ResultClause.toClause
  apply := fun clause path (whenTrue, whenFalse) =>
    if clause.result then
      return (← analysis.establish whenTrue path clause.qualifier, whenFalse)
    else
      return (whenTrue, ← analysis.establish whenFalse path clause.qualifier)
  reject _ error := note (.promiseDropped node error)

theorem useResultPromises_eq (node : Id .node) (call : Call) (start : Store V × Store V) :
    analysis.useResultPromises node call start =
      analysis.useClauses (analysis.resultPromiseUse node call)
        (analysis.contracts call.method).ensuresIf.keys start :=
  rfl

end Analysis
end QualifierFlow
