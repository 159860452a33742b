import QualifierFlow.Analysis.Run

/-! Clauses of contracts turned into facts: each supported clause is resolved at its site, and what
it claims of the path found is recorded. The scope of the site is built when it is first needed, at
most once for a list of clauses. -/
namespace QualifierFlow

abbrev Scoped (σ γ V : Type) := StateT (Option γ) (Run σ V)

namespace Analysis
open Run
variable {σ γ V : Type} (analysis : Analysis σ γ V)

def scopeFrom (build : StateM σ γ) : Scoped σ γ V γ := do
  match ← get with
  | some scope => return scope
  | none =>
    let scope ← (ask build : Run σ V γ)
    set (some scope)
    return scope

/-- Resolves an expression at a site, unless that was done before. -/
def resolve (site : Site) (build : StateM σ γ) (expression : String) :
    Scoped σ γ V Resolution := do
  let known := (← getThe (Memory σ V)).resolutions
  let (answer, resolutions) ← known.consult ⟨site, expression⟩ do
    let scope ← scopeFrom build
    (ask (analysis.host.resolve expression scope) : Run σ V Resolution)
  modifyThe (Memory σ V) fun memory => { memory with resolutions := resolutions }
  return answer

def establish (store : Store V) (path : Path) (qualifier : String) : Run σ V (Store V) := do
  if path.isRecordable then
    match ← ask (analysis.host.meaning qualifier) with
    | some value =>
      note (.established path value)
      return store.record path value
    | none => return store
  else return store

/-- How a kind of clause is applied to a state: where it is resolved, what it says, what to do with
the path that it resolves to, and what with a failure. -/
structure ClauseUse (σ γ V κ S : Type) where
  site : Site
  build : StateM σ γ
  clause : κ → Clause
  apply : κ → Path → S → Run σ V S
  reject : κ → ResolveError → Run σ V Unit

variable {κ S : Type}

def useClause (use : ClauseUse σ γ V κ S) (state : S) (item : κ) : Scoped σ γ V S := do
  let supported ← (ask (analysis.host.supports (use.clause item).qualifier) : Run σ V Bool)
  if supported then
    match ← analysis.resolve use.site use.build (use.clause item).expression with
    | .ok path => use.apply item path state
    | .error error =>
      use.reject item error
      return state
  else return state

def useClauses (use : ClauseUse σ γ V κ S) (items : List κ) (start : S) : Run σ V S :=
  (items.foldlM (analysis.useClause use) start).run' none

end Analysis
end QualifierFlow
