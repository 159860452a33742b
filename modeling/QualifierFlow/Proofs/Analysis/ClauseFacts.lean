import Mathlib.Data.List.Basic
import QualifierFlow.Proofs.Analysis.Oracle

/-! The facts that a list of clauses claims at a site. Whatever a rule does with clauses, it does to
its state what these facts do to it, one after another; and they are found without looking at any
state. If the host answers by functions, they are what these functions give, clause by clause. -/
namespace QualifierFlow
variable {σ γ V α β κ S : Type}

namespace Analysis
open Run
variable (analysis : Analysis σ γ V)

/-- What a qualifier name says of a path, if facts about the path may be recorded. -/
def claimed (path : Path) (qualifier : String) : Run σ V (Option V) :=
  if path.isRecordable then ask (analysis.host.meaning qualifier) else return none

/-- What a clause claims, and of which path: its qualifier is supported and denotes a value, and its
expression resolves to a path about which facts may be recorded. -/
def factOf (site : Site) (build : StateM σ γ) (clause : Clause) :
    Scoped σ γ V (Option (Path × V)) := do
  let supported ← (ask (analysis.host.supports clause.qualifier) : Run σ V Bool)
  if supported then
    match ← analysis.resolve site build clause.expression with
    | .ok path => return (← analysis.claimed path clause.qualifier).map (path, ·)
    | .error _ => return none
  else return none

def factsOf (site : Site) (build : StateM σ γ) (clause : κ → Clause) (items : List κ) :
    Run σ V (List (κ × Path × V)) :=
  (items.foldlM (fun facts item => do
    return facts ++ ((← analysis.factOf site build (clause item)).map (item, ·)).toList) []).run'
    none

section Gathering
variable {analysis} {M : Memory σ V → Memory σ V → Prop}
variable {use : ClauseUse σ γ V κ S} {effect : S → κ × Path × V → S}
variable (apply : ∀ item path state,
  Coupled M M (fun after value => after = value.elim state (effect state ⟨item, path, ·⟩))
    (use.apply item path state) (analysis.claimed path (use.clause item).qualifier))
variable (reject : ∀ item error, Coupled M M (fun _ _ => True) (use.reject item error) (pure ()))
include apply reject

private theorem useClause_gathers {G : Option γ → Option γ → Prop}
    (supports : ∀ qualifier, Agrees M (ask (analysis.host.supports qualifier)))
    (resolve : ∀ expression, Scoped.Coupled M G Eq (analysis.resolve use.site use.build expression)
      (analysis.resolve use.site use.build expression)) (state : S) (item : κ) :
    Scoped.Coupled M G (fun after fact => after = fact.elim state (effect state ⟨item, ·⟩))
      (analysis.useClause use state item)
      (analysis.factOf use.site use.build (use.clause item)) := by
  unfold useClause factOf
  refine (Scoped.Coupled.lift (supports _)).bind ?_
  rintro supported _ rfl
  cases supported with
  | false => exact .pure rfl
  | true =>
    refine (resolve _).bind ?_
    rintro resolution _ rfl
    cases resolution with
    | ok path =>
      dsimp only
      rw [← bind_pure (liftM (use.apply item path state) : Scoped σ γ V S)]
      refine (Scoped.Coupled.lift (apply item path state)).bind ?_
      rintro _ value rfl
      cases value <;> exact .pure rfl
    | error error =>
      exact .idle (reject item error) fun _ => .pure rfl

/-- A rule that does with each clause what the fact that it claims does, does with a list of clauses
what the facts do that they claim, one after another. -/
theorem useClauses_gathers (resolves : analysis.ResolvesAlike M use.site use.build)
    (items : List κ) (start : S) :
    Coupled M M (fun state facts => state = facts.foldl effect start)
      (analysis.useClauses use items start)
      (analysis.factsOf use.site use.build use.clause items) := by
  obtain ⟨supports, G, none, resolve⟩ := resolves
  have step : ∀ item state facts, state = facts.foldl effect start →
      Scoped.Coupled M G (fun state facts => state = facts.foldl effect start)
        (analysis.useClause use state item) (do
          return facts ++
            ((← analysis.factOf use.site use.build (use.clause item)).map (item, ·)).toList) := by
    rintro item _ facts rfl
    rw [← bind_pure (analysis.useClause use _ item)]
    refine (useClause_gathers apply reject supports resolve _ item).bind ?_
    rintro _ fact rfl
    refine .pure ?_
    rw [List.foldl_append]
    cases fact <;> rfl
  have unused : start = ([] : List (κ × Path × V)).foldl effect start := rfl
  have folded := Scoped.Coupled.foldlM step items unused _ _ none
  exact folded.bind fun _ _ results => .pure results.1

end Gathering

theorem Shares.establish_gathers {M : Memory σ V → Memory σ V → Prop} (shares : Shares M)
    (store : Store V) (path : Path) (qualifier : String) :
    Coupled M M (fun after value => after = value.elim store (store.record path))
      (analysis.establish store path qualifier) (analysis.claimed path qualifier) := by
  unfold establish claimed
  split
  · apply Coupled.follow (shares.ask _)
    rintro value _ rfl
    cases value with
    | none => exact Coupled.pure rfl
    | some value => exact Coupled.idle (shares.note_idle _) fun _ => Coupled.pure rfl
  · exact Coupled.pure rfl

end Analysis

/-- What a clause claims, and of which path, by what the oracle says and expressions resolve to. -/
def Oracle.fact? (oracle : Oracle γ V) (resolution : String → Resolution) (clause : Clause) :
    Option (Path × V) :=
  if oracle.supports clause.qualifier then
    match resolution clause.expression with
    | .ok path =>
      if path.isRecordable then (oracle.meaning clause.qualifier).map (path, ·) else none
    | .error _ => none
  else none

namespace Analysis
open Run
variable {analysis : Analysis σ γ V} {oracle : Oracle γ V} {site : Site} {scope : γ}
variable {resolution : String → Resolution} (answers : analysis.host.AnswersBy oracle)
variable {build : StateM σ γ} (built : ∀ state, (build.run state).1 = scope)
include answers built

private theorem factOf_yields (clause : Clause) :
    Scoped.Yields (Resolves oracle site scope resolution)
      (analysis.factOf site build clause) (oracle.fact? resolution clause) := by
  unfold factOf Oracle.fact?
  refine Scoped.Yields.bind
    (.lift fun known => ask_yields (fun _ _ => id) (answers.supports clause.qualifier)) ?_
  cases oracle.supports clause.qualifier with
  | false => exact .pure none
  | true =>
    refine (resolve_yields answers built clause.expression).bind ?_
    cases resolution clause.expression with
    | error error => exact .pure none
    | ok path =>
      simp only [claimed]
      cases path.isRecordable with
      | false => exact .pure none
      | true =>
        refine Scoped.Yields.bind
          (.lift fun known => ask_yields (fun _ _ => id) (answers.meaning clause.qualifier)) ?_
        exact .pure _

/-- The facts that clauses claim at a site, by what the oracle says of each of them. -/
theorem factsOf_yields (clause : κ → Clause) (items : List κ) :
    Yields (Memory.ResolvesTo oracle site scope resolution)
      (analysis.factsOf site build clause items)
      (items.filterMap fun item => (oracle.fact? resolution (clause item)).map (item, ·)) := by
  have step : ∀ facts item, Scoped.Yields (Resolves oracle site scope resolution)
      (do
        return facts ++ ((← analysis.factOf site build (clause item)).map (item, ·)).toList)
      (facts ++ ((oracle.fact? resolution (clause item)).map (item, ·)).toList) :=
    fun facts item => (factOf_yields answers built (clause item)).bind (.pure _)
  have folded := Scoped.Yields.foldlM step items []
  rw [List.filterMap_eq_flatMap_toList, List.flatMap_eq_foldl]
  intro m holds
  obtain ⟨same, _, after⟩ := folded none m ⟨by simp, holds⟩
  exact ⟨same, after⟩

end Analysis
end QualifierFlow
