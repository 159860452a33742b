import QualifierFlow.Proofs.Analysis.Remembering

/-! Hosts that answer by functions. What such a host is asked has one answer in every state, so that
a run of an analysis can be computed without it: from what the oracle says, and from the resolutions
that are remembered. -/
namespace QualifierFlow
variable {σ γ V α β κ : Type}

/-- All answers of a host, as functions of what it is asked. -/
structure Oracle (γ V : Type) extends Resolver γ where
  typeValue : Tree → Option V
  boundValue : Tree → Option V
  supports : String → Bool
  meaning : String → Option V
  fieldValues : List (Field × V)
  isSideEffectFree : Id .method → Bool

/-- Whatever its state, the host gives the answers of the oracle. -/
structure Host.AnswersBy (host : Host σ γ V) (oracle : Oracle γ V) : Prop where
  typeValue (tree : Tree) (state : σ) :
    ((host.typeValue tree).run state).1 = oracle.typeValue tree
  boundValue (tree : Tree) (state : σ) :
    ((host.boundValue tree).run state).1 = oracle.boundValue tree
  supports (qualifier : String) (state : σ) :
    ((host.supports qualifier).run state).1 = oracle.supports qualifier
  meaning (qualifier : String) (state : σ) :
    ((host.meaning qualifier).run state).1 = oracle.meaning qualifier
  declarationScope (method : Method) (state : σ) :
    ((host.declarationScope method).run state).1 = oracle.declared method
  callScope (call : Call) (state : σ) :
    ((host.callScope call).run state).1 = oracle.called call
  resolve (expression : String) (scope : γ) (state : σ) :
    ((host.resolve expression scope).run state).1 = oracle.denoted expression scope
  fieldValues (state : σ) : (host.fieldValues.run state).1 = oracle.fieldValues
  isSideEffectFree (method : Id .method) (state : σ) :
    ((host.isSideEffectFree method).run state).1 = oracle.isSideEffectFree method

theorem Host.AnswersBy.resolvesBy {host : Host σ γ V} {oracle : Oracle γ V}
    (answers : host.AnswersBy oracle) :
    host.ResolvesBy oracle.toResolver fun _ _ => True where
  equivalence := ⟨fun _ => trivial, fun _ => trivial, fun _ _ => trivial⟩
  declarationScope method state := ⟨answers.declarationScope method state, trivial⟩
  callScope call state := ⟨answers.callScope call state, trivial⟩
  resolve expression scope state := ⟨answers.resolve expression scope state, trivial⟩
  attend _ _ _ _ := ⟨rfl, trivial⟩
  typeValue tree _ _ _ := ⟨by rw [answers.typeValue, answers.typeValue], trivial⟩
  boundValue tree _ _ _ := ⟨by rw [answers.boundValue, answers.boundValue], trivial⟩
  supports qualifier _ _ _ := ⟨by rw [answers.supports, answers.supports], trivial⟩
  meaning qualifier _ _ _ := ⟨by rw [answers.meaning, answers.meaning], trivial⟩
  fieldValues _ _ _ := ⟨by rw [answers.fieldValues, answers.fieldValues], trivial⟩
  isSideEffectFree method _ _ _ :=
    ⟨by rw [answers.isSideEffectFree, answers.isSideEffectFree], trivial⟩

def HostTable.oracle (table : HostTable V) : Oracle TableScope V where
  toResolver := Analysis.tableResolver table
  typeValue tree := table.typeValues.get? tree.id
  boundValue tree := table.boundValues.get? tree.id
  supports := table.supports
  meaning := table.meaning
  fieldValues := table.fieldValues
  isSideEffectFree := table.sideEffectFree.contains

theorem HostTable.answersBy_oracle (table : HostTable V) : table.host.AnswersBy table.oracle where
  typeValue _ _ := rfl
  boundValue _ _ := rfl
  supports _ _ := rfl
  meaning _ _ := rfl
  declarationScope _ _ := rfl
  callScope _ _ := rfl
  resolve _ _ _ := rfl
  fieldValues _ := rfl
  isSideEffectFree _ _ := rfl

/-- What expressions resolve to at a site: what is remembered of them, or else what they denote. -/
def ResolutionMemory.resolution (memory : ResolutionMemory) (site : Site)
    (denoted : String → Resolution) (expression : String) : Resolution :=
  (memory.get? ⟨site, expression⟩).getD (denoted expression)

def Memory.ResolvesTo (oracle : Oracle γ V) (site : Site) (scope : γ)
    (resolution : String → Resolution) (m : Memory σ V) : Prop :=
  m.resolutions.resolution site (oracle.denoted · scope) = resolution

private theorem ResolutionMemory.resolution_remember {memory : ResolutionMemory} {site : Site}
    (denoted : String → Resolution) {expression : String}
    (unknown : memory.get? ⟨site, expression⟩ = none) :
    (memory.remember ⟨site, expression⟩ (denoted expression)).resolution site denoted =
      memory.resolution site denoted := by
  funext other
  rw [resolution, resolution, get?_remember_eq]
  split
  · next asked =>
    obtain ⟨-, rfl⟩ := Question.mk.inj asked.1
    rw [unknown]
    rfl
  · rfl

/-- Under an invariant, the run has one result. -/
def Run.Yields (I : Memory σ V → Prop) (run : Run σ V α) (a : α) : Prop :=
  ∀ m, I m → (run.run m).1 = a ∧ I (run.run m).2

namespace Run.Yields
variable {I : Memory σ V → Prop}

theorem pure (a : α) : Yields I (pure a) a := fun _ holds => ⟨rfl, holds⟩

theorem bind {run : Run σ V α} {next : α → Run σ V β} {a : α} {b : β} (first : Yields I run a)
    (rest : Yields I (next a) b) : Yields I (run >>= next) b := by
  intro m holds
  obtain ⟨rfl, after⟩ := first m holds
  exact rest _ after

theorem foldlM {next : β → κ → Run σ V β} {f : β → κ → β}
    (step : ∀ b item, Yields I (next b item) (f b item)) (items : List κ) (b : β) :
    Yields I (items.foldlM next b) (items.foldl f b) := by
  induction items generalizing b with
  | nil => exact pure b
  | cons item items ih =>
    rw [List.foldlM_cons, List.foldl_cons]
    exact (step b item).bind (ih _)

end Run.Yields

def Scoped.Yields (I : Option γ → Memory σ V → Prop) (run : Scoped σ γ V α) (a : α) : Prop :=
  ∀ known m, I known m →
    ((run.run known).run m).1.1 = a ∧ I ((run.run known).run m).1.2 ((run.run known).run m).2

namespace Scoped.Yields
variable {I : Option γ → Memory σ V → Prop}

theorem pure (a : α) : Yields I (pure a) a := fun _ _ holds => ⟨rfl, holds⟩

theorem lift {run : Run σ V α} {a : α} (yields : ∀ known, Run.Yields (I known) run a) :
    Yields I (liftM run) a := fun known => yields known

theorem bind {run : Scoped σ γ V α} {next : α → Scoped σ γ V β} {a : α} {b : β}
    (first : Yields I run a) (rest : Yields I (next a) b) : Yields I (run >>= next) b := by
  intro known m holds
  obtain ⟨rfl, after⟩ := first known m holds
  exact rest _ _ after

theorem foldlM {next : β → κ → Scoped σ γ V β} {f : β → κ → β}
    (step : ∀ b item, Yields I (next b item) (f b item)) (items : List κ) (b : β) :
    Yields I (items.foldlM next b) (items.foldl f b) := by
  induction items generalizing b with
  | nil => exact pure b
  | cons item items ih =>
    rw [List.foldlM_cons, List.foldl_cons]
    exact (step b item).bind (ih _)

end Scoped.Yields

namespace Analysis
open Run

theorem ask_yields {I : Memory σ V → Prop} (kept : ∀ m host, I m → I { m with host := host })
    {query : StateM σ α} {a : α} (always : ∀ state, (query.run state).1 = a) :
    Yields I (ask query) a :=
  fun m holds => ⟨always m.host, kept m _ holds⟩

/-- Expressions resolve as given at a site, whose scope is as given if it is built. -/
def Resolves (oracle : Oracle γ V) (site : Site) (scope : γ) (resolution : String → Resolution)
    (known : Option γ) (m : Memory σ V) : Prop :=
  (∀ a ∈ known, a = scope) ∧ m.ResolvesTo oracle site scope resolution

variable {analysis : Analysis σ γ V} {oracle : Oracle γ V}
variable (answers : analysis.host.AnswersBy oracle)
include answers

theorem typeValue_yields {I : Memory σ V → Prop}
    (kept : ∀ m host, I m → I { m with host := host }) (tree : Option Tree) :
    Yields I (valueOf? analysis.typeValue tree) (tree.bind oracle.typeValue) := by
  cases tree with
  | none => exact .pure none
  | some tree =>
    have attended (tree : Option (Id .tree)) : Yields I (ask (analysis.host.attend tree)) () :=
      ask_yields kept fun _ => rfl
    have asked : Yields I (ask (analysis.host.typeValue tree)) (oracle.typeValue tree) :=
      ask_yields kept (answers.typeValue tree)
    exact (attended _).bind (asked.bind ((attended _).bind (.pure _)))

theorem resolve_yields {site : Site} {scope : γ} {resolution : String → Resolution}
    {build : StateM σ γ} (built : ∀ state, (build.run state).1 = scope) (expression : String) :
    Scoped.Yields (Resolves oracle site scope resolution)
      (analysis.resolve site build expression) (resolution expression) := by
  rintro known m ⟨fits, rfl⟩
  cases found : m.resolutions.get? ⟨site, expression⟩ with
  | some answer =>
    rw [run_resolve_of_some found]
    refine ⟨?_, fits, rfl⟩
    rw [ResolutionMemory.resolution, found]
    rfl
  | none =>
    have constant : Host.Constant (fun _ _ => True) scope build :=
      fun state => ⟨built state, trivial⟩
    obtain ⟨after, host, fitting, -, resolved⟩ :=
      run_resolve_denoted answers.resolvesBy constant found fits
    rw [resolved]
    refine ⟨?_, fitting, ?_⟩
    · rw [ResolutionMemory.resolution, found]
      rfl
    · exact ResolutionMemory.resolution_remember (oracle.denoted · scope) found

end Analysis
end QualifierFlow
