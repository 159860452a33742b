import QualifierFlow.Analysis.Entry
import QualifierFlow.Analysis.Step

/-! Two runs side by side. Runs are coupled when from related memories they give related results and
leave related memories; what the relations are is left open. The rules below couple runs action by
action, down to the few that look at a memory: what the host is asked, what is logged and complained
of, and how expressions are resolved. -/
namespace QualifierFlow
variable {σ γ V α β α' β' : Type} {M N O : Memory σ V → Memory σ V → Prop}

namespace Run

def Coupled (M N : Memory σ V → Memory σ V → Prop) (R : α → β → Prop) (left : Run σ V α)
    (right : Run σ V β) : Prop :=
  ∀ m n, M m n → R (left.run m).1 (right.run n).1 ∧ N (left.run m).2 (right.run n).2

theorem Coupled.pure {R : α → β → Prop} {a : α} {b : β} (related : R a b) :
    Coupled M M R (pure a) (pure b) :=
  fun _ _ alike => ⟨related, alike⟩

theorem Coupled.bind {R : α → β → Prop} {S : α' → β' → Prop} {left : Run σ V α}
    {right : Run σ V β} {next : α → Run σ V α'} {next' : β → Run σ V β'}
    (first : Coupled M N R left right) (rest : ∀ a b, R a b → Coupled N O S (next a) (next' b)) :
    Coupled M O S (left >>= next) (right >>= next') := by
  intro m n alike
  obtain ⟨results, between⟩ := first m n alike
  exact rest _ _ results _ _ between

/-- What follows on one side only starts from what the other side has as its result. -/
theorem Coupled.follow {R : α → β → Prop} {S : α' → β → Prop} {left : Run σ V α} {right : Run σ V β}
    {next : α → Run σ V α'} (first : Coupled M N R left right)
    (rest : ∀ a b, R a b → Coupled N O S (next a) (Pure.pure b)) :
    Coupled M O S (left >>= next) right := by
  rw [← bind_pure right]
  exact first.bind rest

/-- What relates to doing nothing may come before. -/
theorem Coupled.idle {S : α' → β → Prop} {left : Run σ V α} {next : α → Run σ V α'}
    {right : Run σ V β} (first : Coupled M N (fun _ _ => True) left (Pure.pure ()))
    (rest : ∀ a, Coupled N O S (next a) right) : Coupled M O S (left >>= next) right :=
  fun m n alike => rest _ _ _ (first m n alike).2

/-- So may what always has one result. -/
theorem Coupled.settle {S : α' → β → Prop} {left : Run σ V α} {a : α} {next : α → Run σ V α'}
    {right : Run σ V β} (first : Coupled M N (fun result _ => result = a) left (Pure.pure ()))
    (rest : Coupled N O S (next a) right) : Coupled M O S (left >>= next) right := by
  intro m n alike
  obtain ⟨rfl, between⟩ := first m n alike
  exact rest _ _ between

theorem Coupled.foldlM {κ : Type} {R : α → β → Prop} {next : α → κ → Run σ V α}
    {next' : β → κ → Run σ V β}
    (step : ∀ item a b, R a b → Coupled M M R (next a item) (next' b item)) (items : List κ)
    {a : α} {b : β} (start : R a b) :
    Coupled M M R (items.foldlM next a) (items.foldlM next' b) := by
  induction items generalizing a b with
  | nil => exact Coupled.pure start
  | cons item items ih =>
    rw [List.foldlM_cons, List.foldlM_cons]
    exact (step item a b start).bind fun _ _ between => ih between

def Agrees (M : Memory σ V → Memory σ V → Prop) (run : Run σ V α) : Prop :=
  Coupled M M Eq run run

theorem Agrees.bind {R : α' → β' → Prop} {run : Run σ V α} {next : α → Run σ V α'}
    {next' : α → Run σ V β'} (first : Agrees M run)
    (rest : ∀ a, Coupled M N R (next a) (next' a)) :
    Coupled M N R (run >>= next) (run >>= next') := by
  refine Coupled.bind first ?_
  rintro a _ rfl
  exact rest a

/-- From one and the same memory every run gives one and the same result. -/
theorem agrees_eq (run : Run σ V α) : Agrees Eq run := by
  rintro m _ rfl
  exact ⟨rfl, rfl⟩

end Run

namespace Scoped

/-- Coupled from related scopes, and leaving related scopes. -/
def Coupled (M : Memory σ V → Memory σ V → Prop) (G : Option γ → Option γ → Prop)
    (R : α → β → Prop) (left : Scoped σ γ V α) (right : Scoped σ γ V β) : Prop :=
  ∀ s t, G s t → Run.Coupled M M (fun x y => R x.1 y.1 ∧ G x.2 y.2) (left.run s) (right.run t)

namespace Coupled
variable {G : Option γ → Option γ → Prop}

theorem pure {R : α → β → Prop} {a : α} {b : β} (related : R a b) :
    Coupled M G R (pure a) (pure b) :=
  fun _ _ scopes => Run.Coupled.pure ⟨related, scopes⟩

theorem lift {R : α → β → Prop} {left : Run σ V α} {right : Run σ V β}
    (coupled : Run.Coupled M M R left right) :
    Coupled M G R (liftM left : Scoped σ γ V α) (liftM right) := by
  intro s t scopes
  have paired : ∀ a b, R a b → Run.Coupled M M (fun x y => R x.1 y.1 ∧ G x.2 y.2)
      (Pure.pure (a, s) : Run σ V _) (Pure.pure (b, t)) :=
    fun _ _ results => .pure ⟨results, scopes⟩
  exact coupled.bind paired

theorem bind {R : α → β → Prop} {S : α' → β' → Prop} {left : Scoped σ γ V α}
    {right : Scoped σ γ V β} {next : α → Scoped σ γ V α'} {next' : β → Scoped σ γ V β'}
    (first : Coupled M G R left right) (rest : ∀ a b, R a b → Coupled M G S (next a) (next' b)) :
    Coupled M G S (left >>= next) (right >>= next') := by
  intro s t scopes
  rw [StateT.run_bind, StateT.run_bind]
  refine (first s t scopes).bind ?_
  rintro ⟨a, s'⟩ ⟨b, t'⟩ ⟨results, between⟩
  exact rest a b results s' t' between

theorem idle {S : α' → β → Prop} {left : Run σ V α} {next : α → Scoped σ γ V α'}
    {right : Scoped σ γ V β} (first : Run.Coupled M M (fun _ _ => True) left (Pure.pure ()))
    (rest : ∀ a, Coupled M G S (next a) right) : Coupled M G S (liftM left >>= next) right :=
  fun s t scopes => Run.Coupled.idle first fun a => rest a s t scopes

theorem foldlM {κ : Type} {R : α → β → Prop} {next : α → κ → Scoped σ γ V α}
    {next' : β → κ → Scoped σ γ V β}
    (step : ∀ item a b, R a b → Coupled M G R (next a item) (next' b item)) (items : List κ)
    {a : α} {b : β} (start : R a b) :
    Coupled M G R (items.foldlM next a) (items.foldlM next' b) := by
  induction items generalizing a b with
  | nil => exact pure start
  | cons item items ih =>
    rw [List.foldlM_cons, List.foldlM_cons]
    exact (step item a b start).bind fun _ _ between => ih between

theorem getMemory : Coupled M G M (getThe (Memory σ V)) (getThe (Memory σ V)) :=
  fun _ _ scopes _ _ related => ⟨⟨related, scopes⟩, related⟩

theorem modifyMemory {change change' : Memory σ V → Memory σ V}
    (kept : ∀ m n, M m n → M (change m) (change' n)) :
    Coupled M G Eq (modifyThe (Memory σ V) change) (modifyThe (Memory σ V) change') :=
  fun _ _ scopes m n related => ⟨⟨rfl, scopes⟩, kept m n related⟩

end Coupled
end Scoped

namespace Analysis
open Run
variable (analysis : Analysis σ γ V)

/-- Related memories make no difference to what the host is asked and answers, other than about the
clauses of contracts, and stay related by it and by what is logged. -/
structure Respects (M : Memory σ V → Memory σ V → Prop) : Prop where
  typeValue (tree : Tree) : Agrees M (analysis.typeValue tree)
  boundValue (tree : Tree) : Agrees M (analysis.boundValue tree)
  meaning (qualifier : String) : Agrees M (ask (analysis.host.meaning qualifier))
  fieldValues : Agrees M (ask analysis.host.fieldValues)
  isSideEffectFree (method : Id .method) : Agrees M (ask (analysis.host.isSideEffectFree method))
  note (event : Event V) : Agrees M (note event)

/-- Related memories stay related by what is complained of. -/
def ComplainsAlike (M : Memory σ V → Memory σ V → Prop) : Prop :=
  ∀ method expression error, Agrees M (complain method expression error)

theorem complainsAlike_of_complaints {M : Memory σ V → Memory σ V → Prop}
    (known : ∀ m n, M m n → m.complaints = n.complaints)
    (file : ∀ m n, M m n → ∀ complaints,
      M { m with complaints := complaints } { n with complaints := complaints }) :
    ComplainsAlike M := by
  intro method expression error m n related
  have after := file m n related (m.complaints.insertNew ⟨.declaration method.id, expression⟩
    (Diagnostic.ofUnresolved method error))
  refine ⟨rfl, ?_⟩
  change M _ { n with complaints := n.complaints.insertNew _ _ }
  rw [← known m n related]
  exact after

/-- Clauses are supported alike and their expressions resolve alike at a site. While the clauses of
one list are used, the scopes built for them may differ, as one run may have found more resolutions
remembered than the other. -/
structure ResolvesAlike (M : Memory σ V → Memory σ V → Prop) (site : Site) (build : StateM σ γ) :
    Prop where
  supports (qualifier : String) : Agrees M (ask (analysis.host.supports qualifier))
  resolve : ∃ G : Option γ → Option γ → Prop, G none none ∧
    ∀ expression, Scoped.Coupled M G Eq (analysis.resolve site build expression)
      (analysis.resolve site build expression)

theorem attending_agrees (attended : ∀ tree, Agrees M (ask (analysis.host.attend tree)))
    {query : Tree → StateM σ (Option V)} (asked : ∀ tree, Agrees M (ask (query tree)))
    (tree : Tree) : Agrees M (analysis.attending tree query) := by
  unfold attending
  refine (attended _).bind fun _ => ?_
  refine (asked tree).bind fun value => ?_
  refine (attended _).bind fun _ => ?_
  exact .pure rfl

private theorem scopeFrom_coupled {build : StateM σ γ} (built : Agrees M (ask build)) :
    Scoped.Coupled M Eq Eq (scopeFrom build) (scopeFrom build) := by
  rintro known _ rfl
  cases known with
  | some scope => exact Run.Coupled.pure ⟨rfl, rfl⟩
  | none =>
    have kept (scope : γ) : Run.Coupled M M (fun x y => x.1 = y.1 ∧ x.2 = y.2)
        (pure (scope, some scope) : Run σ V _) (pure (scope, some scope)) := .pure ⟨rfl, rfl⟩
    exact Agrees.bind built kept

private theorem consult_coupled (known : ResolutionMemory) (question : Question)
    {answer : Scoped σ γ V Resolution} (coupled : Scoped.Coupled M Eq Eq answer answer) :
    Scoped.Coupled M Eq Eq (known.consult question answer) (known.consult question answer) := by
  unfold ResolutionMemory.consult
  split
  · exact .pure rfl
  · exact coupled.bind fun answer _ same => .pure (same ▸ rfl)

/-- Expressions resolve alike from memories with the same resolutions, if the host builds and
resolves alike. -/
theorem resolvesAlike_of_agrees (known : ∀ m n, M m n → m.resolutions = n.resolutions)
    (remember : ∀ m n, M m n → ∀ resolutions,
      M { m with resolutions := resolutions } { n with resolutions := resolutions })
    (supported : ∀ qualifier, Agrees M (ask (analysis.host.supports qualifier)))
    {build : StateM σ γ} (built : Agrees M (ask build))
    (resolved : ∀ expression scope, Agrees M (ask (analysis.host.resolve expression scope)))
    (site : Site) : analysis.ResolvesAlike M site build := by
  refine ⟨supported, Eq, rfl, fun expression => ?_⟩
  unfold resolve
  refine Scoped.Coupled.getMemory.bind fun m n related => ?_
  dsimp only
  rw [← known m n related]
  refine Scoped.Coupled.bind (consult_coupled _ _ ?_) fun answered _ same => ?_
  · refine (scopeFrom_coupled built).bind fun scope _ same => ?_
    exact same ▸ .lift (resolved expression scope)
  · subst same
    refine (Scoped.Coupled.modifyMemory fun m n related => ?_).bind fun _ _ _ => .pure rfl
    exact remember m n related _

/-- Related memories have the same state of the host and the same resolutions, and stay related if
these change alike, whatever is logged. -/
structure Shares (M : Memory σ V → Memory σ V → Prop) : Prop where
  host {m n : Memory σ V} : M m n → m.host = n.host
  resolutions {m n : Memory σ V} : M m n → m.resolutions = n.resolutions
  answer {m n : Memory σ V} : M m n → ∀ host, M { m with host := host } { n with host := host }
  remember {m n : Memory σ V} : M m n → ∀ resolutions,
    M { m with resolutions := resolutions } { n with resolutions := resolutions }
  log {m n : Memory σ V} : M m n → ∀ log log', M { m with log := log } { n with log := log' }

namespace Shares
variable (shares : Shares M)
include shares

/-- The host is in the same state in both runs, so it gives both the same answer. -/
theorem ask (query : StateM σ α) : Agrees M (ask query) := by
  intro m n related
  have after := shares.answer related (query.run m.host).2
  change (query.run m.host).1 = (query.run n.host).1 ∧
    M { m with host := (query.run m.host).2 } { n with host := (query.run n.host).2 }
  rw [← shares.host related]
  exact ⟨rfl, after⟩

theorem note_idle (event : Event V) :
    Run.Coupled M M (fun _ _ => True) (note event) (pure ()) :=
  fun _ n related => ⟨trivial, shares.log related _ n.log⟩

theorem respects : analysis.Respects M where
  typeValue tree := analysis.attending_agrees (fun _ => shares.ask _) (fun _ => shares.ask _) tree
  boundValue tree := analysis.attending_agrees (fun _ => shares.ask _) (fun _ => shares.ask _) tree
  meaning _ := shares.ask _
  fieldValues := shares.ask _
  isSideEffectFree _ := shares.ask _
  note _ _ _ related := ⟨rfl, shares.log related _ _⟩

theorem resolvesAlike (site : Site) (build : StateM σ γ) : analysis.ResolvesAlike M site build :=
  analysis.resolvesAlike_of_agrees (fun _ _ => shares.resolutions) (fun _ _ => shares.remember)
    (fun _ => shares.ask _) (shares.ask build) (fun _ _ => shares.ask _) site

end Shares

theorem respects_eq : analysis.Respects Eq where
  typeValue _ := agrees_eq _
  boundValue _ := agrees_eq _
  meaning _ := agrees_eq _
  fieldValues := agrees_eq _
  isSideEffectFree _ := agrees_eq _
  note _ := agrees_eq _

theorem resolvesAlike_eq (site : Site) (build : StateM σ γ) :
    analysis.ResolvesAlike Eq site build := by
  refine ⟨fun _ => agrees_eq _, Eq, rfl, fun expression scope _ same => ?_⟩
  subst same
  rintro m _ rfl
  exact ⟨⟨rfl, rfl⟩, rfl⟩

variable {analysis}

theorem valueOf?_agrees {query : Tree → Run σ V (Option V)} (asked : ∀ tree, Agrees M (query tree))
    (tree : Option Tree) : Agrees M (valueOf? query tree) := by
  cases tree with
  | none => exact Coupled.pure rfl
  | some tree => exact asked tree

theorem useClauses_coupled {κ S : Type} {R : S → S → Prop} {use : ClauseUse σ γ V κ S}
    (resolves : analysis.ResolvesAlike M use.site use.build)
    (apply : ∀ item path s t, R s t →
      Coupled M M R (use.apply item path s) (use.apply item path t))
    (reject : ∀ item error, Agrees M (use.reject item error)) (items : List κ) {s t : S}
    (start : R s t) :
    Coupled M M R (analysis.useClauses use items s) (analysis.useClauses use items t) := by
  obtain ⟨supports, G, none, resolve⟩ := resolves
  have step : ∀ item s t, R s t → Scoped.Coupled M G R (analysis.useClause use s item)
      (analysis.useClause use t item) := by
    intro item s t between
    unfold useClause
    refine (Scoped.Coupled.lift (supports _)).bind ?_
    rintro supported _ rfl
    cases supported with
    | false => exact .pure between
    | true =>
      refine (resolve _).bind ?_
      rintro resolution _ rfl
      cases resolution with
      | ok path => exact .lift (apply item path s t between)
      | error error =>
        exact (Scoped.Coupled.lift (reject item error)).bind fun _ _ _ => .pure between
  have folded := Scoped.Coupled.foldlM step items start _ _ none
  exact folded.bind fun _ _ results => .pure results.1

end Analysis
end QualifierFlow
