import QualifierFlow.Proofs.Analysis.ClauseRuns
import QualifierFlow.Proofs.Analysis.Transcript

/-! The order of what is said about clauses. An expression is resolved only when its clause was just
supported and the expression is not remembered, in a scope that was built in the same pass over the
clauses; and a scope is built only for such a resolution, at most once in a pass. -/
namespace QualifierFlow
variable {σ γ V α κ S : Type}

/-- The resolutions remembered once this was said about a site. -/
def Site.recall (site : Site) (known : ResolutionMemory) (asked : List (Exchange γ V)) :
    ResolutionMemory :=
  asked.foldl (fun known exchange =>
    match exchange with
    | .resolve expression _ answer => known.remember ⟨site, expression⟩ answer
    | _ => known) known

namespace Site
variable (site : Site) (known : ResolutionMemory)

private theorem recall_append (asked others : List (Exchange γ V)) :
    site.recall known (asked ++ others) = site.recall (site.recall known asked) others :=
  List.foldl_append

private theorem recall_eq_self {asked : List (Exchange γ V)}
    (unresolved : ∀ exchange ∈ asked, exchange.isResolve = false) :
    site.recall known asked = known := by
  induction asked with
  | nil => rfl
  | cons exchange asked ih =>
    obtain ⟨here, others⟩ := List.forall_mem_cons.1 unresolved
    cases exchange with
    | resolve => contradiction
    | _ => exact ih others

end Site

/-- The later memory is reached by saying what is given about a site, and remembers what was resolved
by that. -/
structure Memory.Learns (site : Site) (m : Memory (Transcribed σ γ V) V)
    (asked : List (Exchange γ V)) (after : Memory (Transcribed σ γ V) V) : Prop where
  said : after.host.exchanges = m.host.exchanges ++ asked
  remembered : after.resolutions = site.recall m.resolutions asked

namespace Memory
variable {site : Site} {m between after : Memory (Transcribed σ γ V) V}
variable {asked others : List (Exchange γ V)}

theorem Learns.trans (first : m.Learns site asked between)
    (second : between.Learns site others after) : m.Learns site (asked ++ others) after := by
  constructor
  · rw [second.said, first.said, List.append_assoc]
  · rw [second.remembered, first.remembered, site.recall_append]

private theorem Says.learns (spoke : m.Says asked after)
    (unresolved : ∀ exchange ∈ asked, exchange.isResolve = false) : m.Learns site asked after := by
  refine ⟨spoke.said, ?_⟩
  rw [spoke.resolutions, site.recall_eq_self _ unresolved]

end Memory

/-- What is said while one clause is used, from the resolutions remembered and the scope built before
to the scope built then. -/
inductive Turn (site : Site) (opens : γ → Exchange γ V) (clause : Clause)
    (known : ResolutionMemory) : Option γ → List (Exchange γ V) → Option γ → Prop
  | unsupported (scope : Option γ) :
    Turn site opens clause known scope [.supports clause.qualifier false] scope
  | recalled (scope : Option γ) {answer : Resolution} {applied : List (Exchange γ V)} :
    known.get? ⟨site, clause.expression⟩ = some answer →
    (∀ exchange ∈ applied, exchange.isMeaning = true) →
    Turn site opens clause known scope (.supports clause.qualifier true :: applied) scope
  | resolved (scope : γ) (answer : Resolution) {applied : List (Exchange γ V)} :
    known.get? ⟨site, clause.expression⟩ = none →
    (∀ exchange ∈ applied, exchange.isMeaning = true) →
    Turn site opens clause known (some scope)
      (.supports clause.qualifier true :: .resolve clause.expression scope answer :: applied)
      (some scope)
  | opened (scope : γ) (answer : Resolution) {applied : List (Exchange γ V)} :
    known.get? ⟨site, clause.expression⟩ = none →
    (∀ exchange ∈ applied, exchange.isMeaning = true) →
    Turn site opens clause known none
      (.supports clause.qualifier true :: opens scope ::
        .resolve clause.expression scope answer :: applied)
      (some scope)

inductive Pass (site : Site) (opens : γ → Exchange γ V) : List Clause → ResolutionMemory →
    Option γ → List (Exchange γ V) → Option γ → Prop
  | nil (known : ResolutionMemory) (scope : Option γ) : Pass site opens [] known scope [] scope
  | cons {clause : Clause} {clauses : List Clause} {known : ResolutionMemory}
    {scope between after : Option γ} {asked others : List (Exchange γ V)} :
    Turn site opens clause known scope asked between →
    Pass site opens clauses (site.recall known asked) between others after →
    Pass site opens (clause :: clauses) known scope (asked ++ others) after

private theorem split_cons {whole before after : List α} {a b : α}
    (split : a :: whole = before ++ b :: after) :
    (before = [] ∧ a = b ∧ whole = after) ∨ ∃ rest, before = a :: rest ∧ whole = rest ++ b :: after := by
  cases before with
  | nil =>
    obtain ⟨rfl, rfl⟩ := List.cons.inj split
    exact .inl ⟨rfl, rfl, rfl⟩
  | cons c rest =>
    obtain ⟨rfl, rfl⟩ := List.cons.inj split
    exact .inr ⟨rest, rfl, rfl⟩

private theorem split_append {first second before after : List α} {a : α}
    (split : first ++ second = before ++ a :: after) :
    (∃ rest, first = before ++ a :: rest ∧ after = rest ++ second) ∨
      ∃ rest, before = first ++ rest ∧ second = rest ++ a :: after := by
  rcases List.append_eq_append_iff.1 split with ⟨rest, whole, others⟩ | ⟨rest, whole, others⟩
  · exact .inr ⟨rest, whole, others⟩
  · cases rest with
    | nil => exact .inr ⟨[], by simp [whole], by simp [others]⟩
    | cons b rest =>
      obtain ⟨rfl, later⟩ := List.cons.inj others
      exact .inl ⟨rest, whole, later⟩

section
variable {site : Site} {opens : γ → Exchange γ V} {clause : Clause} {clauses : List Clause}
variable {known : ResolutionMemory} {scope ended : Option γ}
variable {asked before after : List (Exchange γ V)} {exchange : Exchange γ V}

/-- Whatever is said in a pass is said in the turn of one of the clauses, which starts from what is
remembered then, and from a scope built before if from any. -/
private theorem Pass.turn_at (pass : Pass site opens clauses known scope asked ended)
    (split : asked = before ++ exchange :: after) :
    ∃ clause ∈ clauses, ∃ earlier head tail later start stop,
      before = earlier ++ head ∧ after = tail ++ later ∧
      Turn site opens clause (site.recall known earlier) start (head ++ exchange :: tail) stop ∧
      ∀ built ∈ start, built ∈ scope ∨ opens built ∈ earlier := by
  induction pass generalizing before with
  | nil => simp at split
  | @cons clause clauses known scope between ended asked others turn pass ih =>
    rcases split_append split with ⟨rest, here, rfl⟩ | ⟨rest, rfl, there⟩
    · subst here
      exact ⟨clause, by simp, [], before, rest, others, scope, between, rfl, rfl, turn,
        fun _ => .inl⟩
    · obtain ⟨found, member, earlier, head, tail, later, start, stop, rfl, rfl, inside, built⟩ :=
        ih there
      refine ⟨found, by simp [member], asked ++ earlier, head, tail, later, start, stop,
        by simp, rfl, ?_, fun scope starts => ?_⟩
      · rw [site.recall_append]
        exact inside
      · rcases built scope starts with between | opened
        · cases turn with
          | unsupported | recalled => exact .inl between
          | resolved => exact .inl between
          | opened used =>
            -- the scope that later turns start from was built in this one
            obtain rfl := Option.some.inj between
            exact .inr (by simp)
        · exact .inr (by simp [opened])

private theorem isMeaning_of_split {applied : List (Exchange γ V)}
    (meanings : ∀ exchange ∈ applied, exchange.isMeaning = true)
    (split : applied = before ++ exchange :: after) : exchange.isMeaning = true :=
  meanings exchange (by simp [split])

private theorem Turn.place (turn : Turn site opens clause known scope asked ended)
    (split : asked = before ++ exchange :: after) :
    (before = [] ∧ ∃ answer, exchange = .supports clause.qualifier answer) ∨
    exchange.isMeaning = true ∨
    (∃ used answer later, exchange = opens used ∧ before = [.supports clause.qualifier true] ∧
      after = .resolve clause.expression used answer :: later) ∨
    ∃ used answer, exchange = .resolve clause.expression used answer ∧
      known.get? ⟨site, clause.expression⟩ = none ∧
      (scope = some used ∧ before = [.supports clause.qualifier true] ∨
        before = [.supports clause.qualifier true, opens used]) := by
  cases turn with
  | unsupported =>
    rcases split_cons split with ⟨rfl, rfl, -⟩ | ⟨rest, -, nothing⟩
    · exact .inl ⟨rfl, false, rfl⟩
    · simp at nothing
  | recalled _ _ meanings =>
    rcases split_cons split with ⟨rfl, rfl, -⟩ | ⟨rest, -, applied⟩
    · exact .inl ⟨rfl, true, rfl⟩
    · exact .inr (.inl (isMeaning_of_split meanings applied))
  | resolved used answer unknown meanings =>
    rcases split_cons split with ⟨rfl, rfl, -⟩ | ⟨rest, rfl, others⟩
    · exact .inl ⟨rfl, true, rfl⟩
    · rcases split_cons others with ⟨rfl, rfl, -⟩ | ⟨rest, -, applied⟩
      · exact .inr (.inr (.inr ⟨used, answer, rfl, unknown, .inl ⟨rfl, rfl⟩⟩))
      · exact .inr (.inl (isMeaning_of_split meanings applied))
  | opened used answer unknown meanings =>
    rcases split_cons split with ⟨rfl, rfl, -⟩ | ⟨rest, rfl, others⟩
    · exact .inl ⟨rfl, true, rfl⟩
    · rcases split_cons others with ⟨rfl, rfl, rfl⟩ | ⟨rest, rfl, last⟩
      · exact .inr (.inr (.inl ⟨used, answer, _, rfl, rfl, rfl⟩))
      · rcases split_cons last with ⟨rfl, rfl, -⟩ | ⟨rest, -, applied⟩
        · exact .inr (.inr (.inr ⟨used, answer, rfl, unknown, .inr rfl⟩))
        · exact .inr (.inl (isMeaning_of_split meanings applied))

private theorem Turn.countP_isScope (scopes : ∀ scope, (opens scope).isScope = true)
    (turn : Turn site opens clause known scope asked ended) :
    asked.countP (·.isScope) + scope.toList.length = ended.toList.length := by
  have scopeless {applied : List (Exchange γ V)}
      (meanings : ∀ exchange ∈ applied, exchange.isMeaning = true) :
      applied.countP (·.isScope) = 0 := by
    refine List.countP_eq_zero.2 fun exchange member => ?_
    rw [Exchange.isScope_of_isMeaning (meanings exchange member)]
    exact Bool.false_ne_true
  cases turn with
  | unsupported => simp [Exchange.isScope]
  | recalled scope _ meanings =>
    rw [List.countP_cons, scopeless meanings]
    simp [Exchange.isScope]
  | resolved built _ _ meanings =>
    rw [List.countP_cons, List.countP_cons, scopeless meanings]
    simp [Exchange.isScope]
  | opened built _ _ meanings =>
    rw [List.countP_cons, List.countP_cons, List.countP_cons, scopeless meanings, scopes built]
    rfl

private theorem Pass.countP_isScope (scopes : ∀ scope, (opens scope).isScope = true)
    (pass : Pass site opens clauses known scope asked ended) :
    asked.countP (·.isScope) + scope.toList.length = ended.toList.length := by
  induction pass with
  | nil => simp
  | cons turn _ ih =>
    have here := turn.countP_isScope scopes
    rw [List.countP_append]
    omega

/-- What is said about the clauses of a list at a site. An expression is resolved that is not
remembered, just after its clause was supported, in a scope that was built before; and a scope is built
only between support for a clause and the resolution of its expression, and once at most. -/
structure Orderly (site : Site) (opens : γ → Exchange γ V) (clauses : List Clause)
    (known : ResolutionMemory) (asked : List (Exchange γ V)) : Prop where
  resolve (before after : List (Exchange γ V)) (expression : String) (scope : γ)
    (answer : Resolution) : asked = before ++ .resolve expression scope answer :: after →
    (site.recall known before).get? ⟨site, expression⟩ = none ∧ opens scope ∈ before ∧
      ∃ clause ∈ clauses, clause.expression = expression ∧ ∃ earlier,
        before = earlier ++ [.supports clause.qualifier true] ∨
          before = earlier ++ [.supports clause.qualifier true, opens scope]
  scope (before after : List (Exchange γ V)) (exchange : Exchange γ V) :
    asked = before ++ exchange :: after → exchange.isScope = true →
    ∃ clause ∈ clauses, ∃ scope answer earlier later, exchange = opens scope ∧
      before = earlier ++ [.supports clause.qualifier true] ∧
      after = .resolve clause.expression scope answer :: later
  once : asked.countP (·.isScope) ≤ 1
  treeless : ∀ exchange ∈ asked, exchange.isAboutTree = false

private theorem Orderly.nil : Orderly site opens clauses known [] :=
  ⟨by simp, by simp, by simp, nofun⟩

private theorem Orderly.attentive (orderly : Orderly site opens clauses known asked) :
    Attentive asked :=
  .of_forall orderly.treeless

theorem Pass.orderly (scopes : ∀ scope, (opens scope).isScope = true)
    (pass : Pass site opens clauses known none asked ended) :
    Orderly site opens clauses known asked where
  resolve before after expression used answer split := by
    obtain ⟨clause, member, earlier, head, tail, later, start, stop, rfl, rfl, turn, built⟩ :=
      pass.turn_at split
    rcases turn.place rfl with ⟨-, _, wrong⟩ | wrong | ⟨scope, _, _, wrong, -⟩ |
      ⟨scope, _, same, unknown, starts⟩
    · contradiction
    · contradiction
    · have isScope := scopes scope
      rw [← wrong] at isScope
      contradiction
    · cases same
      -- the turn has resolved nothing before, so what it remembers is what it started from
      have unresolved : ∀ exchange ∈ head, exchange.isResolve = false := by
        rcases starts with ⟨-, rfl⟩ | rfl
        · exact List.forall_mem_singleton.2 rfl
        · have opening := Exchange.isResolve_of_isScope (scopes used)
          exact List.forall_mem_cons.2 ⟨rfl, List.forall_mem_singleton.2 opening⟩
      refine ⟨?_, ?_, clause, member, rfl, earlier, ?_⟩
      · rw [site.recall_append, site.recall_eq_self _ unresolved]
        exact unknown
      · rcases starts with ⟨rfl, rfl⟩ | rfl
        · rcases built used rfl with none | opened
          · cases none
          · simp [opened]
        · simp
      · rcases starts with ⟨-, rfl⟩ | rfl
        · exact .inl rfl
        · exact .inr rfl
  scope before after exchange split isScope := by
    obtain ⟨clause, member, earlier, head, tail, later, start, stop, rfl, rfl, turn, -⟩ :=
      pass.turn_at split
    rcases turn.place rfl with ⟨-, _, rfl⟩ | isMeaning | ⟨used, answer, others, rfl, rfl, rfl⟩ |
      ⟨_, _, rfl, -⟩
    · contradiction
    · rw [Exchange.isScope_of_isMeaning isMeaning] at isScope
      contradiction
    · exact ⟨clause, member, used, answer, earlier, others ++ later, rfl, rfl, rfl⟩
    · contradiction
  once := by
    have counted : asked.countP (·.isScope) = ended.toList.length := pass.countP_isScope scopes
    rw [counted]
    cases ended <;> simp
  treeless exchange member := by
    obtain ⟨before, after, split⟩ := List.append_of_mem member
    obtain ⟨clause, -, earlier, head, tail, later, start, stop, -, -, turn, -⟩ :=
      pass.turn_at split
    rcases turn.place rfl with ⟨-, _, rfl⟩ | isMeaning | ⟨used, _, _, rfl, -⟩ | ⟨_, _, rfl, -⟩
    · rfl
    · exact Exchange.isAboutTree_of_isMeaning isMeaning
    · exact Exchange.isAboutTree_of_isScope (scopes used)
    · rfl

end

namespace Analysis
open Run

/-- The host is asked for a scope as given. Applying a clause asks for meanings only, and rejecting
it for nothing. -/
structure ClauseUse.Transcribes (use : ClauseUse (Transcribed σ γ V) γ V κ S)
    (opens : γ → Exchange γ V) : Prop where
  scopes (scope : γ) : (opens scope).isScope = true
  build : ∃ query : StateM σ γ, use.build = Transcribed.answer opens query
  apply (item : κ) (path : Path) (state : S) (m : Memory (Transcribed σ γ V) V) :
    ∃ applied, (∀ exchange ∈ applied, exchange.isMeaning = true) ∧
      m.Says applied ((use.apply item path state).run m).2
  reject (item : κ) (error : ResolveError) (m : Memory (Transcribed σ γ V) V) :
    m.Says [] ((use.reject item error).run m).2

variable (analysis : Analysis σ γ V) {use : ClauseUse (Transcribed σ γ V) γ V κ S}
variable {opens : γ → Exchange γ V} (transcribes : use.Transcribes opens)
include transcribes

private theorem exists_said_resolve (clause : Clause) (scope : Option γ)
    (m : Memory (Transcribed σ γ V) V) :
    let resolved :=
      ((analysis.transcribed.resolve use.site use.build clause.expression).run scope).run m
    ∃ asked, m.Learns use.site asked resolved.2 ∧
      ∀ applied, (∀ exchange ∈ applied, exchange.isMeaning = true) →
        Turn use.site opens clause m.resolutions scope
          (.supports clause.qualifier true :: (asked ++ applied)) resolved.1.2 := by
  obtain ⟨query, build⟩ := transcribes.build
  dsimp only
  cases known : m.resolutions.get? ⟨use.site, clause.expression⟩ with
  | some answer =>
    rw [run_resolve_of_some known]
    refine ⟨[], ⟨(List.append_nil _).symm, rfl⟩, fun applied meanings => ?_⟩
    exact .recalled scope known meanings
  | none =>
    rw [run_resolve_of_none known, build]
    cases scope with
    | some scope =>
      refine ⟨[.resolve _ _ _], ⟨rfl, rfl⟩, fun applied meanings => ?_⟩
      exact .resolved scope _ known meanings
    | none =>
      let built := query.run m.host.state
      let found := (analysis.host.resolve clause.expression built.1).run built.2
      let between : Memory (Transcribed σ γ V) V :=
        { m with host := ⟨built.2, m.host.exchanges ++ [opens built.1]⟩ }
      have opening : m.Learns use.site [opens built.1] between :=
        Memory.Says.learns ⟨rfl, rfl⟩
          (List.forall_mem_singleton.2 (Exchange.isResolve_of_isScope (transcribes.scopes built.1)))
      exact ⟨[opens built.1] ++ [.resolve clause.expression built.1 found.1],
        opening.trans ⟨rfl, rfl⟩, fun applied meanings => .opened built.1 found.1 known meanings⟩

private theorem exists_turn_useClause (state : S) (item : κ) (scope : Option γ)
    (m : Memory (Transcribed σ γ V) V) :
    let used := ((analysis.transcribed.useClause use state item).run scope).run m
    ∃ asked, Turn use.site opens (use.clause item) m.resolutions scope asked used.1.2 ∧
      m.Learns use.site asked used.2 := by
  let clause := use.clause item
  let asked := (ask (analysis.transcribed.host.supports clause.qualifier)).run m
  let resolved :=
    ((analysis.transcribed.resolve use.site use.build clause.expression).run scope).run asked.2
  have supporting : m.Learns use.site [.supports clause.qualifier asked.1] asked.2 := ⟨rfl, rfl⟩
  obtain ⟨between, resolving, completes⟩ :=
    analysis.exists_said_resolve transcribes clause scope asked.2
  have applying {applied : List (Exchange γ V)} {after : Memory (Transcribed σ γ V) V}
      (meanings : ∀ exchange ∈ applied, exchange.isMeaning = true)
      (spoke : resolved.2.Says applied after) : resolved.2.Learns use.site applied after :=
    spoke.learns fun exchange member => Exchange.isResolve_of_isMeaning (meanings exchange member)
  dsimp only
  rcases analysis.transcribed.run_useClause_cases use state item scope m with
    ⟨unsupported, used⟩ | ⟨supported, path, -, used⟩ | ⟨supported, error, -, used⟩
  · rw [show asked.1 = false from unsupported] at supporting
    rw [used]
    exact ⟨_, .unsupported scope, supporting⟩
  · rw [show asked.1 = true from supported] at supporting
    rw [used]
    obtain ⟨applied, meanings, spoke⟩ := transcribes.apply item path state resolved.2
    exact ⟨_, completes applied meanings,
      supporting.trans (resolving.trans (applying meanings spoke))⟩
  · rw [show asked.1 = true from supported] at supporting
    rw [used]
    have spoke := transcribes.reject item error resolved.2
    exact ⟨_, completes [] nofun, supporting.trans (resolving.trans (applying nofun spoke))⟩

private theorem exists_pass_foldlM (items : List κ) (state : S) (scope : Option γ)
    (m : Memory (Transcribed σ γ V) V) :
    let used := ((items.foldlM (analysis.transcribed.useClause use) state).run scope).run m
    ∃ asked, Pass use.site opens (items.map use.clause) m.resolutions scope asked used.1.2 ∧
      m.Learns use.site asked used.2 := by
  induction items generalizing state scope m with
  | nil => exact ⟨[], .nil _ _, (List.append_nil _).symm, rfl⟩
  | cons item items ih =>
    let used := ((analysis.transcribed.useClause use state item).run scope).run m
    obtain ⟨asked, turn, learns⟩ :=
      analysis.exists_turn_useClause transcribes state item scope m
    obtain ⟨others, pass, learnsThen⟩ := ih used.1.1 used.1.2 used.2
    rw [learns.remembered] at pass
    rw [List.foldlM_cons]
    exact ⟨asked ++ others, .cons turn pass, learns.trans learnsThen⟩

private theorem exists_orderly_useClauses (items : List κ) (start : S)
    (m : Memory (Transcribed σ γ V) V) :
    ∃ asked, Orderly use.site opens (items.map use.clause) m.resolutions asked ∧
      m.Learns use.site asked ((analysis.transcribed.useClauses use items start).run m).2 := by
  obtain ⟨asked, pass, learns⟩ := analysis.exists_pass_foldlM transcribes items start none m
  exact ⟨asked, pass.orderly transcribes.scopes, learns⟩

omit transcribes

private theorem exists_said_establish (store : Store V) (path : Path) (qualifier : String)
    (m : Memory (Transcribed σ γ V) V) :
    ∃ applied, (∀ exchange ∈ applied, exchange.isMeaning = true) ∧
      m.Says applied ((analysis.transcribed.establish store path qualifier).run m).2 := by
  rw [run_establish]
  split
  · let asked := (ask (analysis.transcribed.host.meaning qualifier)).run m
    refine ⟨[.meaning qualifier asked.1], List.forall_mem_singleton.2 rfl, ?_⟩
    dsimp only
    split <;> exact ⟨rfl, rfl⟩
  · exact ⟨[], nofun, (List.append_nil _).symm, rfl⟩

private theorem transcribes_requirementUse (method : Method) :
    (analysis.transcribed.requirementUse method).Transcribes (.declarationScope method) where
  scopes _ := rfl
  build := ⟨analysis.host.declarationScope method, rfl⟩
  apply clause path store m := analysis.exists_said_establish store path clause.qualifier m
  reject _ _ _ := ⟨(List.append_nil _).symm, rfl⟩

private theorem transcribes_promiseUse (node : Id .node) (call : Call) :
    (analysis.transcribed.promiseUse node call).Transcribes (.callScope call) where
  scopes _ := rfl
  build := ⟨analysis.host.callScope call, rfl⟩
  apply clause path store m := analysis.exists_said_establish store path clause.qualifier m
  reject _ _ _ := ⟨(List.append_nil _).symm, rfl⟩

private theorem transcribes_resultPromiseUse (node : Id .node) (call : Call) :
    (analysis.transcribed.resultPromiseUse node call).Transcribes (.callScope call) where
  scopes _ := rfl
  build := ⟨analysis.host.callScope call, rfl⟩
  apply clause path stores m := by
    obtain ⟨whenTrue, whenFalse⟩ := stores
    dsimp only [resultPromiseUse]
    split
    · exact analysis.exists_said_establish whenTrue path clause.qualifier m
    · exact analysis.exists_said_establish whenFalse path clause.qualifier m
  reject _ _ _ := ⟨(List.append_nil _).symm, rfl⟩

private theorem exists_orderly_enterRequirements (method : Method) (start : Store V)
    (m : Memory (Transcribed σ γ V) V) :
    ∃ asked, Orderly (.declaration method.id) (.declarationScope method)
        (analysis.contracts method.id).requires.keys m.resolutions asked ∧
      m.Learns (.declaration method.id) asked
        ((analysis.transcribed.enterRequirements method start).run m).2 := by
  obtain ⟨asked, orderly, learns⟩ := analysis.exists_orderly_useClauses
    (analysis.transcribes_requirementUse method) (analysis.contracts method.id).requires.keys start m
  have clauses : (analysis.contracts method.id).requires.keys.map
      (analysis.transcribed.requirementUse method).clause = _ := List.map_id' _
  rw [clauses] at orderly
  rw [enterRequirements_eq]
  exact ⟨asked, orderly, learns⟩

private theorem exists_orderly_usePromises (node : Id .node) (call : Call) (start : Store V)
    (m : Memory (Transcribed σ γ V) V) :
    ∃ asked, Orderly (.call node call.method) (.callScope call)
        (analysis.contracts call.method).ensures.keys m.resolutions asked ∧
      m.Learns (.call node call.method) asked
        ((analysis.transcribed.usePromises node call start).run m).2 := by
  obtain ⟨asked, orderly, learns⟩ := analysis.exists_orderly_useClauses
    (analysis.transcribes_promiseUse node call) (analysis.contracts call.method).ensures.keys start m
  have clauses : (analysis.contracts call.method).ensures.keys.map
      (analysis.transcribed.promiseUse node call).clause = _ := List.map_id' _
  rw [clauses] at orderly
  rw [usePromises_eq]
  exact ⟨asked, orderly, learns⟩

private theorem exists_orderly_useResultPromises (node : Id .node) (call : Call)
    (start : Store V × Store V) (m : Memory (Transcribed σ γ V) V) :
    ∃ asked, Orderly (.call node call.method) (.callScope call)
        ((analysis.contracts call.method).ensuresIf.keys.map ResultClause.toClause)
        m.resolutions asked ∧
      m.Learns (.call node call.method) asked
        ((analysis.transcribed.useResultPromises node call start).run m).2 := by
  rw [useResultPromises_eq]
  exact analysis.exists_orderly_useClauses (analysis.transcribes_resultPromiseUse node call)
    (analysis.contracts call.method).ensuresIf.keys start m

variable [Domain V]

private theorem exists_calm_enterParameters (parameters : List Parameter) (start : Store V)
    (m : Memory (Transcribed σ γ V) V) :
    ∃ asked, Calm asked ∧
      m.Says asked ((analysis.transcribed.enterParameters parameters start).run m).2 :=
  exists_calm_of_keeps (fun _ =>
    enterParameters_keeps analysis.respects_staysCalm Store.isInvariant_true trivial parameters) m

private theorem exists_calm_readValue (node : Node) (store : Store V) (path : Path)
    (m : Memory (Transcribed σ γ V) V) :
    ∃ asked, Calm asked ∧
      m.Says asked ((analysis.transcribed.readValue node store path).run.run m).2 :=
  exists_calm_of_keeps (fun _ => readValue_keeps analysis.respects_staysCalm node store path) m

omit [Domain V] in
private theorem exists_calm_calleeIsPure (store : Store V) (callee : Id .method)
    (m : Memory (Transcribed σ γ V) V) :
    ∃ asked, Calm asked ∧
      m.Says asked ((ask (analysis.transcribed.calleeIsPure store callee)).run m).2 := by
  unfold calleeIsPure
  split
  · exact ⟨[.isSideEffectFree callee _], .other rfl rfl, rfl, rfl⟩
  · exact ⟨[], .nil, (List.append_nil _).symm, rfl⟩

private theorem exists_calm_step [DecidableEq V] {node : Node}
    (stays : ∀ call, node.operation ≠ .invoke call) (values : Id .node → Option V)
    (incoming : Flow V) (m : Memory (Transcribed σ γ V) V) :
    ∃ asked, Calm asked ∧
      m.Says asked ((analysis.transcribed.step node values incoming).run.run m).2 :=
  exists_calm_of_keeps (fun _ =>
    step_keeps analysis.respects_staysCalm Store.isInvariant_true
      (fun call invokes => absurd invokes (stays call)) (fun _ => trivial) values) m

/-- What is said at the entry of a method: first about its parameters, then about what it requires,
and last about fields. -/
private theorem exists_said_entryStore (method : Method) (parameters : List Parameter)
    (m : Memory (Transcribed σ γ V) V) :
    let after := ((analysis.transcribed.entryStore (.method method) parameters).run m).2
    let site : Site := .declaration method.id
    ∃ declared required fields, Calm declared ∧ Calm fields ∧
      Orderly site (.declarationScope method) (analysis.contracts method.id).requires.keys
        m.resolutions.forgetCalls required ∧
      after.host.exchanges = m.host.exchanges ++ (declared ++ required ++ fields) ∧
      after.resolutions = site.recall m.resolutions.forgetCalls required := by
  let noted : Memory (Transcribed σ γ V) V := (StateT.run (do
    forgetCalls
    note (.entered method.name)) m).2
  let entered := (analysis.transcribed.enterParameters parameters
    (.empty analysis.assumptions)).run noted
  let used := (analysis.transcribed.enterRequirements method entered.1).run entered.2
  obtain ⟨declared, calm, spoke⟩ := analysis.exists_calm_enterParameters parameters
    (.empty analysis.assumptions) noted
  obtain ⟨required, orderly, learns⟩ :=
    analysis.exists_orderly_enterRequirements method entered.1 entered.2
  have forgotten : entered.2.resolutions = m.resolutions.forgetCalls := spoke.resolutions
  rw [forgotten] at orderly
  let values := (analysis.host.fieldValues.run used.2.host.state).1
  refine ⟨declared, required, [.fieldValues values], calm, .other rfl rfl, orderly, ?_, ?_⟩
  · have said : used.2.host.exchanges = m.host.exchanges ++ (declared ++ required) := by
      rw [learns.said, ← List.append_assoc]
      exact congrArg (· ++ required) spoke.said
    change used.2.host.exchanges ++ [.fieldValues values] = _
    rw [said, List.append_assoc]
  · rw [← forgotten]
    exact learns.remembered

/-- What is said at a call: first about its value and about the callee, then about what it promises
for every result, and last about what it promises for one result. -/
private theorem exists_said_invoke (node : Node) (call : Call) (incoming : Flow V)
    (m : Memory (Transcribed σ γ V) V) :
    let after := ((analysis.transcribed.invoke node call incoming).run.run m).2
    let site : Site := .call node.id call.method
    ∃ valued first second, Calm valued ∧
      Orderly site (.callScope call) (analysis.contracts call.method).ensures.keys
        m.resolutions first ∧
      Orderly site (.callScope call)
        ((analysis.contracts call.method).ensuresIf.keys.map ResultClause.toClause)
        (site.recall m.resolutions first) second ∧
      after.host.exchanges = m.host.exchanges ++ (valued ++ first ++ second) ∧
      after.resolutions = site.recall (site.recall m.resolutions first) second := by
  let store := incoming.merge
  let read := (analysis.transcribed.readValue node store call.path).run.run m
  obtain ⟨valued, calm, spokeFirst⟩ := analysis.exists_calm_readValue node store call.path m
  dsimp only
  unfold invoke
  cases result : read.1 with
  | error violation =>
    rw [Attempt.run_bind_of_error result]
    refine ⟨valued, [], [], calm, .nil, .nil, ?_, spokeFirst.resolutions⟩
    rw [List.append_nil, List.append_nil]
    exact spokeFirst.said
  | ok value =>
    let asked := (ask (analysis.transcribed.calleeIsPure store call.method)).run read.2
    let promised := (analysis.transcribed.usePromises node.id call
      (store.afterCall call asked.1 value)).run asked.2
    obtain ⟨callee, calmly, spokeThen⟩ :=
      analysis.exists_calm_calleeIsPure store call.method read.2
    obtain ⟨first, orderly, learns⟩ := analysis.exists_orderly_usePromises node.id call
      (store.afterCall call asked.1 value) asked.2
    obtain ⟨second, orderlyThen, learnsThen⟩ :=
      analysis.exists_orderly_useResultPromises node.id call (promised.1, promised.1) promised.2
    have known : asked.2.resolutions = m.resolutions :=
      spokeThen.resolutions.trans spokeFirst.resolutions
    have promisedKnown : promised.2.resolutions =
        Site.recall (.call node.id call.method) m.resolutions first := by
      rw [← known]
      exact learns.remembered
    rw [known] at orderly
    rw [promisedKnown] at orderlyThen
    rw [Attempt.run_bind_of_ok result]
    refine ⟨valued ++ callee, first, second, calm.append calmly, orderly, orderlyThen, ?_, ?_⟩
    · refine (learns.trans learnsThen).said.trans ?_
      rw [spokeThen.said, spokeFirst.said]
      simp only [List.append_assoc]
    · rw [← promisedKnown]
      exact learnsThen.remembered

/-- From every state of every host, what an entry or a step says to the host, whether it succeeds or
fails, obeys one protocol. The host attends to a tree exactly while it is asked for a value of the
tree. Requirements are talked about in order, as are the promises of a call for every result, and
then those for one result; nothing else is said about clauses. -/
theorem keeps_protocol [DecidableEq V] (analysis : Analysis σ γ V) :
    (∀ unit parameters (memory : Memory (Transcribed σ γ V) V),
      let after := ((analysis.transcribed.entryStore unit parameters).run memory).2
      ∃ asked, after.host.exchanges = memory.host.exchanges ++ asked ∧
        Attentive asked ∧ attendedAfter asked = none ∧
        match unit with
        | .other => asked = []
        | .method method =>
          let site : Site := .declaration method.id
          let known := memory.resolutions.forgetCalls
          ∃ declared required fields, asked = declared ++ required ++ fields ∧
            Calm declared ∧ Calm fields ∧
            Orderly site (.declarationScope method) (analysis.contracts method.id).requires.keys
              known required ∧
            after.resolutions = site.recall known required) ∧
    ∀ node values incoming (memory : Memory (Transcribed σ γ V) V),
      let after := ((analysis.transcribed.step node values incoming).run.run memory).2
      ∃ asked, after.host.exchanges = memory.host.exchanges ++ asked ∧
        Attentive asked ∧ attendedAfter asked = none ∧
        match node.operation with
        | .invoke call =>
          let site : Site := .call node.id call.method
          let contract := analysis.contracts call.method
          ∃ valued first second, asked = valued ++ first ++ second ∧ Calm valued ∧
            Orderly site (.callScope call) contract.ensures.keys memory.resolutions first ∧
            Orderly site (.callScope call) (contract.ensuresIf.keys.map ResultClause.toClause)
              (site.recall memory.resolutions first) second ∧
            after.resolutions = site.recall (site.recall memory.resolutions first) second
        | _ => Calm asked ∧ after.resolutions = memory.resolutions := by
  refine ⟨fun unit parameters memory => ?_, fun node values incoming memory => ?_⟩
  · cases unit with
    | other => exact ⟨[], (List.append_nil _).symm, .nil, rfl, rfl⟩
    | method method =>
      obtain ⟨declared, required, fields, calm, calmThen, orderly, said, remembered⟩ :=
        analysis.exists_said_entryStore method parameters memory
      have attentive : Attentive (declared ++ required ++ fields) :=
        (calm.attentive.append orderly.attentive).append calmThen.attentive
      exact ⟨_, said, attentive, attentive.attendedAfter_eq_none, declared, required, fields, rfl,
        calm, calmThen, orderly, remembered⟩
  · cases operation : node.operation with
    | invoke call =>
      let noted := ((note (.visited node.id (Operation.invoke call).name)).run memory).2
      have stepped : ((analysis.transcribed.step node values incoming).run.run memory).2 =
          ((analysis.transcribed.invoke node call incoming).run.run noted).2 := by
        unfold step
        rw [operation]
        rfl
      obtain ⟨valued, first, second, calm, orderly, orderlyThen, said, remembered⟩ :=
        analysis.exists_said_invoke node call incoming noted
      have attentive : Attentive (valued ++ first ++ second) :=
        (calm.attentive.append orderly.attentive).append orderlyThen.attentive
      rw [stepped]
      exact ⟨_, said, attentive, attentive.attendedAfter_eq_none, valued, first, second, rfl, calm,
        orderly, orderlyThen, remembered⟩
    | _ =>
      have stays : ∀ call, node.operation ≠ .invoke call := by
        rw [operation]
        exact nofun
      obtain ⟨asked, calm, spoke⟩ := analysis.exists_calm_step stays values incoming memory
      exact ⟨asked, spoke.said, calm.attentive, calm.attentive.attendedAfter_eq_none, calm,
        spoke.resolutions⟩

end Analysis
end QualifierFlow
