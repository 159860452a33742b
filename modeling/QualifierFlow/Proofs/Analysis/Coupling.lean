import QualifierFlow.Proofs.Analysis.Simulation

/-! Runs coupled from memories that differ at most in what was logged. They may be runs on different
stores: what the host is asked never depends on a store, so that they stay related throughout. -/
namespace QualifierFlow
variable {σ γ V α β α' β' : Type}

/-- Memories that differ at most in what was logged. -/
structure Memory.Alike (m n : Memory σ V) : Prop where
  host : m.host = n.host
  resolutions : m.resolutions = n.resolutions
  complaints : m.complaints = n.complaints

theorem Memory.Alike.refl (m : Memory σ V) : m.Alike m := ⟨rfl, rfl, rfl⟩

theorem Analysis.shares_alike : Shares (σ := σ) (V := V) Memory.Alike where
  host alike := alike.host
  resolutions alike := alike.resolutions
  answer alike _ := ⟨rfl, alike.resolutions, alike.complaints⟩
  remember alike _ := ⟨alike.host, rfl, alike.complaints⟩
  log alike _ _ := ⟨alike.host, alike.resolutions, alike.complaints⟩

namespace Run

def Related (R : α → β → Prop) (left : Run σ V α) (right : Run σ V β) : Prop :=
  ∀ m n : Memory σ V, m.Alike n →
    R (left.run m).1 (right.run n).1 ∧ (left.run m).2.Alike (right.run n).2

namespace Related

theorem pure {R : α → β → Prop} {a : α} {b : β} (related : R a b) :
    Related (σ := σ) (V := V) R (pure a) (pure b) :=
  Coupled.pure related

theorem bind {R : α → β → Prop} {S : α' → β' → Prop} {left : Run σ V α} {right : Run σ V β}
    {next : α → Run σ V α'} {next' : β → Run σ V β'} (first : Related R left right)
    (rest : ∀ a b, R a b → Related S (next a) (next' b)) :
    Related S (left >>= next) (right >>= next') :=
  Coupled.bind first rest

theorem ask (query : StateM σ α) : Related (V := V) Eq (ask query) (ask query) :=
  Analysis.shares_alike.ask query

theorem note (event event' : Event V) : Related (σ := σ) Eq (note event) (note event') :=
  fun _ _ alike => ⟨rfl, alike.host, alike.resolutions, alike.complaints⟩

end Related
end Run

namespace Attempt

theorem run_lift_bind (run : Run σ V α) (next : α → Attempt σ V β) :
    ((liftM run : Attempt σ V α) >>= next).run = run >>= fun a => (next a).run := rfl

theorem run_ofExcept_bind (result : Except (Violation V) α) (next : α → Attempt σ V β) :
    (ofExcept result >>= next).run =
      match result with
      | .ok a => (next a).run
      | .error violation => pure (.error violation) := by
  cases result <;> rfl

end Attempt

def Attempt.Related (R : α → β → Prop) (left : Attempt σ V α) (right : Attempt σ V β) : Prop :=
  Run.Related (fun x y => ∃ a b, x = .ok a ∧ y = .ok b ∧ R a b) left.run right.run

namespace Attempt.Related

theorem pure {R : α → β → Prop} {a : α} {b : β} (related : R a b) :
    Related (σ := σ) (V := V) R (pure a) (pure b) :=
  Run.Related.pure ⟨a, b, rfl, rfl, related⟩

theorem lift {R : α → β → Prop} {left : Run σ V α} {right : Run σ V β}
    (related : Run.Related R left right) :
    Related R (liftM left : Attempt σ V α) (liftM right) := by
  intro m n alike
  obtain ⟨results, after⟩ := related m n alike
  exact ⟨⟨_, _, rfl, rfl, results⟩, after⟩

theorem ofExcept {R : α → β → Prop} {a : α} {b : β} (related : R a b) :
    Related (σ := σ) R (Attempt.ofExcept (V := V) (.ok a)) (Attempt.ofExcept (.ok b)) :=
  pure related

theorem bind {R : α → β → Prop} {S : α' → β' → Prop} {left : Attempt σ V α}
    {right : Attempt σ V β} {next : α → Attempt σ V α'} {next' : β → Attempt σ V β'}
    (first : Related R left right) (rest : ∀ a b, R a b → Related S (next a) (next' b)) :
    Related S (left >>= next) (right >>= next') := by
  unfold Related
  rw [ExceptT.run_bind, ExceptT.run_bind]
  refine Run.Related.bind first ?_
  rintro _ _ ⟨a, b, rfl, rfl, related⟩
  exact rest a b related

end Attempt.Related

namespace Analysis
variable (analysis : Analysis σ γ V)

theorem note_idle (event : Event V) :
    Run.Coupled (σ := σ) Memory.Alike Memory.Alike (fun _ _ => True) (Run.note event) (pure ()) :=
  shares_alike.note_idle event

theorem attending_related (tree : Tree) (query : Tree → StateM σ (Option V)) :
    Run.Related Eq (analysis.attending tree query) (analysis.attending tree query) :=
  analysis.attending_agrees (fun _ => Run.Related.ask _) (fun _ => Run.Related.ask _) tree

theorem valueOf?_related (query : Tree → StateM σ (Option V)) (tree : Option Tree) :
    Run.Related Eq (valueOf? (analysis.attending · query) tree)
      (valueOf? (analysis.attending · query) tree) :=
  valueOf?_agrees (analysis.attending_related · query) tree

theorem nodeValue_related (node : Node) :
    Run.Related Eq (analysis.nodeValue node) (analysis.nodeValue node) :=
  analysis.valueOf?_related analysis.host.typeValue (node.tree.filter (·.typed))

theorem resolvesAlike_alike (site : Site) (build : StateM σ γ) :
    analysis.ResolvesAlike Memory.Alike site build :=
  shares_alike.resolvesAlike analysis site build

variable {κ S : Type} {R : S → S → Prop}

/-- What a list of clauses does to two related states, given that one clause keeps them related. -/
theorem useClauses_related (use : ClauseUse σ γ V κ S)
    (apply : ∀ item path s t, R s t → Run.Related R (use.apply item path s) (use.apply item path t))
    (reject : ∀ item error, Run.Related Eq (use.reject item error) (use.reject item error))
    (items : List κ) {s t : S} (start : R s t) :
    Run.Related R (analysis.useClauses use items s) (analysis.useClauses use items t) :=
  useClauses_coupled (analysis.resolvesAlike_alike use.site use.build)
    apply reject items start

end Analysis
end QualifierFlow
